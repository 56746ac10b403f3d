/-
KvCrucible/Basis/TreeMap.lean

Additions to the extensional tree maps of the standard library: the total
weight of the stored values, splitting at a key, maps made of a list of
entries, and dropping smallest keys until a size bound holds.

Everything reduces to one fact, `toList_perm`: two entry lists without
repeated keys that agree as sets are permutations of each other, so a weight
is determined by the lookup function.
-/
import Mathlib

namespace Basis

open Std

variable {κ β : Type*} {cmp : κ → κ → Ordering} [TransCmp cmp] [LawfulEqCmp cmp]

/-! ### Entry lists -/

omit [LawfulEqCmp cmp] in
theorem nodup_toList (m : ExtTreeMap κ β cmp) : m.toList.Nodup := by
  refine List.Pairwise.imp ?_ m.distinct_keys_toList
  rintro a b hab rfl
  exact hab ReflCmp.compare_self

/-- A duplicate-free list with exactly the entries of `m` is a permutation of
its entry list. -/
theorem toList_perm {m : ExtTreeMap κ β cmp} {l : List (κ × β)} (hl : l.Nodup)
    (h : ∀ k v, (k, v) ∈ l ↔ m[k]? = some v) : m.toList.Perm l := by
  refine (List.perm_ext_iff_of_nodup (nodup_toList m) hl).mpr ?_
  rintro ⟨k, v⟩
  rw [ExtTreeMap.mem_toList_iff_getElem?_eq_some, h]

theorem erase_of_getElem?_eq_none {m : ExtTreeMap κ β cmp} {k : κ} (h : m[k]? = none) :
    m.erase k = m := by
  refine ExtTreeMap.ext_getElem? fun j => ?_
  rw [ExtTreeMap.getElem?_erase]
  by_cases hkj : cmp k j = .eq
  · obtain rfl := LawfulEqCmp.eq_of_compare hkj
    simp [hkj, h]
  · simp [hkj]

theorem toList_insert_perm (m : ExtTreeMap κ β cmp) (k : κ) (v : β) :
    (m.insert k v).toList.Perm ((k, v) :: (m.erase k).toList) := by
  refine toList_perm ?_ ?_
  · refine List.nodup_cons.mpr ⟨?_, nodup_toList _⟩
    rw [ExtTreeMap.mem_toList_iff_getElem?_eq_some, ExtTreeMap.getElem?_erase_self]
    simp
  · intro j w
    rw [List.mem_cons, ExtTreeMap.mem_toList_iff_getElem?_eq_some,
      ExtTreeMap.getElem?_erase, ExtTreeMap.getElem?_insert, Prod.mk.injEq]
    by_cases hkj : cmp k j = .eq
    · obtain rfl := LawfulEqCmp.eq_of_compare hkj
      rw [if_pos hkj, if_pos hkj, Option.some.injEq]
      constructor
      · rintro (⟨-, rfl⟩ | h)
        · rfl
        · cases h
      · rintro rfl
        exact .inl ⟨rfl, rfl⟩
    · have hne : j ≠ k := by
        rintro rfl
        exact hkj ReflCmp.compare_self
      simp [hkj, hne]

theorem toList_perm_cons_erase {m : ExtTreeMap κ β cmp} {k : κ} {v : β}
    (h : m[k]? = some v) : m.toList.Perm ((k, v) :: (m.erase k).toList) := by
  have hm : m.insert k v = m := by
    refine ExtTreeMap.ext_getElem? fun j => ?_
    rw [ExtTreeMap.getElem?_insert]
    by_cases hkj : cmp k j = .eq
    · obtain rfl := LawfulEqCmp.eq_of_compare hkj
      simp [h]
    · simp [hkj]
  have := toList_insert_perm m k v
  rwa [hm] at this

/-! ### Weights -/

/-- The sum of `f` over the stored values. -/
def weight (f : β → Nat) (m : ExtTreeMap κ β cmp) : Nat :=
  (m.toList.map fun e => f e.2).sum

variable (f : β → Nat)

omit [LawfulEqCmp cmp] in
@[simp] theorem weight_empty : weight f (∅ : ExtTreeMap κ β cmp) = 0 := by
  rw [weight, ExtTreeMap.toList_eq_nil_iff.mpr rfl]
  rfl

/-- The weight of a map splits off the entry of any key it stores. -/
theorem weight_eq_add_erase {m : ExtTreeMap κ β cmp} {k : κ} {v : β}
    (h : m[k]? = some v) : weight f m = f v + weight f (m.erase k) := by
  have := ((toList_perm_cons_erase h).map fun e => f e.2).sum_eq
  simpa [weight] using this

theorem weight_insert (m : ExtTreeMap κ β cmp) (k : κ) (v : β) :
    weight f (m.insert k v) = f v + weight f (m.erase k) := by
  have := ((toList_insert_perm m k v).map fun e => f e.2).sum_eq
  simpa [weight] using this

theorem weight_insert_of_none {m : ExtTreeMap κ β cmp} {k : κ} (h : m[k]? = none) (v : β) :
    weight f (m.insert k v) = f v + weight f m := by
  rw [weight_insert, erase_of_getElem?_eq_none h]

theorem weight_insert_of_some {m : ExtTreeMap κ β cmp} {k : κ} {v : β} (h : m[k]? = some v)
    (w : β) : weight f (m.insert k w) + f v = weight f m + f w := by
  rw [weight_insert, weight_eq_add_erase f h]
  omega

/-- A stored value weighs no more than its map. -/
theorem le_weight {m : ExtTreeMap κ β cmp} {k : κ} {v : β} (h : m[k]? = some v) :
    f v ≤ weight f m := by
  rw [weight_eq_add_erase f h]
  omega

omit [LawfulEqCmp cmp] in
/-- Splitting the entries by a test splits the weight. -/
theorem weight_filter_add (m : ExtTreeMap κ β cmp) (p : κ → β → Bool) :
    weight f (m.filter p) + weight f (m.filter fun k v => !p k v) = weight f m := by
  unfold weight
  rw [ExtTreeMap.toList_filter, ExtTreeMap.toList_filter]
  induction m.toList with
  | nil => rfl
  | cons e rest ih =>
      rcases hp : p e.1 e.2 with - | -
      · simp only [List.filter_cons, hp, Bool.not_false, if_true, List.map_cons, List.sum_cons,
          Bool.false_eq_true, if_false]
        omega
      · simp only [List.filter_cons, hp, Bool.not_true, if_true, List.map_cons, List.sum_cons,
          Bool.false_eq_true, if_false]
        omega

omit [LawfulEqCmp cmp] in
theorem weight_eq_weight_map (m : ExtTreeMap κ β cmp) :
    weight f m = weight id (m.map fun _ v => f v) := by
  rw [weight, weight, ExtTreeMap.toList_map, List.map_map]
  rfl

/-- Weights are determined by the lookups, up to what `f` sees of a value. -/
theorem weight_congr {β' : Type*} {m : ExtTreeMap κ β cmp} {m' : ExtTreeMap κ β' cmp}
    {f : β → Nat} {f' : β' → Nat} (h : ∀ k : κ, m[k]?.map f = m'[k]?.map f') :
    weight f m = weight f' m' := by
  have hmap : (m.map fun _ v => f v) = m'.map fun _ v => f' v := by
    refine ExtTreeMap.ext_getElem? fun k => ?_
    rw [ExtTreeMap.getElem?_map, ExtTreeMap.getElem?_map]
    exact h k
  rw [weight_eq_weight_map f, weight_eq_weight_map f', hmap]

/-! ### Mapped values -/

section Values

variable {γ : Type*} {f : β → γ} (m : ExtTreeMap κ β cmp)

theorem map_insert (k : κ) (v : β) :
    (m.insert k v).map (fun _ v => f v) = (m.map fun _ v => f v).insert k (f v) := by
  refine ExtTreeMap.ext_getElem? fun j => ?_
  rw [ExtTreeMap.getElem?_map, ExtTreeMap.getElem?_insert, ExtTreeMap.getElem?_insert,
    ExtTreeMap.getElem?_map, apply_ite (Option.map f), Option.map_some]

theorem map_erase (k : κ) :
    (m.erase k).map (fun _ v => f v) = (m.map fun _ v => f v).erase k := by
  refine ExtTreeMap.ext_getElem? fun j => ?_
  rw [ExtTreeMap.getElem?_map, ExtTreeMap.getElem?_erase, ExtTreeMap.getElem?_erase,
    ExtTreeMap.getElem?_map, apply_ite (Option.map f), Option.map_none]

theorem map_filter (p : κ → Bool) :
    (m.filter fun k _ => p k).map (fun _ v => f v) =
      (m.map fun _ v => f v).filter fun k _ => p k := by
  refine ExtTreeMap.ext_getElem? fun j => ?_
  rw [ExtTreeMap.getElem?_map, ExtTreeMap.getElem?_filter', ExtTreeMap.getElem?_filter',
    ExtTreeMap.getElem?_map]
  cases m[j]? with
  | none => rfl
  | some v =>
      by_cases h : p j = true
      · simp [h, Option.filter]
      · simp [h, Option.filter]

omit [LawfulEqCmp cmp] in
theorem isEmpty_map : (m.map fun _ v => f v).isEmpty = m.isEmpty := by
  rw [ExtTreeMap.isEmpty_eq_size_beq_zero, ExtTreeMap.isEmpty_eq_size_beq_zero,
    ExtTreeMap.size_map]

end Values

/-! ### Sizes -/

omit [LawfulEqCmp cmp] in
theorem size_insert_of_some {m : ExtTreeMap κ β cmp} {k : κ} {v : β} (h : m[k]? = some v)
    (w : β) : (m.insert k w).size = m.size := by
  have hk : k ∈ m := ExtTreeMap.mem_iff_isSome_getElem?.mpr (by simp [h])
  rw [ExtTreeMap.size_insert, if_pos (ExtTreeMap.contains_iff_mem.mpr hk)]

omit [LawfulEqCmp cmp] in
theorem size_insert_of_none {m : ExtTreeMap κ β cmp} {k : κ} (h : m[k]? = none) (w : β) :
    (m.insert k w).size = m.size + 1 := by
  have hk : k ∉ m := fun hk => by
    have := ExtTreeMap.mem_iff_isSome_getElem?.mp hk
    simp [h] at this
  rw [ExtTreeMap.size_insert, if_neg fun hc => hk (ExtTreeMap.contains_iff_mem.mp hc)]

/-! ### Submaps -/

/-- A map all of whose entries are entries of `m` weighs no more. -/
theorem weight_le_of_subset {m m' : ExtTreeMap κ β cmp}
    (h : ∀ (k : κ) (v : β), m'[k]? = some v → m[k]? = some v) : weight f m' ≤ weight f m := by
  have hsub : m'.toList ⊆ m.toList := by
    rintro ⟨k, v⟩ hkv
    rw [ExtTreeMap.mem_toList_iff_getElem?_eq_some] at hkv ⊢
    exact h k v hkv
  obtain ⟨l, hperm, hl⟩ := List.subperm_of_subset (nodup_toList m') hsub
  have hsum := (hperm.map fun e => f e.2).sum_eq
  have hle := (hl.map fun e => f e.2).sum_le_sum (fun x _ => Nat.zero_le x)
  rw [weight, weight]
  omega

/-- A map all of whose entries are entries of `m` is no larger. -/
theorem size_le_of_subset {m m' : ExtTreeMap κ β cmp}
    (h : ∀ (k : κ) (v : β), m'[k]? = some v → m[k]? = some v) : m'.size ≤ m.size := by
  have hsize : ∀ n : ExtTreeMap κ β cmp, n.size = weight (fun _ => 1) n := by
    intro n
    simp [weight, ← ExtTreeMap.length_toList]
  rw [hsize, hsize]
  exact weight_le_of_subset _ h

/-! ### Maps from entry lists -/

/-- Insert entries one after the other. -/
def ofEntries (cmp : κ → κ → Ordering) [TransCmp cmp] (l : List (κ × β)) : ExtTreeMap κ β cmp :=
  l.foldl (fun m e => m.insert e.1 e.2) ∅

omit [LawfulEqCmp cmp] in
theorem ofEntries_snoc (l : List (κ × β)) (e : κ × β) :
    ofEntries cmp (l ++ [e]) = (ofEntries cmp l).insert e.1 e.2 := by
  rw [ofEntries, List.foldl_append]
  rfl

theorem mem_ofEntries {l : List (κ × β)} {k : κ} :
    k ∈ ofEntries cmp l ↔ k ∈ l.map Prod.fst := by
  induction l using List.reverseRecOn with
  | nil => simp [ofEntries]
  | append_singleton l e ih =>
      rw [ofEntries_snoc, ExtTreeMap.mem_insert, ih, LawfulEqCmp.compare_eq_iff_eq, List.map_append,
        List.mem_append, List.map_singleton, List.mem_singleton, or_comm, eq_comm]

/-- Looking up a key in a map whose entries have different keys. -/
theorem getElem?_ofEntries {l : List (κ × β)} (hl : (l.map Prod.fst).Nodup) {k : κ} {v : β} :
    (ofEntries cmp l)[k]? = some v ↔ (k, v) ∈ l := by
  induction l using List.reverseRecOn with
  | nil => simp [ofEntries]
  | append_singleton l e ih =>
      rw [List.map_append, List.map_singleton, List.nodup_append] at hl
      obtain ⟨hl, -, hne⟩ := hl
      rw [ofEntries_snoc, ExtTreeMap.getElem?_insert, List.mem_append, List.mem_singleton]
      by_cases hk : e.1 = k
      · rw [if_pos (LawfulEqCmp.compare_eq_iff_eq.mpr hk), Option.some.injEq]
        constructor
        · rintro rfl
          rw [← hk]
          exact .inr rfl
        · rintro (hmem | rfl)
          · exact absurd hk.symm (hne k (List.mem_map_of_mem hmem) e.1 (List.mem_singleton_self _))
          · rfl
      · rw [if_neg fun hcmp => hk (LawfulEqCmp.compare_eq_iff_eq.mp hcmp), ih hl]
        constructor
        · exact .inl
        · rintro (hmem | rfl)
          · exact hmem
          · exact absurd rfl hk

theorem size_ofEntries {l : List (κ × β)} (hl : (l.map Prod.fst).Nodup) :
    (ofEntries cmp l).size = l.length := by
  induction l using List.reverseRecOn with
  | nil => rfl
  | append_singleton l e ih =>
      rw [List.map_append, List.map_singleton, List.nodup_append] at hl
      obtain ⟨hl, -, hne⟩ := hl
      have hnone : e.1 ∉ ofEntries cmp l := fun hmem =>
        hne e.1 (mem_ofEntries.mp hmem) e.1 (List.mem_singleton_self _) rfl
      rw [ofEntries_snoc, size_insert_of_none (ExtTreeMap.getElem?_eq_none hnone), ih hl,
        List.length_append]
      rfl
/-! ### Dropping the smallest key -/

/-- Remove the entry with the smallest key, if there is one. -/
def popFirst (m : ExtTreeMap κ β cmp) : ExtTreeMap κ β cmp :=
  match m.keys.head? with
  | some k => m.erase k
  | none => m

/-- Popping a nonempty map erases its least key. -/
theorem popFirst_eq_erase {m : ExtTreeMap κ β cmp} (h : 0 < m.size) :
    ∃ k ∈ m, (∀ j ∈ m, (cmp k j).isLE) ∧ popFirst m = m.erase k := by
  rcases e : m.minKey? with - | k
  · rw [ExtTreeMap.minKey?_eq_none_iff, ExtTreeMap.eq_empty_iff_size_eq_zero] at e
    omega
  · obtain ⟨hk, hle⟩ := ExtTreeMap.minKey?_eq_some_iff_mem_and_forall.mp e
    refine ⟨k, hk, hle, ?_⟩
    rw [ExtTreeMap.minKey?_eq_head?_keys] at e
    simp [popFirst, e]

theorem size_popFirst {m : ExtTreeMap κ β cmp} (h : 0 < m.size) :
    (popFirst m).size = m.size - 1 := by
  obtain ⟨k, hk, -, hpop⟩ := popFirst_eq_erase h
  rw [hpop, ExtTreeMap.size_erase, if_pos (ExtTreeMap.contains_iff_mem.mpr hk)]

/-- Drop smallest keys while more than `limit` entries remain. -/
def dropTo (limit : Nat) : Nat → ExtTreeMap κ β cmp → ExtTreeMap κ β cmp
  | 0, m => m
  | fuel + 1, m => if m.size > limit then dropTo limit fuel (popFirst m) else m

/-- A size-many rounds of dropping reach the limit. -/
theorem size_dropTo (limit : Nat) {fuel : Nat} {m : ExtTreeMap κ β cmp} (h : m.size ≤ fuel) :
    (dropTo limit fuel m).size = min limit m.size := by
  induction fuel generalizing m with
  | zero =>
      have : m.size = 0 := by omega
      simp [dropTo, this]
  | succ fuel ih =>
      by_cases hlim : m.size > limit
      · have hpop : (popFirst m).size = m.size - 1 := size_popFirst (by omega)
        rw [dropTo, if_pos hlim, ih (by omega), hpop]
        omega
      · rw [dropTo, if_neg hlim]
        omega

/-- Dropping only forgets entries. -/
theorem getElem?_dropTo {limit fuel : Nat} {m : ExtTreeMap κ β cmp} {k : κ} {v : β}
    (h : (dropTo limit fuel m)[k]? = some v) : m[k]? = some v := by
  induction fuel generalizing m with
  | zero => exact h
  | succ fuel ih =>
      by_cases hlim : m.size > limit
      · rw [dropTo, if_pos hlim] at h
        have hpop := ih h
        have hpos : 0 < m.size := by omega
        obtain ⟨j, -, -, herase⟩ := popFirst_eq_erase hpos
        rw [herase, ExtTreeMap.getElem?_erase] at hpop
        split at hpop
        · cases hpop
        · exact hpop
      · rwa [dropTo, if_neg hlim] at h

end Basis
