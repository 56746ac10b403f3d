/-
KvCrucible/Basis/Window.lean

Windows: what remains of a growing sequence when only its last `n` elements
are kept, and tree maps that keep such a window of their keys.

For a strictly increasing sequence the last `n` elements are the `n` largest
(`mem_rtake_iff`), and a map whose keys arrive in increasing order and that
drops its smallest keys holds exactly this window (`keys_insert_above`,
`keys_dropTo`).
-/
import KvCrucible.Basis.TreeMap

namespace Basis

open Std

/-! ### The last elements of a list -/

section Last

variable {α : Type*}

theorem length_rtake (n : Nat) (xs : List α) : (xs.rtake n).length = min n xs.length := by
  rw [List.rtake, List.length_drop]
  omega

/-- Elements that a window has dropped do not come back. -/
theorem rtake_append_rtake (n : Nat) (xs ys : List α) :
    (xs.rtake n ++ ys).rtake n = (xs ++ ys).rtake n := by
  simp only [List.rtake_eq_reverse_take_reverse, List.reverse_append, List.reverse_reverse,
    List.take_append, List.take_take]
  congr 3
  omega

/-- The last `n` elements of an increasing list are its `n` largest. -/
theorem mem_rtake_iff [LinearOrder α] {xs : List α} (hsorted : xs.Pairwise (· < ·)) {x : α} :
    ∀ {n : Nat}, x ∈ xs.rtake n ↔ x ∈ xs ∧ xs.countP (fun y => decide (x < y)) < n := by
  induction xs using List.reverseRecOn with
  | nil => simp
  | append_singleton xs last ih =>
      intro n
      obtain ⟨hsorted, -, hlast⟩ := List.pairwise_append.mp hsorted
      have hlast : ∀ y ∈ xs, y < last := fun y hy => hlast y hy last (List.mem_singleton_self _)
      cases n with
      | zero => simp
      | succ n =>
          rw [List.rtake_concat_succ, List.mem_append, ih hsorted, List.mem_append,
            List.countP_append, List.mem_singleton]
          constructor
          · rintro (⟨hmem, hcount⟩ | rfl)
            · refine ⟨.inl hmem, ?_⟩
              simp only [List.countP_singleton, hlast x hmem, decide_true, if_true]
              omega
            · -- nothing lies above the last element
              have hnone : xs.countP (fun y => decide (x < y)) = 0 := by
                simp only [List.countP_eq_zero, decide_eq_true_eq]
                exact fun y hy => (hlast y hy).asymm
              exact ⟨.inr rfl, by simp [hnone]⟩
          · rintro ⟨hmem | rfl, hcount⟩
            · refine .inl ⟨hmem, ?_⟩
              simp only [List.countP_singleton, hlast x hmem, decide_true, if_true] at hcount
              omega
            · exact .inr rfl

end Last

/-! ### Windows of keys -/

variable {κ β : Type*} {cmp : κ → κ → Ordering} [TransCmp cmp] [LawfulEqCmp cmp]

/-- Key lists are determined by membership. -/
theorem keys_eq_of_mem {m : ExtTreeMap κ β cmp} {l : List κ}
    (hl : l.Pairwise fun a b => cmp a b = .lt) (h : ∀ k, k ∈ m ↔ k ∈ l) : m.keys = l := by
  have hnodup : l.Nodup := by
    refine hl.imp ?_
    rintro a b hab rfl
    have hself : cmp a a = .eq := ReflCmp.compare_self
    rw [hself] at hab
    cases hab
  have hperm : m.keys.Perm l := by
    refine (List.perm_ext_iff_of_nodup m.nodup_keys hnodup).mpr fun k => ?_
    rw [ExtTreeMap.mem_keys, h]
  apply hperm.eq_of_pairwise _ m.ordered_keys hl
  intro a b _ _ hab hba
  exact absurd hba (OrientedCmp.not_lt_of_lt hab)

/-- A key above all others becomes the last key. -/
theorem keys_insert_above {m : ExtTreeMap κ β cmp} {k : κ} {v : β}
    (h : ∀ j ∈ m, cmp j k = .lt) : (m.insert k v).keys = m.keys ++ [k] := by
  apply keys_eq_of_mem
  · rw [List.pairwise_append]
    refine ⟨m.ordered_keys, List.pairwise_singleton _ _, fun a ha b hb => ?_⟩
    rw [List.mem_singleton.mp hb]
    exact h a (ExtTreeMap.mem_keys.mp ha)
  · intro j
    rw [ExtTreeMap.mem_insert, List.mem_append, List.mem_singleton, ExtTreeMap.mem_keys,
      LawfulEqCmp.compare_eq_iff_eq, or_comm, eq_comm]

/-- Storing under a key that is there changes no key. -/
theorem keys_insert_of_mem {m : ExtTreeMap κ β cmp} {k : κ} {v : β} (h : k ∈ m) :
    (m.insert k v).keys = m.keys := by
  apply keys_eq_of_mem m.ordered_keys
  intro j
  rw [ExtTreeMap.mem_insert, ExtTreeMap.mem_keys, LawfulEqCmp.compare_eq_iff_eq]
  constructor
  · rintro (rfl | hj)
    · exact h
    · exact hj
  · exact .inr

theorem keys_popFirst (m : ExtTreeMap κ β cmp) : (popFirst m).keys = m.keys.tail := by
  unfold popFirst
  cases hkeys : m.keys with
  | nil => simp [hkeys]
  | cons first rest =>
      simp only [List.head?_cons, List.tail_cons]
      have hordered := m.ordered_keys
      rw [hkeys, List.pairwise_cons] at hordered
      apply keys_eq_of_mem hordered.2
      intro j
      rw [ExtTreeMap.mem_erase, ← ExtTreeMap.mem_keys, hkeys, List.mem_cons]
      constructor
      · rintro ⟨hne, rfl | hj⟩
        · exact absurd ReflCmp.compare_self hne
        · exact hj
      · intro hj
        refine ⟨?_, .inr hj⟩
        rw [hordered.1 j hj]
        nofun

/-- Dropping smallest keys keeps the largest ones. -/
theorem keys_dropTo (limit : Nat) {fuel : Nat} {m : ExtTreeMap κ β cmp} (h : m.size ≤ fuel) :
    (dropTo limit fuel m).keys = m.keys.rtake limit := by
  induction fuel generalizing m with
  | zero =>
      have hempty : m.keys = [] := List.eq_nil_of_length_eq_zero (by
        rw [ExtTreeMap.length_keys]
        omega)
      rw [dropTo, hempty, List.rtake_nil]
  | succ fuel ih =>
      have hlength : m.keys.length = m.size := ExtTreeMap.length_keys
      by_cases hlimit : m.size > limit
      · have hpop : (popFirst m).size = m.size - 1 := size_popFirst (by omega)
        rw [dropTo, if_pos hlimit, ih (by omega), keys_popFirst, List.rtake, List.rtake,
          List.length_tail, ← List.drop_one, List.drop_drop]
        congr 1
        omega
      · rw [dropTo, if_neg hlimit, List.rtake, Nat.sub_eq_zero_of_le (by omega), List.drop_zero]

end Basis
