/-
KvCrucible/CacheStages.lean

Folding in stages: a transaction that goes on and a fresh transaction over
the view that the first one would commit.

`Continues` relates the two: they project the same keys with the same
counters, and the first one has counted some more missing removes.  Every
operation then either fails on both sides with the same error or keeps the
relation (`apply_agree`), as long as the missing removes can be counted, and
both commit the same view (`Continues.commit_eq`).

The last section bounds how an operation can fail at all.
-/
import KvCrucible.CacheFold

namespace KvCrucible

open Basis

/-! ### What a mutation list asks for -/

/-- The keys a mutation stores, hash by hash. -/
def Mutation.storedKeys : Mutation → List CacheKey
  | .storeRun run => run.hashes.map fun hash => ⟨run.group, run.medium, hash⟩
  | _ => []

/-- The keys a mutation removes, hash by hash. -/
def Mutation.removedKeys : Mutation → List CacheKey
  | .remove hashes group medium _ => hashes.map fun hash => ⟨group, medium, hash⟩
  | _ => []

/-- How many hashes a mutation list removes. -/
def removedHashes (mutations : List Mutation) : Nat :=
  (mutations.map fun mutation => mutation.removedKeys.length).sum

/-- The keys a mutation list stores. -/
def storedKeys (mutations : List Mutation) : Finset CacheKey :=
  (mutations.flatMap Mutation.storedKeys).toFinset

namespace CacheTransaction

variable {limits : Limits} {t t' u u' : CacheTransaction} {key : CacheKey}
  {base base' : CacheView} {offset budget : Nat} {mutations : List Mutation}

/-! ### Two transactions over different bases -/

/-- `t` over `base` and `u` over `base'` project the same keys; `t` has
counted `offset` missing removes more, and both can count `budget` more. -/
structure Continues (base base' : CacheView) (offset : Nat) (budget : Nat)
    (t u : CacheTransaction) : Prop where
  wf : t.WellFormed
  wf' : u.WellFormed
  base_eq : t.base = base
  base_eq' : u.base = base'
  projected : t.projected = u.projected
  keyCount : t.keyCount = u.keyCount
  identityBytes : t.identityBytes = u.identityBytes
  missingRemoves : t.missingRemoves = offset + u.missingRemoves
  room : offset + u.missingRemoves + budget < 2 ^ 64

/-- Both sides look a key up alike. -/
theorem Continues.contains (h : Continues base base' offset budget t u) (key : CacheKey) :
    t.contains key = u.contains key := by
  rw [Bool.eq_iff_iff, contains_iff, contains_iff, h.projected]

/-- A fresh transaction over the committed view continues the old one. -/
theorem Continues.of_projects {keys : Finset CacheKey} (ht : Projects limits base t keys)
    (hroom : t.missingRemoves + budget < 2 ^ 64) :
    Continues base (t.finish.commit base) t.missingRemoves budget t
      (new (t.finish.commit base)) := by
  obtain ⟨hkeys, hbounded⟩ := commit_ok ht
  obtain ⟨hover, rfl, rfl⟩ := ht
  obtain ⟨hnew, hproj, -⟩ := projects_new hbounded
  exact
    { wf := hover.toWellFormed
      wf' := hnew.toWellFormed
      base_eq := rfl
      base_eq' := rfl
      projected := (hproj.trans hkeys).symm
      keyCount := by rw [hover.keyCount, hnew.keyCount, hproj, hkeys]
      identityBytes := rfl
      missingRemoves := rfl
      room := hroom }

/-- Both sides commit the same view. -/
theorem Continues.commit_eq (h : Continues base base' offset budget t u)
    (hscope : base'.scope = base.scope) : t.finish.commit base = u.finish.commit base' := by
  have hkeys : (t.finish.commit t.base).keys = (u.finish.commit u.base).keys := h.projected
  rw [← h.base_eq, ← h.base_eq'] at hscope ⊢
  exact CacheView.ext hscope.symm hkeys h.identityBytes

/-! ### Every operation agrees -/

@[simp] theorem insertKey_missingRemoves (t : CacheTransaction) (key : CacheKey) :
    (t.insertKey key).missingRemoves = t.missingRemoves := by
  unfold insertKey
  split <;> rfl

@[simp] theorem eraseKey_missingRemoves (t : CacheTransaction) (key : CacheKey) :
    (t.eraseKey key).missingRemoves = t.missingRemoves := by
  unfold eraseKey
  split <;> rfl

/-- `store` agrees, and takes nothing from the budget. -/
theorem store_agree (h : Continues base base' offset budget t u) :
    Agree (Continues base base' offset budget) (t.store key limits) (u.store key limits) := by
  unfold store
  rw [h.contains key, h.keyCount, h.identityBytes]
  cases hmem : u.contains key with
  | true => exact .ok h
  | false =>
      have hnew : key ∉ u.projected := by
        rw [← contains_iff, hmem]
        exact Bool.false_ne_true
      obtain ⟨hwf, hproj, hbase⟩ := insertKey_ok h.wf (h.projected ▸ hnew)
      obtain ⟨hwf', hproj', hbase'⟩ := insertKey_ok h.wf' hnew
      simp only [Bool.false_eq_true, if_false]
      apply Agree.bind (Agree.refl _)
      rintro keyBytes _ rfl
      apply Agree.bind (Agree.refl _)
      rintro observedKeys _ rfl
      apply Agree.bind (Agree.refl _)
      intro _ _ _
      apply Agree.bind (Agree.refl _)
      rintro observedBytes _ rfl
      apply Agree.bind (Agree.refl _)
      intro _ _ _
      refine .ok
        { wf := ⟨hwf.added_new, hwf.removed_sub⟩
          wf' := ⟨hwf'.added_new, hwf'.removed_sub⟩
          base_eq := hbase.trans h.base_eq
          base_eq' := hbase'.trans h.base_eq'
          projected := ?_
          keyCount := rfl
          identityBytes := rfl
          missingRemoves := ?_
          room := ?_ }
      · show (t.insertKey key).projected = (u.insertKey key).projected
        rw [hproj, hproj', h.projected]
      · simpa using h.missingRemoves
      · simpa using h.room

/-- `remove` agrees, and may take one from the budget. -/
theorem remove_agree (h : Continues base base' offset (1 + budget) t u) :
    Agree (Continues base base' offset budget) (t.remove key) (u.remove key) := by
  have hroom := h.room
  unfold remove
  rw [h.contains key, h.keyCount, h.identityBytes]
  cases hmem : u.contains key with
  | false =>
      have hcount : addOrOverflow t.missingRemoves 1 = .ok (t.missingRemoves + 1) :=
        addOrOverflow_eq_ok.mpr ⟨rfl, by rw [h.missingRemoves]; omega⟩
      have hcount' : addOrOverflow u.missingRemoves 1 = .ok (u.missingRemoves + 1) :=
        addOrOverflow_eq_ok.mpr ⟨rfl, by omega⟩
      simp only [Bool.not_false, if_true, hcount, hcount']
      refine .ok
        { h with
          wf := ⟨h.wf.added_new, h.wf.removed_sub⟩
          wf' := ⟨h.wf'.added_new, h.wf'.removed_sub⟩
          keyCount := rfl
          identityBytes := rfl
          missingRemoves := ?_
          room := ?_ }
      · show t.missingRemoves + 1 = offset + (u.missingRemoves + 1)
        rw [h.missingRemoves, Nat.add_assoc]
      · show offset + (u.missingRemoves + 1) + budget < 2 ^ 64
        omega
  | true =>
      have hin : key ∈ u.projected := contains_iff.mp hmem
      obtain ⟨hwf, hproj, hbase⟩ := eraseKey_ok h.wf (h.projected ▸ hin)
      obtain ⟨hwf', hproj', hbase'⟩ := eraseKey_ok h.wf' hin
      simp only [Bool.not_true, Bool.false_eq_true, if_false]
      apply Agree.bind (Agree.refl _)
      rintro keyBytes _ rfl
      apply Agree.bind (Agree.refl _)
      rintro keyCount _ rfl
      apply Agree.bind (Agree.refl _)
      rintro identityBytes _ rfl
      refine .ok
        { wf := ⟨hwf.added_new, hwf.removed_sub⟩
          wf' := ⟨hwf'.added_new, hwf'.removed_sub⟩
          base_eq := hbase.trans h.base_eq
          base_eq' := hbase'.trans h.base_eq'
          projected := ?_
          keyCount := rfl
          identityBytes := rfl
          missingRemoves := ?_
          room := ?_ }
      · show (t.eraseKey key).projected = (u.eraseKey key).projected
        rw [hproj, hproj', h.projected]
      · simpa using h.missingRemoves
      · simp only [eraseKey_missingRemoves]
        omega

/-- A clear starts over on both sides. -/
theorem clear_agree (h : Continues base base' offset budget t u) :
    Continues base base' offset budget t.clear u.clear := by
  obtain ⟨hover, hproj, hbase⟩ := @clear_ok Limits.default t
  obtain ⟨hover', hproj', hbase'⟩ := @clear_ok Limits.default u
  exact
    { wf := hover.toWellFormed
      wf' := hover'.toWellFormed
      base_eq := hbase.trans h.base_eq
      base_eq' := hbase'.trans h.base_eq'
      projected := hproj.trans hproj'.symm
      keyCount := rfl
      identityBytes := rfl
      missingRemoves := h.missingRemoves
      room := h.room }

/-- A mutation agrees when its removes fit the budget. -/
theorem applyMutation_agree {mutation : Mutation}
    (h : Continues base base' offset (mutation.removedKeys.length + budget) t u) :
    Agree (Continues base base' offset budget) (t.applyMutation limits mutation)
      (u.applyMutation limits mutation) := by
  cases mutation with
  | storeRun run =>
      have hstep : ∀ hash ∈ run.hashes, ∀ {budget : Nat} {t u : CacheTransaction},
          Continues base base' offset (0 + budget) t u →
          Agree (Continues base base' offset budget) (t.store ⟨run.group, run.medium, hash⟩ limits)
            (u.store ⟨run.group, run.medium, hash⟩ limits) := by
        intro hash _ budget t u h
        rw [Nat.zero_add] at h
        exact store_agree h
      apply Agree.foldlM_budget hstep
      simpa [Mutation.removedKeys] using h
  | remove hashes group medium metadata =>
      have hstep : ∀ hash ∈ hashes, ∀ {budget : Nat} {t u : CacheTransaction},
          Continues base base' offset (1 + budget) t u →
          Agree (Continues base base' offset budget) (t.remove ⟨group, medium, hash⟩)
            (u.remove ⟨group, medium, hash⟩) :=
        fun hash _ _ _ _ h => remove_agree h
      apply Agree.foldlM_budget hstep
      simpa [Mutation.removedKeys] using h
  | clear metadata =>
      have h' : Continues base base' offset budget t u := by
        simpa [Mutation.removedKeys] using h
      exact .ok (clear_agree h')

/-- A mutation list agrees when its removes fit the budget. -/
theorem apply_agree (h : Continues base base' offset (removedHashes mutations + budget) t u) :
    Agree (Continues base base' offset budget) (t.apply mutations limits)
      (u.apply mutations limits) := by
  have hstep : ∀ mutation ∈ mutations, ∀ {budget : Nat} {t u : CacheTransaction},
      Continues base base' offset (mutation.removedKeys.length + budget) t u →
      Agree (Continues base base' offset budget) (t.applyMutation limits mutation)
        (u.applyMutation limits mutation) :=
    fun mutation _ _ _ _ h => applyMutation_agree h
  exact Agree.foldlM_budget hstep h

/-- What a mutation list leaves of the budget for missing removes. -/
theorem apply_room (ht : t.WellFormed)
    (hroom : t.missingRemoves + (removedHashes mutations + budget) < 2 ^ 64)
    (h : t.apply mutations limits = .ok t') : t'.missingRemoves + budget < 2 ^ 64 := by
  have hself : Continues t.base t.base 0 (removedHashes mutations + budget) t t :=
    { wf := ht, wf' := ht, base_eq := rfl, base_eq' := rfl, projected := rfl, keyCount := rfl,
      identityBytes := rfl, missingRemoves := (Nat.zero_add _).symm
      room := by rwa [Nat.zero_add] }
  have hagree := @apply_agree limits t t t.base t.base 0 budget mutations hself
  rw [h] at hagree
  cases hagree with
  | ok hafter =>
      have := hafter.room
      rwa [Nat.zero_add] at this

end CacheTransaction

theorem removedHashes_append (xs ys : List Mutation) :
    removedHashes (xs ++ ys) = removedHashes xs + removedHashes ys := by
  simp [removedHashes]

theorem removedHashes_flatMap {σ : Type*} (xs : List σ) (f : σ → List Mutation) :
    removedHashes (xs.flatMap f) = (xs.map fun x => removedHashes (f x)).sum := by
  induction xs with
  | nil => rfl
  | cons x xs ih => rw [List.flatMap_cons, removedHashes_append, ih, List.map_cons, List.sum_cons]

/-- A part of a mutation list removes no more than the list. -/
theorem removedHashes_drop (mutations : List Mutation) (start : Nat) :
    removedHashes (mutations.drop start) ≤ removedHashes mutations := by
  have h := removedHashes_append (mutations.take start) (mutations.drop start)
  rw [List.take_append_drop] at h
  omega

theorem mem_storedKeys {mutations : List Mutation} {key : CacheKey} :
    key ∈ storedKeys mutations ↔ ∃ mutation ∈ mutations, key ∈ mutation.storedKeys := by
  rw [storedKeys, List.mem_toFinset, List.mem_flatMap]

/-- Whatever a cache within its ceilings holds of a set of keys, one more of
them can still be counted, and its bytes too. -/
def CountersHold (limits : Limits) (keys : Finset CacheKey) : Prop :=
  ∀ held ⊆ keys, held.card ≤ limits.maxCacheKeysPerStream.toNat →
    keyBytes held ≤ limits.maxCacheIdentityBytesPerStream.toNat →
    ∀ key ∈ keys, key ∉ held → held.card + 1 < 2 ^ 64 ∧ keyBytes held + key.size < 2 ^ 64

theorem keyBytes_mono {keys keys' : Finset CacheKey} (h : keys ⊆ keys') :
    keyBytes keys ≤ keyBytes keys' :=
  Finset.sum_le_sum_of_subset h

/-- Counters that can hold all keys hold any of them. -/
theorem countersHold_of_lt {limits : Limits} {keys : Finset CacheKey} (hcard : keys.card < 2 ^ 64)
    (hbytes : keyBytes keys < 2 ^ 64) : CountersHold limits keys := by
  intro held hheld _ _ key hkey hnew
  have hsub : insert key held ⊆ keys := Finset.insert_subset hkey hheld
  have hcard' := Finset.card_le_card hsub
  have hbytes' := keyBytes_mono hsub
  rw [Finset.card_insert_of_notMem hnew] at hcard'
  rw [keyBytes_insert hnew] at hbytes'
  exact ⟨hcard'.trans_lt hcard, hbytes'.trans_lt hbytes⟩

/-- The counters can hold the keys of a set, which has all that a mutation
list stores, and count the missing removes of the list. -/
structure FitsCounters (limits : Limits) (keys : Finset CacheKey) (mutations : List Mutation) :
    Prop where
  stored : storedKeys mutations ⊆ keys
  holds : CountersHold limits keys
  removes_lt : removedHashes mutations < 2 ^ 64

theorem storedKeys_append (xs ys : List Mutation) :
    storedKeys (xs ++ ys) = storedKeys xs ∪ storedKeys ys := by
  ext key
  simp [storedKeys]

/-- A part of a mutation list stores no other keys. -/
theorem storedKeys_drop (mutations : List Mutation) (start : Nat) :
    storedKeys (mutations.drop start) ⊆ storedKeys mutations := by
  intro key hkey
  obtain ⟨mutation, hmutation, hkey⟩ := mem_storedKeys.mp hkey
  exact mem_storedKeys.mpr ⟨mutation, List.mem_of_mem_drop hmutation, hkey⟩

/-! ### How an operation fails -/

/-- The identity bytes of a key that fits a counter can be computed. -/
theorem CacheKey.identityBytes_eq {key : CacheKey} (h : key.size < 2 ^ 64) :
    key.identityBytes = .ok key.size := by
  have hsize : key.size =
      key.group.identityBytes + key.medium.identityBytes + key.hash.identityBytes := rfl
  apply bind_ok (usizeToU64_eq_ok.mpr ⟨rfl, by omega⟩)
  apply bind_ok (usizeToU64_eq_ok.mpr ⟨rfl, by omega⟩)
  apply bind_ok (addOrOverflow_eq_ok.mpr ⟨rfl, by omega⟩)
  exact addOrOverflow_eq_ok.mpr ⟨rfl, by omega⟩

namespace CacheTransaction

/-- The ceilings a cache projection can run into. -/
inductive CacheExhausted (limits : Limits) : StateError → Prop
  | keys (observed : Nat) : CacheExhausted limits
      (.resourceLimit .cacheKeys limits.maxCacheKeysPerStream.toNat observed)
  | identityBytes (observed : Nat) : CacheExhausted limits
      (.resourceLimit .cacheIdentityBytes limits.maxCacheIdentityBytesPerStream.toNat observed)

/-- A sound overlay over keys of a set that the counters can hold, with room
for so many more missing removes. -/
structure Roomy (limits : Limits) (keys : Finset CacheKey) (removes : Nat)
    (t : CacheTransaction) : Prop where
  overlay : t.Overlay limits
  within : t.projected ⊆ keys
  holds : CountersHold limits keys
  removes_lt : t.missingRemoves + removes < 2 ^ 64

variable {limits : Limits} {t t' : CacheTransaction} {key : CacheKey} {keys : Finset CacheKey}
  {removes : Nat} {error : StateError} {mutations : List Mutation}

theorem Roomy.mono {removes' : Nat} (ht : t.Roomy limits keys removes) (h : removes' ≤ removes) :
    t.Roomy limits keys removes' := by
  have hroom := ht.removes_lt
  exact ⟨ht.overlay, ht.within, ht.holds, by omega⟩

/-- A fresh transaction has room for what fits. -/
theorem roomy_new {view : CacheView} (hview : view.Bounded limits) (hkeys : view.keys ⊆ keys)
    (hfits : FitsCounters limits keys mutations) :
    (new view).Roomy limits keys (removedHashes mutations) := by
  obtain ⟨hover, hproj, -⟩ := projects_new hview
  refine ⟨hover, hproj ▸ hkeys, hfits.holds, ?_⟩
  show 0 + removedHashes mutations < 2 ^ 64
  have hlt := hfits.removes_lt
  omega

/-- A key of the set is no larger than the whole set. -/
theorem size_le_keyBytes (h : key ∈ keys) : key.size ≤ keyBytes keys := by
  have := keyBytes_erase h
  omega

/-- A projected key fits a counter. -/
theorem Roomy.size_lt (ht : t.Roomy limits keys removes) (hkey : key ∈ t.projected) :
    key.size < 2 ^ 64 := by
  have hmax := limits.maxCacheIdentityBytesPerStream.toNat_lt
  have hle := ht.overlay.bytes_le
  rw [ht.overlay.identityBytes] at hle
  exact Nat.lt_of_le_of_lt ((size_le_keyBytes hkey).trans hle) hmax

/-- What a store of a new key counts still fits the counters. -/
theorem Roomy.store_fits (ht : t.Roomy limits keys removes) (hkey : key ∈ keys)
    (hnew : key ∉ t.projected) :
    t.keyCount + 1 < 2 ^ 64 ∧ t.identityBytes + key.size < 2 ^ 64 := by
  have hcard := ht.overlay.keys_le
  have hbytes := ht.overlay.bytes_le
  rw [ht.overlay.keyCount] at hcard ⊢
  rw [ht.overlay.identityBytes] at hbytes ⊢
  exact ht.holds t.projected ht.within hcard hbytes key hkey hnew

/-- Stores leave the missing removes alone. -/
theorem store_missingRemoves (h : t.store key limits = .ok t') :
    t'.missingRemoves = t.missingRemoves := by
  unfold store at h
  cases hmem : t.contains key with
  | true =>
      rw [hmem, if_pos rfl] at h
      obtain rfl := Except.ok.inj h
      rfl
  | false =>
      rw [hmem, if_neg Bool.false_ne_true] at h
      obtain ⟨_, -, h⟩ := bind_eq_ok.mp h
      obtain ⟨_, -, h⟩ := bind_eq_ok.mp h
      obtain ⟨_, -, h⟩ := bind_eq_ok.mp h
      obtain ⟨_, -, h⟩ := bind_eq_ok.mp h
      obtain ⟨_, -, h⟩ := bind_eq_ok.mp h
      obtain rfl := pure_eq_ok.mp h
      exact insertKey_missingRemoves t key

theorem store_roomy (ht : t.Roomy limits keys removes) (hkey : key ∈ keys)
    (h : t.store key limits = .ok t') : t'.Roomy limits keys removes := by
  obtain ⟨hover, hproj, -⟩ := store_ok ht.overlay h
  have hwithin : t'.projected ⊆ keys := by
    rw [hproj]
    exact Finset.insert_subset hkey ht.within
  exact ⟨hover, hwithin, ht.holds, store_missingRemoves h ▸ ht.removes_lt⟩

/-- With room in the counters a store only fails at a ceiling. -/
theorem store_error (ht : t.Roomy limits keys removes) (hkey : key ∈ keys)
    (h : t.store key limits = .error error) : CacheExhausted limits error := by
  unfold store at h
  cases hmem : t.contains key with
  | true =>
      rw [hmem, if_pos rfl] at h
      cases h
  | false =>
      have hnew : key ∉ t.projected := by
        rw [← contains_iff, hmem]
        exact Bool.false_ne_true
      obtain ⟨hcount, htotal⟩ := ht.store_fits hkey hnew
      have hbytes : key.identityBytes = .ok key.size :=
        CacheKey.identityBytes_eq (Nat.lt_of_le_of_lt (Nat.le_add_left _ _) htotal)
      have hcount' : addOrOverflow t.keyCount 1 = .ok (t.keyCount + 1) :=
        addOrOverflow_eq_ok.mpr ⟨rfl, hcount⟩
      have htotal' : addOrOverflow t.identityBytes key.size = .ok (t.identityBytes + key.size) :=
        addOrOverflow_eq_ok.mpr ⟨rfl, htotal⟩
      rw [hmem, if_neg Bool.false_ne_true, hbytes] at h
      simp only [Bind.bind, Except.bind, hcount', htotal', rejectIf] at h
      by_cases hmax : t.keyCount + 1 > limits.maxCacheKeysPerStream.toNat
      · rw [if_pos hmax] at h
        obtain rfl := Except.error.inj h
        exact .keys _
      · rw [if_neg hmax] at h
        by_cases hmax' : t.identityBytes + key.size > limits.maxCacheIdentityBytesPerStream.toNat
        · simp only [if_pos hmax'] at h
          obtain rfl := Except.error.inj h
          exact .identityBytes _
        · simp only [if_neg hmax'] at h
          cases h

/-- A remove takes at most one from the room for missing removes. -/
theorem remove_roomy (ht : t.Roomy limits keys (1 + removes)) (h : t.remove key = .ok t') :
    t'.Roomy limits keys removes := by
  have hroom := ht.removes_lt
  obtain ⟨hover, hproj, -⟩ := remove_ok ht.overlay h
  have hwithin : t'.projected ⊆ keys := by
    rw [hproj]
    exact (Finset.erase_subset _ _).trans ht.within
  have hmissing : t'.missingRemoves ≤ t.missingRemoves + 1 := by
    unfold remove at h
    cases hmem : t.contains key with
    | false =>
        rw [hmem, if_pos (by decide)] at h
        obtain ⟨missing, hmissing, h⟩ := bind_eq_ok.mp h
        obtain ⟨rfl, -⟩ := addOrOverflow_eq_ok.mp hmissing
        obtain rfl := pure_eq_ok.mp h
        exact Nat.le_refl _
    | true =>
        rw [hmem, if_neg (by decide)] at h
        obtain ⟨_, -, h⟩ := bind_eq_ok.mp h
        obtain ⟨_, -, h⟩ := bind_eq_ok.mp h
        obtain ⟨_, -, h⟩ := bind_eq_ok.mp h
        obtain rfl := pure_eq_ok.mp h
        show (t.eraseKey key).missingRemoves ≤ _
        rw [eraseKey_missingRemoves]
        exact Nat.le_succ _
  exact ⟨hover, hwithin, ht.holds, by omega⟩

/-- With room in the counters a remove does not fail: what is projected was
counted. -/
theorem remove_total (ht : t.Roomy limits keys (1 + removes)) :
    ∃ t', t.remove key = .ok t' := by
  have hroom := ht.removes_lt
  unfold remove
  cases hmem : t.contains key with
  | false =>
      rw [if_pos (by decide)]
      exact ⟨_, bind_ok (addOrOverflow_eq_ok.mpr ⟨rfl, by omega⟩) rfl⟩
  | true =>
      have hin : key ∈ t.projected := contains_iff.mp hmem
      have hcard : 1 ≤ t.keyCount := by
        rw [ht.overlay.keyCount]
        exact Finset.card_pos.mpr ⟨key, hin⟩
      have hsize : key.size ≤ t.identityBytes := by
        rw [ht.overlay.identityBytes]
        exact size_le_keyBytes hin
      rw [if_neg (by decide)]
      exact ⟨_, bind_ok (CacheKey.identityBytes_eq (ht.size_lt hin))
        (bind_ok (subOrOverflow_eq_ok.mpr ⟨hcard, rfl⟩)
          (bind_ok (subOrOverflow_eq_ok.mpr ⟨hsize, rfl⟩) rfl))⟩

theorem applyMutation_roomy {mutation : Mutation} (hkeys : ∀ key ∈ mutation.storedKeys, key ∈ keys)
    (ht : t.Roomy limits keys (mutation.removedKeys.length + removes))
    (h : t.applyMutation limits mutation = .ok t') : t'.Roomy limits keys removes := by
  cases mutation with
  | storeRun run =>
      have ht' : t.Roomy limits keys removes := by
        simpa [Mutation.removedKeys] using ht
      have hstep : ∀ hash ∈ run.hashes, ∀ {u u' : CacheTransaction},
          u.Roomy limits keys removes → u.store ⟨run.group, run.medium, hash⟩ limits = .ok u' →
          u'.Roomy limits keys removes :=
        fun hash hhash _ _ hu hs => store_roomy hu (hkeys _ (List.mem_map_of_mem hhash)) hs
      exact foldlM_invariant hstep ht' h
  | remove hashes group medium metadata =>
      have ht' : t.Roomy limits keys ((hashes.map fun _ => 1).sum + removes) := by
        simpa [Mutation.removedKeys] using ht
      exact foldlM_ok_budget (fun _ _ _ _ _ => remove_roomy) ht' h
  | clear metadata =>
      obtain rfl := Except.ok.inj h
      have ht' : t.Roomy limits keys removes := by
        simpa [Mutation.removedKeys] using ht
      obtain ⟨hover, hproj, -⟩ := @clear_ok limits t
      exact ⟨hover, hproj ▸ Finset.empty_subset _, ht.holds, ht'.removes_lt⟩

theorem applyMutation_error {mutation : Mutation}
    (hkeys : ∀ key ∈ mutation.storedKeys, key ∈ keys)
    (ht : t.Roomy limits keys (mutation.removedKeys.length + removes))
    (h : t.applyMutation limits mutation = .error error) : CacheExhausted limits error := by
  cases mutation with
  | storeRun run =>
      have ht' : t.Roomy limits keys ((run.hashes.map fun _ => 0).sum + removes) := by
        simpa [Mutation.removedKeys] using ht
      refine foldlM_error_budget (fun hash hhash budget u u' hu hs => ?_)
        (fun hash hhash budget u e hu hs => ?_) ht' h
      · rw [Nat.zero_add] at hu
        exact store_roomy hu (hkeys _ (List.mem_map_of_mem hhash)) hs
      · rw [Nat.zero_add] at hu
        exact store_error hu (hkeys _ (List.mem_map_of_mem hhash)) hs
  | remove hashes group medium metadata =>
      have ht' : t.Roomy limits keys ((hashes.map fun _ => 1).sum + removes) := by
        simpa [Mutation.removedKeys] using ht
      refine foldlM_error_budget (fun _ _ _ _ _ => remove_roomy) (fun _ _ budget u e hu hs => ?_)
        ht' h
      obtain ⟨u', hu'⟩ := @remove_total limits u _ keys budget hu
      rw [hu'] at hs
      cases hs
  | clear metadata => cases h

/-- What a mutation list leaves of the room. -/
theorem apply_roomy (hkeys : storedKeys mutations ⊆ keys)
    (ht : t.Roomy limits keys (removedHashes mutations + removes))
    (h : t.apply mutations limits = .ok t') : t'.Roomy limits keys removes := by
  refine foldlM_ok_budget (fun mutation hmutation budget u u' hu hs => ?_) ht h
  exact applyMutation_roomy (fun key hkey => hkeys (mem_storedKeys.mpr ⟨mutation, hmutation, hkey⟩))
    hu hs

/-- With room in the counters a mutation list only fails at a ceiling. -/
theorem apply_error (hkeys : storedKeys mutations ⊆ keys)
    (ht : t.Roomy limits keys (removedHashes mutations + removes))
    (h : t.apply mutations limits = .error error) : CacheExhausted limits error := by
  have hstored : ∀ mutation ∈ mutations, ∀ key ∈ mutation.storedKeys, key ∈ keys :=
    fun mutation hmutation key hkey => hkeys (mem_storedKeys.mpr ⟨mutation, hmutation, hkey⟩)
  refine foldlM_error_budget (fun mutation hmutation budget u u' hu hs => ?_)
    (fun mutation hmutation budget u e hu hs => ?_) ht h
  · exact applyMutation_roomy (hstored mutation hmutation) hu hs
  · exact applyMutation_error (hstored mutation hmutation) hu hs

end CacheTransaction

end KvCrucible
