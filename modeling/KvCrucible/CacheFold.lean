/-
KvCrucible/CacheFold.lean

A cache transaction refines direct mutation of a key set.

The keys a transaction projects are read off its overlay (`projected`).
`Overlay` says the overlay is well formed (additions are new, removals were
present), that the incremental counters are the cardinality and the exact
byte sum of the projected keys, and that both are within their ceilings.
Each operation keeps `Overlay` and acts on the projection as the plain set
operation; `commit_keys` carries the result to the committed view.
-/
import KvCrucible.Basis.Except
import KvCrucible.Cache

namespace KvCrucible

open Basis

/-- The exact identity bytes of a set of keys. -/
def keyBytes (keys : Finset CacheKey) : Nat := ∑ key ∈ keys, key.size

theorem keyBytes_insert {key : CacheKey} {keys : Finset CacheKey} (h : key ∉ keys) :
    keyBytes (insert key keys) = keyBytes keys + key.size := by
  rw [keyBytes, Finset.sum_insert h, Nat.add_comm]
  rfl

theorem keyBytes_erase {key : CacheKey} {keys : Finset CacheKey} (h : key ∈ keys) :
    keyBytes (keys.erase key) + key.size = keyBytes keys :=
  Finset.sum_erase_add keys CacheKey.size h

theorem CacheKey.size_of_identityBytes {key : CacheKey} {n : Nat}
    (h : key.identityBytes = .ok n) : n = key.size := by
  obtain ⟨medium, hmedium, h⟩ := bind_eq_ok.mp h
  obtain ⟨hash, hhash, h⟩ := bind_eq_ok.mp h
  obtain ⟨total, htotal, h⟩ := bind_eq_ok.mp h
  obtain ⟨rfl, -⟩ := usizeToU64_eq_ok.mp hmedium
  obtain ⟨rfl, -⟩ := usizeToU64_eq_ok.mp hhash
  obtain ⟨rfl, -⟩ := addOrOverflow_eq_ok.mp htotal
  obtain ⟨rfl, -⟩ := addOrOverflow_eq_ok.mp h
  rfl

/-! ### Views within their ceilings -/

/-- A view whose byte count is exact and which respects both ceilings. -/
structure CacheView.Bounded (limits : Limits) (view : CacheView) : Prop where
  identityBytes : view.identityBytes = keyBytes view.keys
  keys_le : view.keys.card ≤ limits.maxCacheKeysPerStream.toNat
  bytes_le : view.identityBytes ≤ limits.maxCacheIdentityBytesPerStream.toNat

theorem CacheView.bounded_empty (limits : Limits) (scope : CacheScope) :
    (CacheView.empty scope).Bounded limits where
  identityBytes := rfl
  keys_le := Nat.zero_le _
  bytes_le := Nat.zero_le _

namespace CacheTransaction

/-- The keys the view would hold if the transaction were committed. -/
def projected (t : CacheTransaction) : Finset CacheKey :=
  (if t.cleared then ∅ else t.base.keys \ t.removed) ∪ t.added

/-- Additions are new and removals were present. -/
structure WellFormed (t : CacheTransaction) : Prop where
  added_new : t.cleared = false → ∀ key ∈ t.added, key ∉ t.base.keys
  removed_sub : t.removed ⊆ t.base.keys

/-- A well-formed overlay with exact, bounded counters. -/
structure Overlay (limits : Limits) (t : CacheTransaction) : Prop extends WellFormed t where
  keyCount : t.keyCount = t.projected.card
  identityBytes : t.identityBytes = keyBytes t.projected
  keys_le : t.keyCount ≤ limits.maxCacheKeysPerStream.toNat
  bytes_le : t.identityBytes ≤ limits.maxCacheIdentityBytesPerStream.toNat

variable {limits : Limits} {t t' : CacheTransaction} {key : CacheKey}

theorem contains_iff : t.contains key = true ↔ key ∈ t.projected := by
  unfold contains projected
  rcases t.cleared with - | -
  · simp [or_comm]
  · simp

/-! ### One key at a time -/

theorem insertKey_ok (ht : t.WellFormed) (hnew : key ∉ t.projected) :
    (t.insertKey key).WellFormed ∧ (t.insertKey key).projected = insert key t.projected ∧
      (t.insertKey key).base = t.base := by
  unfold insertKey
  by_cases h : (!t.cleared && decide (key ∈ t.base.keys)) = true
  · rw [if_pos h]
    simp only [Bool.and_eq_true, Bool.not_eq_true', decide_eq_true_eq] at h
    obtain ⟨hcleared, hbase⟩ := h
    refine ⟨⟨ht.added_new, (Finset.erase_subset _ _).trans ht.removed_sub⟩, ?_, rfl⟩
    ext k
    by_cases hk : k = key
    · subst hk
      simp [projected, hcleared, hbase]
    · simp [projected, hcleared, hk]
  · rw [if_neg h]
    simp only [Bool.and_eq_true, Bool.not_eq_true', decide_eq_true_eq, not_and] at h
    refine ⟨⟨?_, ht.removed_sub⟩, ?_, rfl⟩
    · intro hcleared k hk
      rcases Finset.mem_insert.mp hk with rfl | hk
      · exact h hcleared
      · exact ht.added_new hcleared k hk
    · simp [projected, Finset.union_insert]

theorem eraseKey_ok (ht : t.WellFormed) (hin : key ∈ t.projected) :
    (t.eraseKey key).WellFormed ∧ (t.eraseKey key).projected = t.projected.erase key ∧
      (t.eraseKey key).base = t.base := by
  unfold eraseKey
  by_cases hadd : key ∈ t.added
  · rw [if_pos hadd]
    refine ⟨⟨?_, ht.removed_sub⟩, ?_, rfl⟩
    · intro hcleared k hk
      exact ht.added_new hcleared k (Finset.mem_of_mem_erase hk)
    · ext k
      by_cases hk : k = key
      · subst hk
        rcases hc : t.cleared with - | -
        · have := ht.added_new hc k hadd
          simp [projected, hc, this]
        · simp [projected, hc]
      · simp [projected, hk]
  · rw [if_neg hadd]
    -- the key is projected but not added, so it is an unremoved base key
    have hbase : t.cleared = false ∧ key ∈ t.base.keys := by
      rcases hc : t.cleared with - | -
      · simp only [projected, hc, Bool.false_eq_true, if_false, Finset.mem_union, hadd,
          or_false] at hin
        exact ⟨rfl, (Finset.mem_sdiff.mp hin).1⟩
      · simp [projected, hc, hadd] at hin
    refine ⟨⟨ht.added_new, Finset.insert_subset hbase.2 ht.removed_sub⟩, ?_, rfl⟩
    ext k
    by_cases hk : k = key
    · subst hk
      simp [projected, hbase.1, hadd]
    · simp [projected, hbase.1, hk]

/-- `store` inserts its key. -/
theorem store_ok (ht : t.Overlay limits) (h : t.store key limits = .ok t') :
    t'.Overlay limits ∧ t'.projected = insert key t.projected ∧ t'.base = t.base := by
  by_cases hmem : t.contains key = true
  · have : t = t' := by
      rw [store, if_pos hmem] at h
      exact Except.ok.inj h
    subst this
    exact ⟨ht, (Finset.insert_eq_self.mpr (contains_iff.mp hmem)).symm, rfl⟩
  · have hnew : key ∉ t.projected := fun hk => hmem (contains_iff.mpr hk)
    rw [store, if_neg hmem] at h
    obtain ⟨bytes, hbytes, h⟩ := bind_eq_ok.mp h
    obtain ⟨keys, hkeys, h⟩ := bind_eq_ok.mp h
    obtain ⟨_, hkeysLe, h⟩ := bind_eq_ok.mp h
    obtain ⟨total, htotal, h⟩ := bind_eq_ok.mp h
    obtain ⟨_, htotalLe, h⟩ := bind_eq_ok.mp h
    rw [rejectIf_eq_ok] at hkeysLe htotalLe
    obtain rfl := CacheKey.size_of_identityBytes hbytes
    obtain ⟨rfl, -⟩ := addOrOverflow_eq_ok.mp hkeys
    obtain ⟨rfl, -⟩ := addOrOverflow_eq_ok.mp htotal
    obtain rfl := pure_eq_ok.mp h
    obtain ⟨hwf, hproj, hbase⟩ := insertKey_ok ht.toWellFormed hnew
    refine ⟨⟨⟨hwf.added_new, hwf.removed_sub⟩, ?_, ?_, ?_, ?_⟩, hproj, hbase⟩
    · show t.keyCount + 1 = (t.insertKey key).projected.card
      rw [hproj, Finset.card_insert_of_notMem hnew, ht.keyCount]
    · show t.identityBytes + key.size = keyBytes (t.insertKey key).projected
      rw [hproj, keyBytes_insert hnew, ht.identityBytes]
    · exact Nat.le_of_not_lt hkeysLe
    · exact Nat.le_of_not_lt htotalLe

/-- `remove` erases its key. -/
theorem remove_ok (ht : t.Overlay limits) (h : t.remove key = .ok t') :
    t'.Overlay limits ∧ t'.projected = t.projected.erase key ∧ t'.base = t.base := by
  by_cases hmem : t.contains key = true
  · have hin : key ∈ t.projected := contains_iff.mp hmem
    rw [remove, if_neg (by simp [hmem])] at h
    obtain ⟨bytes, hbytes, h⟩ := bind_eq_ok.mp h
    obtain ⟨keys, hkeys, h⟩ := bind_eq_ok.mp h
    obtain ⟨total, htotal, h⟩ := bind_eq_ok.mp h
    obtain rfl := CacheKey.size_of_identityBytes hbytes
    obtain ⟨-, rfl⟩ := subOrOverflow_eq_ok.mp hkeys
    obtain ⟨-, rfl⟩ := subOrOverflow_eq_ok.mp htotal
    obtain rfl := pure_eq_ok.mp h
    obtain ⟨hwf, hproj, hbase⟩ := eraseKey_ok ht.toWellFormed hin
    have hsum := keyBytes_erase hin
    have hkeyCount := ht.keyCount
    have hidentity := ht.identityBytes
    refine ⟨⟨⟨hwf.added_new, hwf.removed_sub⟩, ?_, ?_, ?_, ?_⟩, hproj, hbase⟩
    · show t.keyCount - 1 = (t.eraseKey key).projected.card
      rw [hproj, Finset.card_erase_of_mem hin, hkeyCount]
    · show t.identityBytes - key.size = keyBytes (t.eraseKey key).projected
      rw [hproj]
      omega
    · exact (Nat.sub_le _ _).trans ht.keys_le
    · exact (Nat.sub_le _ _).trans ht.bytes_le
  · have hout : key ∉ t.projected := fun hk => hmem (contains_iff.mpr hk)
    rw [remove, if_pos (by simp [hmem])] at h
    obtain ⟨missing, -, h⟩ := bind_eq_ok.mp h
    obtain rfl := pure_eq_ok.mp h
    refine ⟨⟨⟨ht.added_new, ht.removed_sub⟩, ht.keyCount, ht.identityBytes, ht.keys_le,
      ht.bytes_le⟩, ?_, rfl⟩
    exact (Finset.erase_eq_of_notMem hout).symm

/-- `clear` projects the empty set. -/
theorem clear_ok :
    t.clear.Overlay limits ∧ t.clear.projected = ∅ ∧ t.clear.base = t.base := by
  have hproj : t.clear.projected = ∅ := by simp [projected, clear]
  have hwf : t.clear.WellFormed := ⟨fun hc => by simp [clear] at hc, by simp [clear]⟩
  refine ⟨⟨hwf, ?_, ?_, Nat.zero_le _, Nat.zero_le _⟩, hproj, rfl⟩
  · rw [hproj]
    rfl
  · rw [hproj]
    rfl

/-! ### Mutation lists -/

/-- `t` is a sound overlay over `base` that projects `keys`. -/
def Projects (limits : Limits) (base : CacheView) (t : CacheTransaction)
    (keys : Finset CacheKey) : Prop :=
  t.Overlay limits ∧ t.projected = keys ∧ t.base = base

variable {base : CacheView} {keys : Finset CacheKey}

/-- A fresh transaction projects its base view. -/
theorem projects_new {view : CacheView} (h : view.Bounded limits) :
    Projects limits view (new view) view.keys := by
  have hproj : (new view).projected = view.keys := by simp [projected, new]
  have hwf : (new view).WellFormed := ⟨fun _ k hk => by simp [new] at hk, by simp [new]⟩
  refine ⟨⟨hwf, ?_, ?_, h.keys_le, h.bytes_le⟩, hproj, rfl⟩
  · rw [hproj]
    rfl
  · rw [hproj]
    exact h.identityBytes

/-- A mutation acts on the projection as it acts on a plain set. -/
theorem applyMutation_ok {mutation : Mutation} (ht : Projects limits base t keys)
    (h : t.applyMutation limits mutation = .ok t') :
    Projects limits base t' (mutation.run keys) := by
  cases mutation with
  | storeRun run =>
      have hstore : ∀ hash ∈ run.hashes, ∀ {u u' : CacheTransaction} {ks : Finset CacheKey},
          Projects limits base u ks → u.store ⟨run.group, run.medium, hash⟩ limits = .ok u' →
          Projects limits base u' (insert ⟨run.group, run.medium, hash⟩ ks) := by
        rintro hash - u u' ks ⟨hover, rfl, rfl⟩ hs
        exact store_ok hover hs
      exact foldlM_simulation hstore ht h
  | remove hashes group medium metadata =>
      have hremove : ∀ hash ∈ hashes, ∀ {u u' : CacheTransaction} {ks : Finset CacheKey},
          Projects limits base u ks → u.remove ⟨group, medium, hash⟩ = .ok u' →
          Projects limits base u' (ks.erase ⟨group, medium, hash⟩) := by
        rintro hash - u u' ks ⟨hover, rfl, rfl⟩ hs
        exact remove_ok hover hs
      exact foldlM_simulation hremove ht h
  | clear metadata =>
      obtain rfl := Except.ok.inj h
      obtain ⟨-, -, rfl⟩ := ht
      exact clear_ok

/-- A mutation list acts on the projection as it acts on a plain set. -/
theorem apply_ok {mutations : List Mutation} (ht : Projects limits base t keys)
    (h : t.apply mutations limits = .ok t') :
    Projects limits base t' (runMutations mutations keys) := by
  have hstep : ∀ mutation ∈ mutations, ∀ {u u' : CacheTransaction} {ks : Finset CacheKey},
      Projects limits base u ks → u.applyMutation limits mutation = .ok u' →
      Projects limits base u' (mutation.run ks) :=
    fun mutation _ _ _ _ hu hs => applyMutation_ok hu hs
  exact foldlM_simulation hstep ht h

/-! ### Commit -/

/-- Committing a transaction to its base view stores the projected keys and
keeps the view exact and within its ceilings. -/
theorem commit_ok (ht : Projects limits base t keys) :
    (t.finish.commit base).keys = keys ∧ (t.finish.commit base).Bounded limits := by
  obtain ⟨hover, rfl, rfl⟩ := ht
  refine ⟨rfl, hover.identityBytes, ?_, hover.bytes_le⟩
  rw [show (t.finish.commit t.base).keys = t.projected from rfl, ← hover.keyCount]
  exact hover.keys_le

@[simp] theorem commit_scope (view : CacheView) : (t.finish.commit view).scope = view.scope :=
  rfl

end CacheTransaction

/-! ### Clears -/

theorem runMutations_append (xs ys : List Mutation) (keys : Finset CacheKey) :
    runMutations (xs ++ ys) keys = runMutations ys (runMutations xs keys) :=
  List.foldl_append

theorem runMutations_cons (x : Mutation) (xs : List Mutation) (keys : Finset CacheKey) :
    runMutations (x :: xs) keys = runMutations xs (x.run keys) :=
  rfl

/-- Up to its first clear a mutation list leaves no trace: starting at the
clear gives the result of the whole list, on any set. -/
theorem runMutations_drop_clear {mutations : List Mutation} {start : Nat}
    (h : mutations.findIdx? Mutation.isClear = some start) (keys keys' : Finset CacheKey) :
    runMutations (mutations.drop start) keys = runMutations mutations keys' := by
  obtain ⟨hlt, hclear, -⟩ := List.findIdx?_eq_some_iff_getElem.mp h
  have hdrop : mutations.drop start = mutations[start] :: mutations.drop (start + 1) :=
    List.drop_eq_getElem_cons hlt
  have hsplit : mutations = mutations.take start ++ mutations.drop start :=
    (List.take_append_drop start mutations).symm
  have hrun : ∀ ks ks' : Finset CacheKey, mutations[start].run ks = mutations[start].run ks' := by
    intro ks ks'
    cases e : mutations[start] with
    | clear metadata => rfl
    | storeRun run => rw [e] at hclear; cases hclear
    | remove hashes group medium metadata => rw [e] at hclear; cases hclear
  calc runMutations (mutations.drop start) keys
      = runMutations (mutations.drop (start + 1)) (mutations[start].run keys) := by
        rw [hdrop, runMutations_cons]
    _ = runMutations (mutations.drop (start + 1))
          (mutations[start].run (runMutations (mutations.take start) keys')) := by
        rw [hrun keys]
    _ = runMutations (mutations.take start ++ mutations.drop start) keys' := by
        rw [runMutations_append, hdrop, runMutations_cons]
    _ = runMutations mutations keys' := by rw [← hsplit]

/-- A mutation list with a clear resets the key set. -/
theorem runMutations_reset {mutations : List Mutation} {start : Nat}
    (h : mutations.findIdx? Mutation.isClear = some start) (keys keys' : Finset CacheKey) :
    runMutations mutations keys = runMutations mutations keys' := by
  rw [← runMutations_drop_clear h ∅ keys, ← runMutations_drop_clear h ∅ keys']

end KvCrucible
