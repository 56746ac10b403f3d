/-
KvCrucible/PlainSet.lean

A cache transaction against a plain set of keys.

`KeyEdit` is one hash of a mutation list as an edit of a plain set, and
`refusal` says which ceiling a store would break on that set.  One edit of the
transaction does what the edit does to the set it projects, or returns the
refusal (`applyEdit_eq`); so does a whole list (`applyEdits_eq`), and what is
committed is the edited set with exact counters.

`storeAsserts`, `removeAsserts` and `commitAsserts` are the `debug_assert!`
lines of the source, as conditions on the state in which they are reached.
-/
import KvCrucible.CacheStages

namespace KvCrucible

open Basis

/-! ### Edits of a plain set -/

/-- One hash of a mutation list. -/
inductive KeyEdit where
  | store (key : CacheKey)
  | remove (key : CacheKey)
  | clear
  deriving DecidableEq

/-- The edits of a mutation, hash by hash in order. -/
def Mutation.edits : Mutation → List KeyEdit
  | .storeRun run => run.hashes.map fun hash => .store ⟨run.group, run.medium, hash⟩
  | .remove hashes group medium _ => hashes.map fun hash => .remove ⟨group, medium, hash⟩
  | .clear _ => [.clear]

/-- The edits of a mutation list. -/
def editsOf (mutations : List Mutation) : List KeyEdit := mutations.flatMap Mutation.edits

namespace KeyEdit

/-- The plain set after an edit. -/
def run (keys : Finset CacheKey) : KeyEdit → Finset CacheKey
  | .store key => insert key keys
  | .remove key => keys.erase key
  | .clear => ∅

/-- Whether an edit is a remove. -/
def isRemove : KeyEdit → Bool
  | .remove _ => true
  | _ => false

/-- Whether an edit removes a key that is absent. -/
def misses (keys : Finset CacheKey) : KeyEdit → Nat
  | .remove key => if key ∈ keys then 0 else 1
  | _ => 0

/-- The ceiling that a store would break: the key count comes first. -/
def refusal (limits : Limits) (keys : Finset CacheKey) : KeyEdit → Option StateError
  | .store key =>
      if key ∈ keys then none
      else if keys.card + 1 > limits.maxCacheKeysPerStream.toNat then
        some (.resourceLimit .cacheKeys limits.maxCacheKeysPerStream.toNat (keys.card + 1))
      else if keyBytes keys + key.size > limits.maxCacheIdentityBytesPerStream.toNat then
        some (.resourceLimit .cacheIdentityBytes limits.maxCacheIdentityBytesPerStream.toNat
          (keyBytes keys + key.size))
      else none
  | _ => none

end KeyEdit

/-- The plain set after a list of edits. -/
def runEdits (edits : List KeyEdit) (keys : Finset CacheKey) : Finset CacheKey :=
  edits.foldl KeyEdit.run keys

/-- How many removes find their key absent at their turn. -/
def missesOf : List KeyEdit → Finset CacheKey → Nat
  | [], _ => 0
  | edit :: rest, keys => edit.misses keys + missesOf rest (edit.run keys)

/-- The refusal of the first store that would break a ceiling. -/
def refusalOf (limits : Limits) : List KeyEdit → Finset CacheKey → Option StateError
  | [], _ => none
  | edit :: rest, keys => (edit.refusal limits keys).or (refusalOf limits rest (edit.run keys))

/-- How many removes there are. -/
def removesOf (edits : List KeyEdit) : Nat := edits.countP KeyEdit.isRemove

/-- Counts, byte totals and the number of removes stay below `2 ^ 64` while
the edits are made on a plain set. -/
structure Countable (edits : List KeyEdit) (keys : Finset CacheKey) : Prop where
  card_lt : ∀ before after, edits = before ++ after → (runEdits before keys).card < 2 ^ 64
  bytes_lt : ∀ before after, edits = before ++ after → keyBytes (runEdits before keys) < 2 ^ 64
  removes_lt : removesOf edits < 2 ^ 64

section PlainSet

variable {limits : Limits} {edit : KeyEdit} {edits rest : List KeyEdit} {keys : Finset CacheKey}
  {error : StateError}

theorem refusal_present {key : CacheKey} (h : key ∈ keys) :
    (KeyEdit.store key).refusal limits keys = none :=
  if_pos h

/-- A store of an absent key is checked against the count, then the bytes. -/
theorem refusal_absent {key : CacheKey} (h : key ∉ keys) :
    (KeyEdit.store key).refusal limits keys =
      if keys.card + 1 > limits.maxCacheKeysPerStream.toNat then
        some (.resourceLimit .cacheKeys limits.maxCacheKeysPerStream.toNat (keys.card + 1))
      else if keyBytes keys + key.size > limits.maxCacheIdentityBytesPerStream.toNat then
        some (.resourceLimit .cacheIdentityBytes limits.maxCacheIdentityBytesPerStream.toNat
          (keyBytes keys + key.size))
      else none :=
  if_neg h

theorem Countable.tail (h : Countable (edit :: rest) keys) : Countable rest (edit.run keys) where
  card_lt := fun before after hrest => h.card_lt (edit :: before) after (by rw [hrest]; rfl)
  bytes_lt := fun before after hrest => h.bytes_lt (edit :: before) after (by rw [hrest]; rfl)
  removes_lt := by
    have hlt := h.removes_lt
    rw [removesOf, List.countP_cons] at hlt
    exact Nat.lt_of_le_of_lt (Nat.le_add_right _ _) hlt

/-- Edits hold no other keys than were there or are stored. -/
theorem runEdits_subset {all : Finset CacheKey} (hkeys : keys ⊆ all)
    (hstored : ∀ key, .store key ∈ edits → key ∈ all) : runEdits edits keys ⊆ all := by
  induction edits generalizing keys with
  | nil => exact hkeys
  | cons edit rest ih =>
      refine ih ?_ fun key hkey => hstored key (List.mem_cons_of_mem _ hkey)
      cases edit with
      | store key => exact Finset.insert_subset (hstored key List.mem_cons_self) hkeys
      | remove key => exact (Finset.erase_subset _ _).trans hkeys
      | clear => exact Finset.empty_subset _

/-- A run within a set that can be counted can be counted. -/
theorem countable_of_subset (all : Finset CacheKey) (hkeys : keys ⊆ all)
    (hstored : ∀ key, .store key ∈ edits → key ∈ all) (hcard : all.card < 2 ^ 64)
    (hbytes : keyBytes all < 2 ^ 64) (hremoves : removesOf edits < 2 ^ 64) :
    Countable edits keys := by
  have hwithin : ∀ before after, edits = before ++ after → runEdits before keys ⊆ all := by
    rintro before after rfl
    exact runEdits_subset hkeys fun key hkey => hstored key (List.mem_append_left _ hkey)
  exact
    { card_lt := fun before after h => (Finset.card_le_card (hwithin before after h)).trans_lt hcard
      bytes_lt := fun before after h => (keyBytes_mono (hwithin before after h)).trans_lt hbytes
      removes_lt := hremoves }

/-- What a plain run can count it can count with the next key stored. -/
theorem Countable.store_fits {key : CacheKey} (h : Countable (.store key :: rest) keys)
    (hkey : key ∉ keys) : keys.card + 1 < 2 ^ 64 ∧ keyBytes keys + key.size < 2 ^ 64 := by
  have hcard := h.card_lt [.store key] rest rfl
  have hbytes := h.bytes_lt [.store key] rest rfl
  have hrun : runEdits [.store key] keys = insert key keys := rfl
  rw [hrun, Finset.card_insert_of_notMem hkey] at hcard
  rw [hrun, keyBytes_insert hkey] at hbytes
  exact ⟨hcard, hbytes⟩

theorem removesOf_remove (key : CacheKey) (rest : List KeyEdit) :
    removesOf (.remove key :: rest) = removesOf rest + 1 :=
  List.countP_cons_of_pos rfl

/-- A missing remove is a remove. -/
theorem misses_add_removesOf_le :
    edit.misses keys + removesOf rest ≤ removesOf (edit :: rest) := by
  cases edit with
  | remove key =>
      rw [removesOf_remove, KeyEdit.misses, Nat.add_comm]
      apply Nat.add_le_add_left
      split <;> omega
  | store key => simp [KeyEdit.misses, removesOf, KeyEdit.isRemove]
  | clear => simp [KeyEdit.misses, removesOf, KeyEdit.isRemove]

/-- The list is refused with its first refused store. -/
theorem refusalOf_eq_some : refusalOf limits edits keys = some error ↔
    ∃ before key after, edits = before ++ .store key :: after ∧
      refusalOf limits before keys = none ∧
      (KeyEdit.store key).refusal limits (runEdits before keys) = some error := by
  induction edits generalizing keys with
  | nil => simp [refusalOf]
  | cons edit rest ih =>
      rcases hrefusal : edit.refusal limits keys with - | first
      · rw [refusalOf, hrefusal, Option.none_or, ih]
        constructor
        · rintro ⟨before, key, after, rfl, hbefore, hkey⟩
          refine ⟨edit :: before, key, after, rfl, ?_, hkey⟩
          rw [refusalOf, hrefusal, Option.none_or, hbefore]
        · rintro ⟨before, key, after, hsplit, hbefore, hkey⟩
          cases before with
          | nil =>
              obtain ⟨rfl, rfl⟩ := List.cons.inj hsplit
              cases hrefusal.symm.trans hkey
          | cons edit' before =>
              obtain ⟨rfl, rfl⟩ := List.cons.inj hsplit
              rw [refusalOf, hrefusal, Option.none_or] at hbefore
              exact ⟨before, key, after, rfl, hbefore, hkey⟩
      · rw [refusalOf, hrefusal, Option.some_or, Option.some.injEq]
        constructor
        · rintro rfl
          cases edit with
          | store key => exact ⟨[], key, rest, rfl, rfl, hrefusal⟩
          | remove key => cases hrefusal
          | clear => cases hrefusal
        · rintro ⟨before, key, after, hsplit, hbefore, hkey⟩
          cases before with
          | nil =>
              obtain ⟨rfl, rfl⟩ := List.cons.inj hsplit
              exact Option.some.inj (hrefusal.symm.trans hkey)
          | cons edit' before =>
              obtain ⟨rfl, rfl⟩ := List.cons.inj hsplit
              rw [refusalOf, hrefusal, Option.some_or] at hbefore
              cases hbefore

end PlainSet

/-! ### Edits of a transaction -/

namespace CacheTransaction

/-- The operation of the transaction at one hash. -/
def applyEdit (limits : Limits) (t : CacheTransaction) :
    KeyEdit → Except StateError CacheTransaction
  | .store key => t.store key limits
  | .remove key => t.remove key
  | .clear => .ok t.clear

/-- The operations of the transaction at a list of hashes. -/
def applyEdits (limits : Limits) (t : CacheTransaction) (edits : List KeyEdit) :
    Except StateError CacheTransaction :=
  edits.foldlM (applyEdit limits) t

variable {limits : Limits} {t t' : CacheTransaction} {base : CacheView} {key : CacheKey}
  {edit : KeyEdit} {edits : List KeyEdit} {keys : Finset CacheKey}

/-- `apply` works hash by hash. -/
theorem applyEdits_editsOf (t : CacheTransaction) (mutations : List Mutation) :
    t.applyEdits limits (editsOf mutations) = t.apply mutations limits := by
  induction mutations generalizing t with
  | nil => rfl
  | cons mutation mutations ih =>
      have hone : t.applyEdits limits mutation.edits = t.applyMutation limits mutation := by
        cases mutation with
        | storeRun run => exact List.foldlM_map
        | remove hashes group medium metadata => exact List.foldlM_map
        | clear metadata => rfl
      have hsplit : t.applyEdits limits (editsOf (mutation :: mutations)) =
          (t.applyEdits limits mutation.edits >>= fun t =>
            t.applyEdits limits (editsOf mutations)) := by
        rw [editsOf, List.flatMap_cons]
        exact List.foldlM_append
      rw [hsplit, hone]
      simp only [ih]
      rfl

/-- The transaction over `base` projects `keys` and has counted so many
missing removes. -/
structure Mirrors (limits : Limits) (base : CacheView) (keys : Finset CacheKey) (misses : Nat)
    (t : CacheTransaction) : Prop where
  projects : Projects limits base t keys
  missingRemoves : t.missingRemoves = misses

variable {misses : Nat}

theorem Mirrors.contains_eq_true (ht : Mirrors limits base keys misses t) :
    t.contains key = true ↔ key ∈ keys := by
  rw [CacheTransaction.contains_iff, ht.projects.2.1]

theorem Mirrors.keyCount (ht : Mirrors limits base keys misses t) : t.keyCount = keys.card := by
  rw [ht.projects.1.keyCount, ht.projects.2.1]

theorem Mirrors.identityBytes (ht : Mirrors limits base keys misses t) :
    t.identityBytes = keyBytes keys := by
  rw [ht.projects.1.identityBytes, ht.projects.2.1]

/-- What a store of an absent key computes. -/
theorem Mirrors.store_absent (ht : Mirrors limits base keys misses t) (hkey : key ∉ keys)
    (hcard : keys.card + 1 < 2 ^ 64) (hbytes : keyBytes keys + key.size < 2 ^ 64) :
    t.store key limits = (do
      rejectIf (keys.card + 1 > limits.maxCacheKeysPerStream.toNat)
        (.resourceLimit .cacheKeys limits.maxCacheKeysPerStream.toNat (keys.card + 1))
      rejectIf (keyBytes keys + key.size > limits.maxCacheIdentityBytesPerStream.toNat)
        (.resourceLimit .cacheIdentityBytes limits.maxCacheIdentityBytesPerStream.toNat
          (keyBytes keys + key.size))
      return { t.insertKey key with
        keyCount := keys.card + 1
        identityBytes := keyBytes keys + key.size }) := by
  have hcontains : ¬ t.contains key = true := fun h => hkey (ht.contains_eq_true.mp h)
  have hsize : key.identityBytes = .ok key.size := CacheKey.identityBytes_eq (by omega)
  have hcount : addOrOverflow keys.card 1 = .ok (keys.card + 1) :=
    addOrOverflow_eq_ok.mpr ⟨rfl, hcard⟩
  have htotal : addOrOverflow (keyBytes keys) key.size = .ok (keyBytes keys + key.size) :=
    addOrOverflow_eq_ok.mpr ⟨rfl, hbytes⟩
  rw [store, if_neg hcontains, ht.keyCount, ht.identityBytes, hsize]
  simp only [Bind.bind, Except.bind, hcount, htotal]

/-- A store over a ceiling is refused. -/
theorem Mirrors.applyEdit_refused {rest : List KeyEdit} {error : StateError}
    (ht : Mirrors limits base keys misses t) (hcount : Countable (edit :: rest) keys)
    (h : edit.refusal limits keys = some error) : t.applyEdit limits edit = .error error := by
  cases edit with
  | store key =>
      by_cases hkey : key ∈ keys
      · rw [refusal_present hkey] at h
        cases h
      · rw [refusal_absent hkey] at h
        obtain ⟨hcard, hbytes⟩ := hcount.store_fits hkey
        show t.store key limits = _
        rw [ht.store_absent hkey hcard hbytes]
        by_cases hmax : keys.card + 1 > limits.maxCacheKeysPerStream.toNat
        · rw [if_pos hmax] at h
          obtain rfl := Option.some.inj h
          simp [rejectIf, hmax, Bind.bind, Except.bind]
        · rw [if_neg hmax] at h
          by_cases hmax' : keyBytes keys + key.size > limits.maxCacheIdentityBytesPerStream.toNat
          · rw [if_pos hmax'] at h
            obtain rfl := Option.some.inj h
            simp [rejectIf, hmax, hmax', Bind.bind, Except.bind]
          · rw [if_neg hmax'] at h
            cases h
  | remove key => cases h
  | clear => cases h

/-- An edit that succeeds does to the projected set what it does to the plain
one. -/
theorem Mirrors.of_applyEdit (ht : Mirrors limits base keys misses t)
    (h : t.applyEdit limits edit = .ok t') :
    Mirrors limits base (edit.run keys) (misses + edit.misses keys) t' := by
  obtain ⟨⟨hover, rfl, rfl⟩, rfl⟩ := ht
  cases edit with
  | store key => exact ⟨store_ok hover h, store_missingRemoves h⟩
  | remove key =>
      refine ⟨remove_ok hover h, ?_⟩
      have h : t.remove key = .ok t' := h
      unfold remove at h
      by_cases hkey : key ∈ t.projected
      · rw [CacheTransaction.contains_iff.mpr hkey, if_neg (by decide)] at h
        obtain ⟨_, -, h⟩ := bind_eq_ok.mp h
        obtain ⟨_, -, h⟩ := bind_eq_ok.mp h
        obtain ⟨_, -, h⟩ := bind_eq_ok.mp h
        obtain rfl := pure_eq_ok.mp h
        simp [KeyEdit.misses, hkey]
      · have hcontains : t.contains key = false := by
          rw [Bool.eq_false_iff, Ne, CacheTransaction.contains_iff]
          exact hkey
        rw [hcontains, if_pos (by decide)] at h
        obtain ⟨missing, hmissing, h⟩ := bind_eq_ok.mp h
        obtain ⟨rfl, -⟩ := addOrOverflow_eq_ok.mp hmissing
        obtain rfl := pure_eq_ok.mp h
        simp [KeyEdit.misses, hkey]
  | clear =>
      obtain rfl := Except.ok.inj h
      exact ⟨clear_ok, rfl⟩

/-- A list of edits that succeeds does to the projected set what it does to the
plain one. -/
theorem Mirrors.of_applyEdits (ht : Mirrors limits base keys misses t)
    (h : t.applyEdits limits edits = .ok t') :
    Mirrors limits base (runEdits edits keys) (misses + missesOf edits keys) t' := by
  induction edits generalizing t keys misses with
  | nil =>
      obtain rfl := Except.ok.inj h
      exact ht
  | cons edit rest ih =>
      obtain ⟨t₁, hedit, h⟩ := bind_eq_ok.mp (show t.applyEdit limits edit >>= _ = _ from h)
      rw [missesOf, ← Nat.add_assoc]
      exact ih (ht.of_applyEdit hedit) h

/-- An edit that is not refused succeeds. -/
theorem Mirrors.applyEdit_total {rest : List KeyEdit} (ht : Mirrors limits base keys misses t)
    (hcount : Countable (edit :: rest) keys) (hroom : misses + removesOf (edit :: rest) < 2 ^ 64)
    (h : edit.refusal limits keys = none) : ∃ t', t.applyEdit limits edit = .ok t' := by
  cases edit with
  | store key =>
      show ∃ t', t.store key limits = .ok t'
      by_cases hkey : key ∈ keys
      · exact ⟨t, by rw [store, if_pos (ht.contains_eq_true.mpr hkey)]⟩
      · obtain ⟨hcard, hbytes⟩ := hcount.store_fits hkey
        rw [ht.store_absent hkey hcard hbytes]
        rw [refusal_absent hkey] at h
        by_cases hmax : keys.card + 1 > limits.maxCacheKeysPerStream.toNat
        · rw [if_pos hmax] at h
          cases h
        · rw [if_neg hmax] at h
          by_cases hmax' : keyBytes keys + key.size > limits.maxCacheIdentityBytesPerStream.toNat
          · rw [if_pos hmax'] at h
            cases h
          · exact ⟨_, bind_ok (rejectIf_neg hmax) (bind_ok (rejectIf_neg hmax') rfl)⟩
  | remove key =>
      show ∃ t', t.remove key = .ok t'
      unfold remove
      by_cases hkey : key ∈ keys
      · -- what is projected was counted, so nothing underflows
        have hpos : 1 ≤ t.keyCount := by
          rw [ht.keyCount]
          exact Finset.card_pos.mpr ⟨key, hkey⟩
        have hsize : key.size ≤ t.identityBytes := by
          rw [ht.identityBytes]
          exact size_le_keyBytes hkey
        have hmax := limits.maxCacheIdentityBytesPerStream.toNat_lt
        have hbytes := CacheKey.identityBytes_eq
          (Nat.lt_of_le_of_lt (hsize.trans ht.projects.1.bytes_le) hmax)
        rw [ht.contains_eq_true.mpr hkey, if_neg (by decide)]
        exact ⟨_, bind_ok hbytes (bind_ok (subOrOverflow_eq_ok.mpr ⟨hpos, rfl⟩)
          (bind_ok (subOrOverflow_eq_ok.mpr ⟨hsize, rfl⟩) rfl))⟩
      · have hcontains : t.contains key = false := by
          rw [Bool.eq_false_iff, Ne, ht.contains_eq_true]
          exact hkey
        have hremoves : t.missingRemoves + 1 < 2 ^ 64 := by
          rw [removesOf_remove] at hroom
          rw [ht.missingRemoves]
          omega
        rw [hcontains, if_pos (by decide)]
        exact ⟨_, bind_ok (addOrOverflow_eq_ok.mpr ⟨rfl, hremoves⟩) rfl⟩
  | clear => exact ⟨t.clear, rfl⟩

/-- A list of edits does to the projected set what it does to the plain one,
up to the first store over a ceiling. -/
theorem Mirrors.applyEdits (ht : Mirrors limits base keys misses t)
    (hcount : Countable edits keys) (hroom : misses + removesOf edits < 2 ^ 64) :
    (∀ error, refusalOf limits edits keys = some error →
      t.applyEdits limits edits = .error error) ∧
    (refusalOf limits edits keys = none → ∃ t', t.applyEdits limits edits = .ok t' ∧
      Mirrors limits base (runEdits edits keys) (misses + missesOf edits keys) t') := by
  induction edits generalizing t keys misses with
  | nil =>
      refine ⟨fun error h => ?_, fun _ => ⟨t, rfl, ht⟩⟩
      cases h
  | cons edit rest ih =>
      have hfirst : t.applyEdits limits (edit :: rest) =
          (t.applyEdit limits edit >>= fun t => t.applyEdits limits rest) := List.foldlM_cons
      rcases hrefusal : edit.refusal limits keys with - | first
      · obtain ⟨t₁, hedit⟩ := ht.applyEdit_total hcount hroom hrefusal
        have ht₁ := ht.of_applyEdit hedit
        have hroom₁ : misses + edit.misses keys + removesOf rest < 2 ^ 64 := by
          have hone := @misses_add_removesOf_le edit rest keys
          omega
        obtain ⟨hrefused, hok⟩ := ih ht₁ hcount.tail hroom₁
        rw [hfirst, hedit, refusalOf, hrefusal, Option.none_or, missesOf, ← Nat.add_assoc]
        exact ⟨hrefused, hok⟩
      · rw [hfirst, ht.applyEdit_refused hcount hrefusal, refusalOf, hrefusal, Option.some_or]
        refine ⟨fun error h => ?_, fun h => ?_⟩
        · rw [← Option.some.inj h]
          rfl
        · cases h

/-- A fresh transaction mirrors its base view. -/
theorem mirrors_new {view : CacheView} (h : view.Bounded limits) :
    Mirrors limits view view.keys 0 (new view) :=
  ⟨projects_new h, rfl⟩

/-! ### Assertions -/

/-- The `debug_assert!` lines of `store`, past its early return. -/
def storeAsserts (t : CacheTransaction) (key : CacheKey) : Prop :=
  t.contains key = false →
    if !t.cleared && decide (key ∈ t.base.keys) then key ∈ t.removed else key ∉ t.added

/-- The `debug_assert!` line of `remove`, past its early return. -/
def removeAsserts (t : CacheTransaction) (key : CacheKey) : Prop :=
  t.contains key = true → key ∉ t.added → key ∉ t.removed

/-- What an edit asserts. -/
def editAsserts (t : CacheTransaction) : KeyEdit → Prop
  | .store key => t.storeAsserts key
  | .remove key => t.removeAsserts key
  | .clear => True

/-- The `debug_assert!` lines of `CachePlan::commit`: every planned removal
exists, and the count is that of the view afterwards. -/
def commitAsserts (plan : CachePlan) (view : CacheView) : Prop :=
  (plan.cleared = false → plan.removed ⊆ view.keys) ∧
    (plan.commit view).keys.card = plan.keyCount

/-- A projected key is not among the removals of its base. -/
theorem editAsserts_of_projects (ht : Projects limits base t keys) (edit : KeyEdit) :
    t.editAsserts edit := by
  obtain ⟨hover, -, -⟩ := ht
  cases edit with
  | store key =>
      intro hcontains
      simp only [contains, Bool.or_eq_false_iff, decide_eq_false_iff_not] at hcontains
      obtain ⟨hadded, hbase⟩ := hcontains
      by_cases h : (!t.cleared && decide (key ∈ t.base.keys)) = true
      · rw [if_pos h]
        simpa [h] using hbase
      · rw [if_neg h]
        exact hadded
  | remove key =>
      intro hcontains hadded
      simp only [contains, hadded, decide_false, Bool.false_or, Bool.and_eq_true,
        Bool.not_eq_true', decide_eq_false_iff_not] at hcontains
      exact hcontains.2
  | clear => trivial

theorem commitAsserts_of_projects (ht : Projects limits base t keys) :
    commitAsserts t.finish base := by
  obtain ⟨hover, -, rfl⟩ := ht
  exact ⟨fun _ => hover.removed_sub, hover.keyCount.symm⟩

/-! ### The refinement -/

/-- A transaction over an exact view within its ceilings does to the view what
its mutations do to a plain set, hash by hash: the committed keys are those of
the set and all counters are exact.  It fails with the first store that would
take the set over a ceiling, and only then, and no assertion ever fails. -/
theorem overlay_refines_set {limits : Limits} {base : CacheView} {mutations : List Mutation}
    (hbase : base.Bounded limits) (hcount : Countable (editsOf mutations) base.keys) :
    (∀ error, (new base).apply mutations limits = .error error ↔
      ∃ before key after, editsOf mutations = before ++ .store key :: after ∧
        refusalOf limits before base.keys = none ∧
        (KeyEdit.store key).refusal limits (runEdits before base.keys) = some error) ∧
    (∀ t, (new base).apply mutations limits = .ok t →
      (t.finish.commit base).keys = runEdits (editsOf mutations) base.keys ∧
      (t.finish.commit base).identityBytes = keyBytes (runEdits (editsOf mutations) base.keys) ∧
      t.finish.keyCount = (runEdits (editsOf mutations) base.keys).card ∧
      t.finish.missingRemoves = missesOf (editsOf mutations) base.keys ∧
      commitAsserts t.finish base) ∧
    ∀ before edit after t, editsOf mutations = before ++ edit :: after →
      (new base).applyEdits limits before = .ok t → t.editAsserts edit := by
  have hroom : 0 + removesOf (editsOf mutations) < 2 ^ 64 := by
    rw [Nat.zero_add]
    exact hcount.removes_lt
  obtain ⟨hrefused, hok⟩ := (mirrors_new hbase).applyEdits hcount hroom
  rw [applyEdits_editsOf] at hrefused hok
  refine ⟨fun error => ?_, fun t ht => ?_, fun before edit after t hsplit ht => ?_⟩
  · rw [← refusalOf_eq_some]
    constructor
    · intro herror
      rcases hrefusal : refusalOf limits (editsOf mutations) base.keys with - | error'
      · obtain ⟨t, ht, -⟩ := hok hrefusal
        cases ht.symm.trans herror
      · rw [Except.error.inj ((hrefused error' hrefusal).symm.trans herror)]
    · exact hrefused error
  · rcases hrefusal : refusalOf limits (editsOf mutations) base.keys with - | error'
    · obtain ⟨t', ht', hmirrors⟩ := hok hrefusal
      obtain rfl := Except.ok.inj (ht'.symm.trans ht)
      obtain ⟨hkeys, hbounded⟩ := commit_ok hmirrors.projects
      refine ⟨hkeys, ?_, hmirrors.keyCount, ?_, commitAsserts_of_projects hmirrors.projects⟩
      · rw [hbounded.identityBytes, hkeys]
      · show t'.missingRemoves = _
        rw [hmirrors.missingRemoves, Nat.zero_add]
    · cases (hrefused error' hrefusal).symm.trans ht
  · exact editAsserts_of_projects ((mirrors_new hbase).of_applyEdits ht).projects edit

end CacheTransaction

/-! ### A sample transaction -/

namespace Sample

/-- The key of an integer hash without group and medium. -/
def key (value : UInt64) : CacheKey := ⟨.unspecified, .unspecified, .u64 ⟨value⟩⟩

/-- A remove of one integer hash. -/
def remove (value : UInt64) : Mutation := .remove [.u64 ⟨value⟩] .unspecified .unspecified []

/-- A view with two keys. -/
def twoKeys : CacheView where
  scope := CacheScope.ofStream stream
  keys := {key 1, key 2}
  identityBytes := 16

/-- Limits that leave room for two keys. -/
def twoKeysAtMost : Limits := { Limits.default with maxCacheKeysPerStream := 2 }

/-- Mutations that end with a third key. -/
def thirdKey : List Mutation := [remove 9, remove 1, store 1, store 3]

end Sample

open CacheTransaction in
/-- One remove finds nothing, and a removed key is stored again.  The third key
is refused where two keys fill the view, and stored where there is room. -/
theorem CacheTransaction.overlay_refines_sample_set :
    (∃ error before key after, (new Sample.twoKeys).apply Sample.thirdKey Sample.twoKeysAtMost =
        .error error ∧
      editsOf Sample.thirdKey = before ++ .store key :: after ∧
      refusalOf Sample.twoKeysAtMost before Sample.twoKeys.keys = none ∧
      (KeyEdit.store key).refusal Sample.twoKeysAtMost (runEdits before Sample.twoKeys.keys) =
        some error) ∧
    ∃ t, (new Sample.twoKeys).apply Sample.thirdKey .default = .ok t ∧
      (t.finish.commit Sample.twoKeys).keys = {Sample.key 1, Sample.key 2, Sample.key 3} ∧
      (t.finish.commit Sample.twoKeys).identityBytes = 24 ∧
      t.finish.keyCount = 3 ∧ t.finish.missingRemoves = 1 ∧
      commitAsserts t.finish Sample.twoKeys := by
  have hfull : Sample.twoKeys.Bounded Sample.twoKeysAtMost :=
    ⟨by decide +kernel, by decide +kernel, by decide +kernel⟩
  have hroomy : Sample.twoKeys.Bounded .default :=
    ⟨by decide +kernel, by decide +kernel, by decide +kernel⟩
  have hstored : ∀ edit ∈ editsOf Sample.thirdKey, ∀ key, edit = .store key →
      key ∈ ({Sample.key 1, Sample.key 2, Sample.key 3} : Finset CacheKey) := by
    intro edit hedit key hkey
    subst hkey
    simp only [editsOf, Sample.thirdKey, Mutation.edits, Sample.remove, Sample.store,
      List.flatMap_cons, List.flatMap_nil, List.map_cons, List.map_nil, List.cons_append,
      List.nil_append, List.mem_cons, List.not_mem_nil, reduceCtorEq, KeyEdit.store.injEq,
      or_false, false_or] at hedit
    rcases hedit with rfl | rfl
    · decide +kernel
    · decide +kernel
  have hcount : Countable (editsOf Sample.thirdKey) Sample.twoKeys.keys :=
    countable_of_subset {Sample.key 1, Sample.key 2, Sample.key 3} (by decide +kernel)
      (fun key hkey => hstored _ hkey key rfl) (by decide +kernel) (by decide +kernel)
      (by decide +kernel)
  constructor
  · have hfails : ((new Sample.twoKeys).apply Sample.thirdKey Sample.twoKeysAtMost).isOk =
        false := by
      decide +kernel
    cases happly : (new Sample.twoKeys).apply Sample.thirdKey Sample.twoKeysAtMost with
    | ok t =>
        rw [happly] at hfails
        cases hfails
    | error error =>
        obtain ⟨before, key, after, h⟩ := ((overlay_refines_set hfull hcount).1 error).mp happly
        exact ⟨error, before, key, after, rfl, h⟩
  · have hsucceeds : ((new Sample.twoKeys).apply Sample.thirdKey .default).isOk = true := by
      decide +kernel
    have hkeys : runEdits (editsOf Sample.thirdKey) Sample.twoKeys.keys =
        {Sample.key 1, Sample.key 2, Sample.key 3} := by
      decide +kernel
    have hmisses : missesOf (editsOf Sample.thirdKey) Sample.twoKeys.keys = 1 := by
      decide +kernel
    cases happly : (new Sample.twoKeys).apply Sample.thirdKey .default with
    | error error =>
        rw [happly] at hsucceeds
        cases hsucceeds
    | ok t =>
        obtain ⟨hset, hbytes, hcard, hmissing, hasserts⟩ :=
          (overlay_refines_set hroomy hcount).2.1 t happly
        rw [hkeys] at hset hbytes hcard
        refine ⟨t, rfl, hset, hbytes.trans ?_, hcard.trans ?_, hmissing.trans hmisses, hasserts⟩
        · decide +kernel
        · decide +kernel

end KvCrucible
