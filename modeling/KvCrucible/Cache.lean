/-
KvCrucible/Cache.lean

The bounded cache view of one publisher stream and its atomic mutation
projection (`CacheView`, `CacheTransaction` and `CachePlan` in `state.rs`).

A transaction keeps only the keys that change over an immutable base view
and checks the key and byte ceilings at every store, before anything is
committed.  A `BTreeSet<CacheKey>` is a `Finset`: the code never observes
the order of cache keys.

`debug_assert!` lines have no counterpart here; what they assert is part of
`CacheTransaction.Overlay`, the invariant of a transaction.
-/
import KvCrucible.Validate

namespace KvCrucible

open Basis

/-! ### Errors of the state layer -/

/-- `state::Resource`. -/
inductive StateResource where
  | canonicalMutationBytes
  | fingerprintBytes
  | sessionStreams
  | sessionEnvelopes
  | sessionIdentityBytes
  | cacheKeys
  | cacheIdentityBytes
  deriving DecidableEq

/-- `state::Error`. -/
inductive StateError where
  | unsupportedDepthLimit (configured maximum : Nat)
  | normalizerFailed
  | stateFailed
  | sessionMismatch
  | conflictingStreamRegistration
  | duplicateStreamScope
  | duplicateEnvelopeRegistration
  | wrongRecordKind
  | recordValidation (error : ValidationError)
  | fingerprintCanonicalization
  | resourceLimit (resource : StateResource) (maximum observed : Nat)
  | counterOverflow
  | baselineAuthorityMismatch
  | streamMismatch
  | cursorBeforeInitial
  deriving DecidableEq

/-- `usize_to_u64`. -/
def usizeToU64 (value : Nat) : Except StateError Nat :=
  if value < 2 ^ 64 then .ok value else .error .counterOverflow

/-- `checked_add(..).ok_or(Error::CounterOverflow)`. -/
def addOrOverflow (a b : Nat) : Except StateError Nat :=
  match checkedAdd a b with
  | some c => .ok c
  | none => .error .counterOverflow

/-- `checked_sub(..).ok_or(Error::CounterOverflow)`. -/
def subOrOverflow (a b : Nat) : Except StateError Nat :=
  match checkedSub a b with
  | some c => .ok c
  | none => .error .counterOverflow

theorem usizeToU64_eq_ok {a c : Nat} : usizeToU64 a = .ok c ↔ a = c ∧ a < 2 ^ 64 := by
  unfold usizeToU64
  by_cases h : a < 2 ^ 64
  · rw [if_pos h, Except.ok.injEq]
    exact (and_iff_left h).symm
  · rw [if_neg h]
    simp only [reduceCtorEq, false_iff]
    omega

theorem addOrOverflow_eq_ok {a b c : Nat} :
    addOrOverflow a b = .ok c ↔ a + b = c ∧ c < 2 ^ 64 := by
  unfold addOrOverflow
  rcases e : checkedAdd a b with - | d
  · have := checkedAdd_eq_none.mp e
    simp only [reduceCtorEq, false_iff]
    omega
  · obtain ⟨rfl, hlt⟩ := checkedAdd_eq_some.mp e
    simp only [Except.ok.injEq]
    constructor
    · rintro rfl
      exact ⟨rfl, hlt⟩
    · exact And.left

theorem subOrOverflow_eq_ok {a b c : Nat} :
    subOrOverflow a b = .ok c ↔ b ≤ a ∧ a - b = c := by
  unfold subOrOverflow
  rcases e : checkedSub a b with - | d
  · have := checkedSub_eq_none.mp e
    simp only [reduceCtorEq, false_iff]
    omega
  · obtain ⟨hle, rfl⟩ := checkedSub_eq_some.mp e
    simp [hle]

/-! ### Scope, keys and views -/

/-- `CacheScope`: the canonical identity of a publisher stream. -/
structure CacheScope where
  engine : String
  engineVersion : String
  engineInstance : String
  publisher : String
  dataParallelRank : UInt32
  epoch : String
  deriving DecidableEq

/-- `CacheScope::from`. -/
def CacheScope.ofStream (stream : StreamDeclaration) : CacheScope where
  engine := stream.engine
  engineVersion := stream.engineVersion
  engineInstance := stream.engineInstance
  publisher := stream.publisher
  dataParallelRank := stream.dataParallelRank
  epoch := stream.epoch

/-- `CacheScope::identity_bytes`. -/
def CacheScope.identityBytes (scope : CacheScope) : Except StateError Nat :=
  [len scope.engine, len scope.engineVersion, len scope.engineInstance, len scope.publisher,
    len scope.epoch].foldlM (fun total length => do
      let length ← usizeToU64 length
      addOrOverflow total length) 0

/-- `CacheKey`. -/
structure CacheKey where
  group : CacheGroup
  medium : StorageMedium
  hash : OpaqueHash
  deriving DecidableEq

/-- The group's share of a key's identity bytes. -/
def CacheGroup.identityBytes : CacheGroup → Nat
  | .index _ => 4
  | .unspecified => 0

/-- The medium's share of a key's identity bytes. -/
def StorageMedium.identityBytes : StorageMedium → Nat
  | .named value => len value
  | .unspecified => 0

/-- The hash's share of a key's identity bytes. -/
def OpaqueHash.identityBytes : OpaqueHash → Nat
  | .u64 _ => 8
  | .bytes value => value.asBytes.length

/-- `CacheKey::identity_bytes`. -/
def CacheKey.identityBytes (key : CacheKey) : Except StateError Nat := do
  let medium ← usizeToU64 key.medium.identityBytes
  let hash ← usizeToU64 key.hash.identityBytes
  let total ← addOrOverflow key.group.identityBytes medium
  addOrOverflow total hash

/-- The identity bytes of a key, without overflow checks. -/
def CacheKey.size (key : CacheKey) : Nat :=
  key.group.identityBytes + key.medium.identityBytes + key.hash.identityBytes

/-- `CacheView`. -/
@[ext] structure CacheView where
  scope : CacheScope
  keys : Finset CacheKey
  identityBytes : Nat
  deriving DecidableEq

/-- `CacheView::empty`. -/
def CacheView.empty (scope : CacheScope) : CacheView where
  scope := scope
  keys := ∅
  identityBytes := 0

/-- `CacheView::key_count`. -/
def CacheView.keyCount (view : CacheView) : Nat := view.keys.card

/-! ### Transactions -/

/-- `CacheTransaction`: the changes planned over an immutable base view. -/
structure CacheTransaction where
  base : CacheView
  cleared : Bool
  added : Finset CacheKey
  removed : Finset CacheKey
  keyCount : Nat
  identityBytes : Nat
  missingRemoves : Nat

namespace CacheTransaction

/-- `CacheTransaction::new`. -/
def new (base : CacheView) : CacheTransaction where
  base := base
  cleared := false
  added := ∅
  removed := ∅
  keyCount := base.keys.card
  identityBytes := base.identityBytes
  missingRemoves := 0

variable (t : CacheTransaction)

/-- `contains`. -/
def contains (key : CacheKey) : Bool :=
  decide (key ∈ t.added) ||
    (!t.cleared && decide (key ∈ t.base.keys) && !decide (key ∈ t.removed))

/-- The overlay change of `store`: a removed base key is restored, any other
key is added. -/
def insertKey (key : CacheKey) : CacheTransaction :=
  if !t.cleared && decide (key ∈ t.base.keys) then { t with removed := t.removed.erase key }
  else { t with added := insert key t.added }

/-- The overlay change of `remove`: an added key is withdrawn, any other key
is marked removed. -/
def eraseKey (key : CacheKey) : CacheTransaction :=
  if key ∈ t.added then { t with added := t.added.erase key }
  else { t with removed := insert key t.removed }

/-- `store`. -/
def store (key : CacheKey) (limits : Limits) : Except StateError CacheTransaction :=
  if t.contains key then .ok t
  else do
    let keyBytes ← key.identityBytes
    let observedKeys ← addOrOverflow t.keyCount 1
    rejectIf (observedKeys > limits.maxCacheKeysPerStream.toNat)
      (.resourceLimit .cacheKeys limits.maxCacheKeysPerStream.toNat observedKeys)
    let observedBytes ← addOrOverflow t.identityBytes keyBytes
    rejectIf (observedBytes > limits.maxCacheIdentityBytesPerStream.toNat)
      (.resourceLimit .cacheIdentityBytes limits.maxCacheIdentityBytesPerStream.toNat
        observedBytes)
    return { t.insertKey key with keyCount := observedKeys, identityBytes := observedBytes }

/-- `remove`. -/
def remove (key : CacheKey) : Except StateError CacheTransaction :=
  if !t.contains key then do
    let missingRemoves ← addOrOverflow t.missingRemoves 1
    return { t with missingRemoves := missingRemoves }
  else do
    let keyBytes ← key.identityBytes
    let keyCount ← subOrOverflow t.keyCount 1
    let identityBytes ← subOrOverflow t.identityBytes keyBytes
    return { t.eraseKey key with keyCount := keyCount, identityBytes := identityBytes }

/-- `clear`. -/
def clear : CacheTransaction :=
  { t with cleared := true, added := ∅, removed := ∅, keyCount := 0, identityBytes := 0 }

/-- One iteration of `apply`. -/
def applyMutation (limits : Limits) : Mutation → Except StateError CacheTransaction
  | .storeRun run =>
      run.hashes.foldlM (fun t hash => t.store ⟨run.group, run.medium, hash⟩ limits) t
  | .remove hashes group medium _ =>
      hashes.foldlM (fun t hash => t.remove ⟨group, medium, hash⟩) t
  | .clear _ => .ok t.clear

/-- `apply`. -/
def apply (mutations : List Mutation) (limits : Limits) : Except StateError CacheTransaction :=
  mutations.foldlM (fun t mutation => t.applyMutation limits mutation) t

end CacheTransaction

/-- `CachePlan`. -/
structure CachePlan where
  cleared : Bool
  added : Finset CacheKey
  removed : Finset CacheKey
  keyCount : Nat
  identityBytes : Nat
  missingRemoves : Nat

/-- `CacheTransaction::finish`. -/
def CacheTransaction.finish (t : CacheTransaction) : CachePlan where
  cleared := t.cleared
  added := t.added
  removed := t.removed
  keyCount := t.keyCount
  identityBytes := t.identityBytes
  missingRemoves := t.missingRemoves

/-- `CachePlan::commit`. -/
def CachePlan.commit (plan : CachePlan) (view : CacheView) : CacheView :=
  { view with
    keys := (if plan.cleared then ∅ else view.keys \ plan.removed) ∪ plan.added
    identityBytes := plan.identityBytes }

/-! ### Direct mutation of a key set -/

/-- What a mutation means for a plain set of keys, hash by hash in order. -/
def Mutation.run : Mutation → Finset CacheKey → Finset CacheKey
  | .storeRun run, keys =>
      run.hashes.foldl (fun keys hash => insert ⟨run.group, run.medium, hash⟩ keys) keys
  | .remove hashes group medium _, keys =>
      hashes.foldl (fun keys hash => keys.erase ⟨group, medium, hash⟩) keys
  | .clear _, _ => ∅

/-- What a mutation list means for a plain set of keys. -/
def runMutations (mutations : List Mutation) (keys : Finset CacheKey) : Finset CacheKey :=
  mutations.foldl (fun keys mutation => mutation.run keys) keys

end KvCrucible
