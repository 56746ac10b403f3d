/-
KvCrucible/State.lean

The delivery fold of one publisher stream (`StreamState` in `state.rs`).

`admitDelivery` is `StreamState::admit`: it takes one delivery and returns its
disposition and the next state.  The parts of `admit_inner` keep the source's
names and its order of effects.
What the source calls `expect` on, slices or subtracts unchecked is a
`Failure.panic` here, so that "cannot panic" is a statement about the model.
No error of `admit_inner` is returned after a field was assigned: a failing
admission changes the `failed` flag and nothing else.

The shared session status is the argument `status` of `admitDelivery` and
`finish`.
-/
import KvCrucible.Basis.TreeMap
import KvCrucible.Normalizer

namespace KvCrucible

open Basis Std

/-! ### Dispositions, certainty and reasons -/

/-- `Certainty`. -/
inductive Certainty where
  | exact
  | recovering
  | unknown
  deriving DecidableEq

/-- `Disposition`. -/
inductive Disposition where
  | applied
  | barrierApplied
  | buffered
  | duplicate
  | equivocation
  | staleUnverifiable
  | staleBarrier
  | pendingLimit
  | gapLimit
  | unverifiableGap
  deriving DecidableEq

/-- `UnknownReasons`. -/
structure UnknownReasons where
  bits : UInt8
  deriving DecidableEq

namespace UnknownReasons

/-- `UnknownReasons::BASELINE`. -/
def baselineBit : UInt8 := 1
/-- `UnknownReasons::EQUIVOCATION`. -/
def equivocationBit : UInt8 := 2
/-- `UnknownReasons::UNAVAILABLE_GAP`. -/
def unavailableGapBit : UInt8 := 4
/-- `UnknownReasons::UNCLOSED_GAP`. -/
def unclosedGapBit : UInt8 := 8

/-- `active`. -/
def active (baseline equivocation unavailableGap : Bool) : UnknownReasons where
  bits := (if baseline then baselineBit else 0) |||
    (if equivocation then equivocationBit else 0) |||
    (if unavailableGap then unavailableGapBit else 0)

/-- `with_unclosed_gap`. -/
def withUnclosedGap (reasons : UnknownReasons) (unclosedGap : Bool) : UnknownReasons :=
  if unclosedGap then { bits := reasons.bits ||| unclosedGapBit } else reasons

/-- `is_empty`. -/
def isEmpty (reasons : UnknownReasons) : Bool := reasons.bits = 0

end UnknownReasons

/-! ### Diagnostics -/

/-- `Diagnostics`: counters with a ceiling. -/
structure Diagnostics where
  duplicates : Nat
  equivocations : Nat
  staleUnverifiable : Nat
  staleBarriers : Nat
  missingRemovesExact : Nat
  missingRemovesPartial : Nat
  pendingLimits : Nat
  gapLimits : Nat
  unverifiableGaps : Nat
  unclosedGaps : Nat
  truncated : Bool
  deriving DecidableEq

namespace Diagnostics

/-- `Diagnostics::default`. -/
def default : Diagnostics := ⟨0, 0, 0, 0, 0, 0, 0, 0, 0, 0, false⟩

/-- `Diagnostics::increment`: the new counter and `truncated` flag. -/
def increment (counter : Nat) (truncated : Bool) (maximum : Nat) : Nat × Bool :=
  if counter ≥ maximum then (counter, true) else (counter + 1, truncated)

/-- `Diagnostics::add`. -/
def add (counter added : Nat) (truncated : Bool) (maximum : Nat) : Nat × Bool :=
  let available := maximum - counter
  if added > available then (maximum, true) else (counter + added, truncated)

variable (maximum : Nat) (d : Diagnostics)

/-- `bump_duplicate`. -/
def bumpDuplicate : Diagnostics :=
  let (duplicates, truncated) := increment d.duplicates d.truncated maximum
  { d with duplicates := duplicates, truncated := truncated }

/-- `bump_equivocation`. -/
def bumpEquivocation : Diagnostics :=
  let (equivocations, truncated) := increment d.equivocations d.truncated maximum
  { d with equivocations := equivocations, truncated := truncated }

/-- `bump_unverifiable_gap`. -/
def bumpUnverifiableGap : Diagnostics :=
  let (unverifiableGaps, truncated) := increment d.unverifiableGaps d.truncated maximum
  { d with unverifiableGaps := unverifiableGaps, truncated := truncated }

/-- The count of a stale clear. -/
def bumpStaleBarrier : Diagnostics :=
  let (staleBarriers, truncated) := increment d.staleBarriers d.truncated maximum
  { d with staleBarriers := staleBarriers, truncated := truncated }

/-- The count of a stale delivery without a clear. -/
def bumpStaleUnverifiable : Diagnostics :=
  let (staleUnverifiable, truncated) := increment d.staleUnverifiable d.truncated maximum
  { d with staleUnverifiable := staleUnverifiable, truncated := truncated }

/-- The count of a delivery beyond the gap span. -/
def bumpGapLimit : Diagnostics :=
  let (gapLimits, truncated) := increment d.gapLimits d.truncated maximum
  { d with gapLimits := gapLimits, truncated := truncated }

/-- The count of a delivery beyond the pending capacity. -/
def bumpPendingLimit : Diagnostics :=
  let (pendingLimits, truncated) := increment d.pendingLimits d.truncated maximum
  { d with pendingLimits := pendingLimits, truncated := truncated }

/-- The count of a gap that is open at the end. -/
def bumpUnclosedGap : Diagnostics :=
  let (unclosedGaps, truncated) := increment d.unclosedGaps d.truncated maximum
  { d with unclosedGaps := unclosedGaps, truncated := truncated }

/-- The missing removes of one application. -/
def addMissingRemoves (exact : Bool) (missingRemoves maximum : Nat) (d : Diagnostics) :
    Diagnostics :=
  if exact then
    let (missingRemovesExact, truncated) :=
      add d.missingRemovesExact missingRemoves d.truncated maximum
    { d with missingRemovesExact := missingRemovesExact, truncated := truncated }
  else
    let (missingRemovesPartial, truncated) :=
      add d.missingRemovesPartial missingRemoves d.truncated maximum
    { d with missingRemovesPartial := missingRemovesPartial, truncated := truncated }

end Diagnostics

/-! ### Slots -/

/-- `RecentSlot`: what is retained about an applied cursor. -/
inductive RecentSlot where
  | candidate (first : SemanticFingerprint)
  | conflict (first second : SemanticFingerprint)
  deriving DecidableEq

/-- `PendingSlot`: what is retained about a cursor behind a gap. -/
inductive PendingSlot (canon : Canonical) where
  | candidate (source : PreparedEnvelope canon)
  | conflict (first second : SemanticFingerprint)

/-- `PendingSlot::canonical_bytes`. -/
def PendingSlot.canonicalBytes {canon : Canonical} : PendingSlot canon → Nat
  | .candidate source => source.canonicalBytes
  | .conflict _ _ => 0

/-- The fingerprints of a pending slot, which are all that a redelivery is
compared with. -/
def PendingSlot.evidence {canon : Canonical} : PendingSlot canon → RecentSlot
  | .candidate source => .candidate source.fingerprint
  | .conflict first second => .conflict first second

/-- `PendingRedelivery` and `RecentRedelivery`. -/
inductive Redelivery where
  | duplicate
  | conflict (first : SemanticFingerprint)
  | additionalConflict

/-- How a redelivery compares with the retained fingerprints. -/
def RecentSlot.classify : RecentSlot → SemanticFingerprint → Redelivery
  | .candidate first, fingerprint =>
      if first = fingerprint then .duplicate else .conflict first
  | .conflict first second, fingerprint =>
      if first = fingerprint ∨ second = fingerprint then .duplicate else .additionalConflict

/-! ### Stream state -/

/-- `StreamState`: the incremental state of one publisher stream. -/
structure StreamState (canon : Canonical) where
  session : SessionId
  limits : Limits
  streamId : String
  initialCursor : Nat
  certainty : Certainty
  frontier : Option Nat
  baselineUnknown : Bool
  viewAuthoritative : Bool
  poisonCeiling : Option Nat
  equivocationCeiling : Option Nat
  unavailableFloor : Option Nat
  unavailableCeiling : Option Nat
  view : CacheView
  pending : ExtTreeMap Nat (PendingSlot canon)
  pendingBytes : Nat
  recent : ExtTreeMap Nat RecentSlot
  diagnostics : Diagnostics
  failed : Bool

/-- How `admit_inner` ends without a disposition. -/
inductive Failure where
  | error (error : StateError)
  | panic (message : String)
  deriving DecidableEq

/-- `Option::expect`. -/
def expect {α : Type*} (value : Option α) (message : String) : Except Failure α :=
  match value with
  | some value => .ok value
  | none => .error (.panic message)

/-- `AppliedFact`. -/
structure AppliedFact where
  cursor : Nat
  fingerprint : SemanticFingerprint

/-- `ApplicationPlan`. -/
structure ApplicationPlan where
  cache : CachePlan
  missingRemoves : Nat
  missingRemovesAreExact : Bool
  applied : List AppliedFact

/-- The largest `u64`. -/
def u64Max : Nat := 2 ^ 64 - 1

/-- `BTreeMap::split_off`, as the part that is kept and the part that is
split off. -/
def splitOff {β : Type*} (m : ExtTreeMap Nat β) (next : Nat) :
    ExtTreeMap Nat β × ExtTreeMap Nat β :=
  (m.filter fun cursor _ => decide (cursor < next), m.filter fun cursor _ => !decide (cursor < next))

/-- `pending_bytes`. -/
def pendingBytesOf {canon : Canonical} (pending : ExtTreeMap Nat (PendingSlot canon)) :
    Except Failure Nat :=
  expect (pending.toList.foldlM (fun total e => checkedAdd total e.2.canonicalBytes) 0)
    "a pending subset cannot exceed its checked total"

namespace StreamState

/-- `StreamState::from_blueprint`. -/
def fromBlueprint {canon : Canonical} (blueprint : StreamBlueprint) : StreamState canon :=
  let registration := blueprint.registration
  let trustedEmpty := decide (registration.authority = .trustDeclaredEmpty)
  { session := blueprint.session
    limits := blueprint.limits
    streamId := registration.streamId
    initialCursor := registration.initialCursor
    certainty := if trustedEmpty then .exact else .unknown
    frontier := none
    baselineUnknown := !trustedEmpty
    viewAuthoritative := trustedEmpty
    poisonCeiling := none
    equivocationCeiling := none
    unavailableFloor := none
    unavailableCeiling := none
    view := CacheView.empty registration.scope
    pending := ∅
    pendingBytes := 0
    recent := ∅
    diagnostics := Diagnostics.default
    failed := false }

/-- `StreamBlueprint::start`. -/
def start {canon : Canonical} (blueprint : StreamBlueprint) (status : SessionStatus)
    (sealedSession : SealedSession) : Except StateError (StreamState canon) := do
  rejectIf (blueprint.session ≠ sealedSession.session) .sessionMismatch
  rejectIf (status ≠ .sealed) .normalizerFailed
  return fromBlueprint blueprint

variable {canon : Canonical} (s : StreamState canon)

/-! ### Field updates -/

/-- Count one event in the diagnostics, up to their ceiling. -/
@[simps] def tally (bump : Nat → Diagnostics → Diagnostics) : StreamState canon :=
  { s with diagnostics := bump s.limits.maxDiagnosticCount.toNat s.diagnostics }

/-- The larger of the two ceilings that are set. -/
def mergeCeilings : Option Nat → Option Nat → Option Nat
  | some left, some right => some (max left right)
  | some value, none => some value
  | none, some value => some value
  | none, none => none

/-- `recompute_poison`. -/
@[simps] def recomputePoison : StreamState canon :=
  { s with poisonCeiling := mergeCeilings s.equivocationCeiling s.unavailableCeiling }

/-- What `recompute_certainty` stores. -/
def certaintyOf : Certainty :=
  if s.baselineUnknown || s.poisonCeiling.isSome then .unknown
  else if s.pending.isEmpty then .exact
  else .recovering

/-- `recompute_certainty`. -/
@[simps] def recomputeCertainty : StreamState canon :=
  { s with certainty := s.certaintyOf }

/-- `set_equivocation`. -/
def setEquivocation (cursor : Nat) (invalidatesView : Bool) : StreamState canon :=
  let s := { s with equivocationCeiling := some (s.equivocationCeiling.elim cursor (max · cursor)) }
  let s := s.recomputePoison
  if invalidatesView then { s with viewAuthoritative := false } else s

/-- `set_unavailable`. -/
def setUnavailable (cursor : Nat) : StreamState canon :=
  let s := { s with
    unavailableFloor := some (s.unavailableFloor.elim cursor (min · cursor))
    unavailableCeiling := some (s.unavailableCeiling.elim cursor (max · cursor)) }
  s.recomputePoison

/-- `retain_fingerprint`: record the applied cursor, then drop the oldest
cursors beyond the window. -/
def retainFingerprint (cursor : Nat) (fingerprint : SemanticFingerprint) : StreamState canon :=
  let recent := s.recent.insert cursor (.candidate fingerprint)
  { s with recent := dropTo s.limits.maxRecentFingerprintsPerStream.toNat recent.size recent }

/-! ### Guards -/

/-- `expected_cursor`. -/
def expectedCursor : Option Nat :=
  match s.frontier with
  | none => some s.initialCursor
  | some frontier => checkedAdd frontier 1

/-- `frontier.is_some_and(|frontier| cursor <= frontier)`. -/
def isPast (cursor : Nat) : Bool := s.frontier.any (cursor ≤ ·)

/-- `eligible_barrier`. -/
def eligibleBarrier (source : PreparedEnvelope canon) : Bool :=
  if !source.hasClear then false
  else if s.isPast source.cursor then false
  else
    match s.certainty with
    | .unknown | .recovering => true
    | .exact => s.expectedCursor.any (· < source.cursor)

/-- `unavailable_blocks`. -/
def unavailableBlocks (source : PreparedEnvelope canon) : Bool :=
  match s.unavailableFloor with
  | none => false
  | some floor =>
      if source.cursor < floor then false
      else if !source.hasClear then true
      else s.unavailableCeiling.all (source.cursor ≤ ·)

/-! ### Redelivery -/

/-- `handle_pending_redelivery`. -/
def handlePendingRedelivery (source : PreparedEnvelope canon) :
    Except Failure (Option (Disposition × StreamState canon)) :=
  match s.pending[source.cursor]? with
  | none => .ok none
  | some slot =>
      match slot.evidence.classify source.fingerprint with
      | .duplicate => .ok (some (.duplicate, s.tally Diagnostics.bumpDuplicate))
      | .conflict first => do
          let pendingBytes ← expect (checkedSub s.pendingBytes slot.canonicalBytes)
            "a pending candidate's bytes must be accounted"
          let s := { s with
            pending := s.pending.insert source.cursor (.conflict first source.fingerprint)
            pendingBytes := pendingBytes }
          return some (.equivocation, (((s.tally Diagnostics.bumpEquivocation).setEquivocation
            source.cursor false).recomputeCertainty))
      | .additionalConflict =>
          .ok (some (.equivocation, (((s.tally Diagnostics.bumpEquivocation).setEquivocation
            source.cursor false).recomputeCertainty)))

/-- `handle_past_delivery`. -/
def handlePastDelivery (source : PreparedEnvelope canon) : Disposition × StreamState canon :=
  match s.recent[source.cursor]? with
  | some slot =>
      match slot.classify source.fingerprint with
      | .duplicate => (.duplicate, s.tally Diagnostics.bumpDuplicate)
      | .conflict first =>
          let s := { s with
            recent := s.recent.insert source.cursor (.conflict first source.fingerprint) }
          (.equivocation, ((s.tally Diagnostics.bumpEquivocation).setEquivocation
            source.cursor true).recomputeCertainty)
      | .additionalConflict =>
          (.equivocation, ((s.tally Diagnostics.bumpEquivocation).setEquivocation
            source.cursor true).recomputeCertainty)
  | none =>
      if source.hasClear then (.staleBarrier, s.tally Diagnostics.bumpStaleBarrier)
      else (.staleUnverifiable, s.tally Diagnostics.bumpStaleUnverifiable)

/-! ### Buffering -/

/-- `observed_bytes` of `buffer`, when the pending ceilings admit it. -/
def pendingRoom (source : PreparedEnvelope canon) : Bool :=
  !(s.pending.size ≥ s.limits.maxPendingEnvelopesPerStream.toNat ||
    (checkedAdd s.pendingBytes source.canonicalBytes).all
      (· > s.limits.maxPendingCanonicalBytesPerStream.toNat))

/-- `buffer`. -/
def buffer (source : PreparedEnvelope canon) (expected : Nat) :
    Except Failure (Disposition × StreamState canon) := do
  let span ← expect (checkedSub source.cursor expected) "attempt to subtract with overflow"
  if span > s.limits.maxGapSpanPerStream.toNat then
    .ok (.gapLimit, ((s.tally Diagnostics.bumpGapLimit).setUnavailable
      source.cursor).recomputeCertainty)
  else if !s.pendingRoom source then
    .ok (.pendingLimit, ((s.tally Diagnostics.bumpPendingLimit).setUnavailable
      source.cursor).recomputeCertainty)
  else do
    let pendingBytes ← expect (checkedAdd s.pendingBytes source.canonicalBytes)
      "checked pending bytes were accepted"
    let s := { s with
      pendingBytes := pendingBytes
      pending := s.pending.insert source.cursor (.candidate source) }
    .ok (.buffered, s.recomputeCertainty)

/-! ### Application -/

/-- `unavailable_floor.is_some_and(|floor| next >= floor)`. -/
def floorReached (next : Nat) : Bool := s.unavailableFloor.any (· ≤ next)

/-- The loop of `application_plan`: fold contiguous pending candidates.
`room` is the distance of `cursor` to the largest `u64`, so the loop ends
there exactly when `cursor.checked_add(1)` is `None`. -/
def drain (supersedes : Bool) :
    (room cursor : Nat) → CacheTransaction → List AppliedFact →
      Except StateError (CacheTransaction × List AppliedFact)
  | 0, _, cache, applied => .ok (cache, applied)
  | room + 1, cursor, cache, applied =>
      if !supersedes && s.floorReached (cursor + 1) then .ok (cache, applied)
      else
        match s.pending[cursor + 1]? with
        | some (.candidate source) => do
            let cache ← cache.apply source.mutations s.limits
            drain supersedes room (cursor + 1) cache
              (applied ++ [⟨cursor + 1, source.fingerprint⟩])
        | _ => .ok (cache, applied)

/-- `barrier_supersedes_unavailable`. -/
def supersedes (cursor : Nat) (barrier : Bool) : Bool :=
  barrier && s.unavailableCeiling.any (· < cursor)

/-- `first.mutations[start..]`. -/
def sliceFrom (mutations : List Mutation) (start : Nat) : Except Failure (List Mutation) :=
  if start ≤ mutations.length then .ok (mutations.drop start)
  else .error (.panic "range start index out of range for slice")

/-- `application_plan`. -/
def applicationPlan (first : PreparedEnvelope canon) (start : Nat) (authoritative : Bool)
    (barrier : Bool) : Except Failure ApplicationPlan := do
  let mutations ← sliceFrom first.mutations start
  let cache ← ((CacheTransaction.new s.view).apply mutations s.limits).mapError Failure.error
  let (cache, applied) ← (s.drain (s.supersedes first.cursor barrier) (u64Max - first.cursor)
    first.cursor cache [⟨first.cursor, first.fingerprint⟩]).mapError Failure.error
  return {
    missingRemoves := cache.finish.missingRemoves
    cache := cache.finish
    missingRemovesAreExact := authoritative
    applied := applied }

/-- The ceilings a barrier leaves behind: one below the barrier is dropped. -/
def dropBelow (ceiling : Option Nat) (cursor : Nat) (value : Option Nat) : Option Nat :=
  if ceiling.any (· < cursor) then none else value

/-- What a barrier discards from the pending map and what it retains. -/
def splitPending (firstCursor : Nat) :
    ExtTreeMap Nat (PendingSlot canon) × ExtTreeMap Nat (PendingSlot canon) :=
  match checkedAdd firstCursor 1 with
  | none => (s.pending, ∅)
  | some next => splitOff s.pending next

/-- The barrier branch of `commit_application`. -/
def commitBarrier (firstCursor : Nat) : Except Failure (StreamState canon) := do
  let discardedBytes ← pendingBytesOf (s.splitPending firstCursor).1
  let pendingBytes ← expect (checkedSub s.pendingBytes discardedBytes)
    "discarded pending bytes must be part of the total"
  let s := { s with
    pending := (s.splitPending firstCursor).2
    pendingBytes := pendingBytes
    recent := ∅
    baselineUnknown := false
    viewAuthoritative := true
    equivocationCeiling := dropBelow s.equivocationCeiling firstCursor s.equivocationCeiling
    unavailableFloor := dropBelow s.unavailableCeiling firstCursor s.unavailableFloor
    unavailableCeiling := dropBelow s.unavailableCeiling firstCursor s.unavailableCeiling }
  return s.recomputePoison

/-- What `commit_application` does before the facts are committed. -/
def commitAnchor (firstCursor : Nat) (barrier : Bool) : Except Failure (StreamState canon) :=
  if barrier then s.commitBarrier firstCursor else .ok s

/-- The pending slot that the fact at `index` drains. -/
def removePending (index cursor : Nat) : Except Failure (StreamState canon) :=
  if index = 0 then .ok s
  else
    match s.pending[cursor]? with
    | none => .ok s
    | some slot => do
        let pendingBytes ← expect (checkedSub s.pendingBytes slot.canonicalBytes)
          "a drained pending candidate's bytes must be accounted"
        return { s with pending := s.pending.erase cursor, pendingBytes := pendingBytes }

/-- One iteration over the applied facts in `commit_application`. -/
def commitFact (fact : AppliedFact) (index : Nat) : Except Failure (StreamState canon) := do
  let s ← s.removePending index fact.cursor
  return { s.retainFingerprint fact.cursor fact.fingerprint with frontier := some fact.cursor }

/-- `commit_application`. -/
def commitApplication (plan : ApplicationPlan) (firstCursor : Nat) (barrier : Bool)
    (authoritative : Bool) : Except Failure (StreamState canon) := do
  let s ← s.commitAnchor firstCursor barrier
  let s := { s with view := plan.cache.commit s.view }
  let s ← plan.applied.zipIdx.foldlM (fun s fact => s.commitFact fact.1 fact.2) s
  let s := { s with viewAuthoritative := if barrier then true else authoritative }
  let s := s.tally (Diagnostics.addMissingRemoves plan.missingRemovesAreExact plan.missingRemoves)
  return s.recomputeCertainty

/-- The first mutation that `apply_source` folds: a barrier starts at its
first clear. -/
def applicationStart (source : PreparedEnvelope canon) (barrier : Bool) : Except Failure Nat :=
  if barrier then expect source.firstClear "barrier eligibility requires a clear mutation"
  else .ok 0

/-- `apply_source`. -/
def applySource (source : PreparedEnvelope canon) (barrier : Bool) :
    Except Failure (Disposition × StreamState canon) := do
  let start ← applicationStart source barrier
  let authoritative := if barrier then true else s.viewAuthoritative
  let plan ← s.applicationPlan source start authoritative barrier
  let s ← s.commitApplication plan source.cursor barrier authoritative
  return (if barrier then .barrierApplied else .applied, s)

/-! ### Admission -/

/-- The last part of `admit_inner`: a delivery against the expected cursor. -/
def admitExpected (source : PreparedEnvelope canon) :
    Except Failure (Disposition × StreamState canon) :=
  match s.expectedCursor with
  | some expected =>
      if source.cursor = expected then s.applySource source false
      else if source.cursor > expected then s.buffer source expected
      else .ok (s.handlePastDelivery source)
  | none => .ok (s.handlePastDelivery source)

/-- `admit_inner` after the ownership checks and the pending redelivery. -/
def admitFresh (source : PreparedEnvelope canon) :
    Except Failure (Disposition × StreamState canon) :=
  if s.isPast source.cursor then .ok (s.handlePastDelivery source)
  else if s.unavailableBlocks source then
    .ok (.unverifiableGap, ((s.setUnavailable source.cursor).tally
      Diagnostics.bumpUnverifiableGap).recomputeCertainty)
  else if s.eligibleBarrier source then s.applySource source true
  else if s.baselineUnknown && s.frontier.isNone then s.applySource source false
  else s.admitExpected source

/-- `admit_inner`. -/
def admitInner (source : PreparedEnvelope canon) :
    Except Failure (Disposition × StreamState canon) := do
  rejectIf (s.session ≠ source.session) (.error .sessionMismatch)
  rejectIf (source.streamId ≠ s.streamId) (.error .streamMismatch)
  rejectIf (source.cursor < s.initialCursor) (.error .cursorBeforeInitial)
  match ← s.handlePendingRedelivery source with
  | some result => .ok result
  | none => s.admitFresh source

/-- `admit`. -/
def admitDelivery (status : SessionStatus) (source : PreparedEnvelope canon) :
    Except Failure Disposition × StreamState canon :=
  if s.failed then (.error (.error .stateFailed), s)
  else if status = .failed then (.error (.error .normalizerFailed), s)
  else
    match s.admitInner source with
    | .ok (disposition, s) => (.ok disposition, s)
    | .error failure => (.error failure, { s with failed := true })

/-- `unknown_reasons`. -/
def unknownReasons : UnknownReasons :=
  UnknownReasons.active s.baselineUnknown s.equivocationCeiling.isSome s.unavailableFloor.isSome

end StreamState

/-! ### Finalization -/

/-- `StreamSummary`. -/
structure StreamSummary where
  certainty : Certainty
  frontier : Option Nat
  viewAuthoritative : Bool
  view : CacheView
  pendingEnvelopes : Nat
  pendingCanonicalBytes : Nat
  recentFingerprints : Nat
  fingerprintWindow : Nat
  reasons : UnknownReasons
  diagnostics : Diagnostics
  deriving DecidableEq

/-- `StreamState::finish`. -/
def StreamState.finish {canon : Canonical} (s : StreamState canon) (status : SessionStatus)
    (sealedSession : SealedSession) : Except StateError StreamSummary := do
  rejectIf (s.failed = true) .stateFailed
  rejectIf (s.session ≠ sealedSession.session) .sessionMismatch
  rejectIf (status ≠ .sealed) .normalizerFailed
  let unclosedGap := !s.pending.isEmpty
  let s := if unclosedGap then
      { s.tally Diagnostics.bumpUnclosedGap with certainty := .unknown }
    else s
  return {
    certainty := s.certainty
    frontier := s.frontier
    viewAuthoritative := s.viewAuthoritative
    view := s.view
    pendingEnvelopes := s.pending.size
    pendingCanonicalBytes := s.pendingBytes
    recentFingerprints := s.recent.size
    fingerprintWindow := s.limits.maxRecentFingerprintsPerStream.toNat
    reasons := s.unknownReasons.withUnclosedGap unclosedGap
    diagnostics := s.diagnostics }

end KvCrucible
