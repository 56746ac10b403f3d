/-
KvCrucible/Trace.lean

Streaming structural validation of a trace (`TraceValidator` in `trace.rs`).

A validator accepts records one by one.  It keeps the identities seen so far,
a plan for every schedule with its references resolved to numbers, and three
running totals.  The first failure is sticky and nothing of a half-done record
can be observed after it, so a failing `pushInner` is just an error here.

The numeric identity of a delivery is a `DeliveryKey`: the position of its
physical envelope and an occurrence number, `u16` in the source.
-/
import KvCrucible.Validate

namespace KvCrucible

open Basis Std

/-! ### Errors -/

/-- `trace::Resource`. -/
inductive Resource where
  | records
  | streams
  | envelopes
  | faultSchedules
  | faultActions
  | identityBytes
  | scheduleOccurrences
  | scheduleWork
  deriving DecidableEq

/-- `DeliveryRole`: the position of a delivery reference inside an action. -/
inductive DeliveryRole where
  | target
  | anchor
  deriving DecidableEq

/-- `TokenEvidenceKind`. -/
inductive TokenEvidenceKind where
  | keyedDigest
  | unkeyedDigest
  | tokenIds
  deriving DecidableEq

/-- `trace::Error`. -/
inductive TraceError where
  | unsupportedDepthLimit (configured maximum : Nat)
  | validatorFailed
  | missingHeader
  | headerNotFirst (record : Nat)
  | duplicateHeader (record : Nat)
  | recordValidation (record : Nat) (error : ValidationError)
  | resourceLimit (record : Nat) (resource : Resource) (maximum observed : Nat)
  | counterOverflow (record : Nat)
  | duplicateStreamId (record : Nat)
  | duplicateStreamIdentity (record : Nat)
  | undeclaredStream (record : Nat)
  | cursorBeforeInitial (record : Nat)
  | duplicateEnvelopeId (record : Nat)
  | tokenEvidenceRedactionMismatch (record mutation : Nat) (expected : RedactionMode)
      (observed : TokenEvidenceKind)
  | duplicateScheduleId (record : Nat)
  | faultEnvelopeNotPrior (record action : Nat) (role : DeliveryRole)
  | faultOccurrenceNotCreated (record action : Nat) (role : DeliveryRole)
  | faultOccurrenceRemoved (record action : Nat) (role : DeliveryRole)
  | faultOccurrenceOverflow (record action : Nat)
  deriving DecidableEq

/-- `checked_limit`. -/
def checkedLimit (record : Nat) (resource : Resource) (current added : Nat) (maximum : UInt64) :
    Except TraceError Nat := do
  let observed ← okOr (checkedAdd current added) (.counterOverflow record)
  rejectIf (observed > maximum.toNat) (.resourceLimit record resource maximum.toNat observed)
  return observed

/-- `count_len`. -/
def countLen (length record : Nat) : Except TraceError Nat :=
  if length < 2 ^ 64 then .ok length else .error (.counterOverflow record)

/-- One value of `checked_identity_bytes`. -/
def addIdentityBytes (record added : Nat) (value : String) : Except TraceError Nat := do
  let length ← countLen (len value) record
  okOr (checkedAdd added length) (.counterOverflow record)

/-- `checked_identity_bytes`. -/
def checkedIdentityBytes (record current : Nat) (values : List String) (maximum : UInt64) :
    Except TraceError Nat := do
  let added ← values.foldlM (addIdentityBytes record) 0
  checkedLimit record .identityBytes current added maximum

/-! ### Plans -/

/-- `DeliveryKey`, with the position of the `SourceIndex`. -/
structure DeliveryKey where
  source : Nat
  occurrence : Nat
  deriving DecidableEq

/-- The derived order of `DeliveryKey`. -/
instance : Ord DeliveryKey :=
  ⟨compareLex (compareOn DeliveryKey.source) (compareOn DeliveryKey.occurrence)⟩

instance : TransOrd DeliveryKey :=
  inferInstanceAs
    (TransCmp (compareLex (compareOn DeliveryKey.source) (compareOn DeliveryKey.occurrence)))

instance : LawfulEqOrd DeliveryKey where
  eq_of_compare {a b} h := by
    obtain ⟨hsource, hoccurrence⟩ :
        compare a.source b.source = .eq ∧ compare a.occurrence b.occurrence = .eq := by
      simpa [compare, compareLex, compareOn, Ordering.then_eq_eq] using h
    cases a
    cases b
    simp_all

/-- `PlannedAction`. -/
inductive PlannedAction where
  | drop (target : DeliveryKey)
  | duplicate (target : DeliveryKey) (firstOccurrence copies : Nat)
  | moveBefore (target anchor : DeliveryKey)
  deriving DecidableEq

/-- `SchedulePlan`. -/
structure SchedulePlan where
  id : String
  streamPrefixLen : Nat
  prefixLen : Nat
  actions : List PlannedAction
  deriving DecidableEq

/-- `TraceSummary`. -/
structure TraceSummary where
  records : Nat
  streams : Nat
  envelopes : Nat
  faultSchedules : Nat
  faultActions : Nat
  identityBytes : Nat
  scheduleWork : Nat
  redaction : RedactionMode
  deriving DecidableEq

/-- `ValidatedTracePlan`. -/
structure ValidatedTracePlan where
  summary : TraceSummary
  limits : Limits
  streamIds : List String
  envelopeIds : List String
  schedules : List SchedulePlan

/-! ### The validator -/

/-- `HeaderFacts`. -/
structure HeaderFacts where
  redaction : RedactionMode

/-- `StreamFacts`. -/
structure StreamFacts where
  initialCursor : Nat

/-- `StreamIdentity`. -/
structure StreamIdentity where
  engine : String
  engineVersion : String
  engineInstance : String
  publisher : String
  dataParallelRank : UInt32
  epoch : String
  deriving DecidableEq

/-- `StreamIdentity::from`. -/
def StreamIdentity.ofStream (stream : StreamDeclaration) : StreamIdentity where
  engine := stream.engine
  engineVersion := stream.engineVersion
  engineInstance := stream.engineInstance
  publisher := stream.publisher
  dataParallelRank := stream.dataParallelRank
  epoch := stream.epoch

/-- The identity strings of a stream that `push_stream` counts. -/
def StreamDeclaration.identities (stream : StreamDeclaration) : List String :=
  [stream.streamId, stream.engine, stream.engineVersion, stream.engineInstance, stream.publisher,
    stream.epoch]

/-- `token_evidence_kind`. -/
def tokenEvidenceKind : TokenEvidence → TokenEvidenceKind
  | .keyedDigest _ _ _ => .keyedDigest
  | .unkeyedDigest _ _ => .unkeyedDigest
  | .tokenIds _ => .tokenIds

/-- `evidence_matches`. -/
def evidenceMatches : RedactionMode → TokenEvidenceKind → Bool
  | .keyedDigests, .keyedDigest => true
  | .unkeyedLinkable, .unkeyedDigest => true
  | .containsTokenIds, .tokenIds => true
  | _, _ => false

/-- The token evidence of a mutation. -/
def Mutation.tokenEvidence : Mutation → Option TokenEvidence
  | .storeRun run => run.tokenEvidence
  | _ => none

/-- One mutation of `validate_redaction`. -/
def checkRedaction (record : Nat) (redaction : RedactionMode) (mutation : Nat)
    (value : Mutation) : Except TraceError Unit :=
  match value.tokenEvidence with
  | some evidence =>
      rejectIf (evidenceMatches redaction (tokenEvidenceKind evidence) = false)
        (.tokenEvidenceRedactionMismatch record mutation redaction (tokenEvidenceKind evidence))
  | none => .ok ()

/-- `validate_redaction`. -/
def validateRedaction (record : Nat) (redaction : RedactionMode) (mutations : List Mutation) :
    Except TraceError Unit :=
  mutations.zipIdx.forM fun value => checkRedaction record redaction value.2 value.1

/-- The locals of `plan_schedule` between two actions. -/
structure PlanState where
  occurrences : Nat
  work : Nat
  nextOccurrence : ExtTreeMap Nat Nat
  removed : Finset DeliveryKey
  actions : List PlannedAction

/-- `next_occurrence.get(source).copied().unwrap_or(1)`. -/
def PlanState.next (plan : PlanState) (source : Nat) : Nat :=
  (plan.nextOccurrence[source]?).getD 1

/-- `u32::checked_add`. -/
def checkedAddU32 (a b : Nat) : Option Nat := if a + b < 2 ^ 32 then some (a + b) else none

/-- `u16::try_from`. -/
def toU16 (value : Nat) : Option Nat := if value < 2 ^ 16 then some value else none

/-- The largest `u16`. -/
def u16Max : Nat := 2 ^ 16 - 1

/-- `TraceValidator`. -/
structure TraceValidator where
  limits : Limits
  records : Nat
  header : Option HeaderFacts
  streams : ExtTreeMap String StreamFacts
  streamOrder : List String
  streamIdentities : Finset StreamIdentity
  envelopes : ExtTreeMap String Nat
  envelopeOrder : List String
  schedules : Finset String
  schedulePlans : List SchedulePlan
  faultActions : Nat
  identityBytes : Nat
  scheduleWork : Nat
  failed : Bool

namespace TraceValidator

/-- An empty validator. -/
def empty (limits : Limits) : TraceValidator where
  limits := limits
  records := 0
  header := none
  streams := ∅
  streamOrder := []
  streamIdentities := ∅
  envelopes := ∅
  envelopeOrder := []
  schedules := ∅
  schedulePlans := []
  faultActions := 0
  identityBytes := 0
  scheduleWork := 0
  failed := false

/-- `TraceValidator::new`. -/
def new (limits : Limits) : Except TraceError TraceValidator := do
  rejectIf (limits.maxDepth.toNat > maxJsonDepth)
    (.unsupportedDepthLimit limits.maxDepth.toNat maxJsonDepth)
  return empty limits

variable (v : TraceValidator)

/-! ### Streams and envelopes -/

/-- `push_stream`. -/
def pushStream (record : Nat) (stream : StreamDeclaration) : Except TraceError TraceValidator := do
  rejectIf (stream.streamId ∈ v.streams) (.duplicateStreamId record)
  let identity := StreamIdentity.ofStream stream
  rejectIf (identity ∈ v.streamIdentities) (.duplicateStreamIdentity record)
  let count ← countLen v.streams.size record
  let _ ← checkedLimit record .streams count 1 v.limits.maxStreamsPerTrace
  let identityBytes ← checkedIdentityBytes record v.identityBytes stream.identities
    v.limits.maxIdentityBytesPerTrace
  return { v with
    streams := v.streams.insert stream.streamId ⟨stream.initialCursor.get.toNat⟩
    streamOrder := v.streamOrder ++ [stream.streamId]
    streamIdentities := insert identity v.streamIdentities
    identityBytes := identityBytes }

/-- `push_envelope`. -/
def pushEnvelope (record : Nat) (envelope : EventEnvelope) :
    Except TraceError TraceValidator := do
  rejectIf (envelope.envelopeId ∈ v.envelopes) (.duplicateEnvelopeId record)
  let count ← countLen v.envelopes.size record
  let _ ← checkedLimit record .envelopes count 1 v.limits.maxEnvelopesPerTrace
  let stream ← okOr v.streams[envelope.streamId]? (.undeclaredStream record)
  rejectIf (envelope.cursor.get.toNat < stream.initialCursor) (.cursorBeforeInitial record)
  let header ← okOr v.header (.headerNotFirst record)
  validateRedaction record header.redaction envelope.mutations
  let identityBytes ← checkedIdentityBytes record v.identityBytes [envelope.envelopeId]
    v.limits.maxIdentityBytesPerTrace
  return { v with
    envelopes := v.envelopes.insert envelope.envelopeId v.envelopeOrder.length
    envelopeOrder := v.envelopeOrder ++ [envelope.envelopeId]
    identityBytes := identityBytes }

/-! ### Schedules -/

/-- `resolve_delivery`. -/
def resolveDelivery (record action : Nat) (delivery : DeliveryRef) (role : DeliveryRole)
    (plan : PlanState) : Except TraceError DeliveryKey := do
  let source ← okOr v.envelopes[delivery.envelopeId]? (.faultEnvelopeNotPrior record action role)
  rejectIf (delivery.occurrence.toNat ≥ plan.next source)
    (.faultOccurrenceNotCreated record action role)
  let key : DeliveryKey := ⟨source, delivery.occurrence.toNat⟩
  rejectIf (key ∈ plan.removed) (.faultOccurrenceRemoved record action role)
  return key

/-- One action of `plan_schedule`. -/
def planAction (record : Nat) (plan : PlanState) (action : Nat) :
    FaultAction → Except TraceError PlanState
  | .drop target => do
      let target ← v.resolveDelivery record action target .target plan
      return { plan with
        removed := insert target plan.removed
        actions := plan.actions ++ [.drop target] }
  | .duplicate target copies => do
      let target ← v.resolveDelivery record action target .target plan
      let next := plan.next target.source
      let newNext ← okOr (checkedAddU32 next copies.toNat) (.faultOccurrenceOverflow record action)
      rejectIf (newNext > u16Max + 1) (.faultOccurrenceOverflow record action)
      let firstOccurrence ← okOr (toU16 next) (.faultOccurrenceOverflow record action)
      let occurrences ← checkedLimit record .scheduleOccurrences plan.occurrences copies.toNat
        v.limits.maxOccurrencesPerSchedule
      let work ← okOr (checkedAdd plan.work copies.toNat) (.counterOverflow record)
      let _ ← checkedLimit record .scheduleWork v.scheduleWork work
        v.limits.maxScheduleWorkPerTrace
      return { plan with
        occurrences := occurrences
        work := work
        nextOccurrence := plan.nextOccurrence.insert target.source newNext
        actions := plan.actions ++ [.duplicate target firstOccurrence copies.toNat] }
  | .moveBefore target anchor => do
      let target ← v.resolveDelivery record action target .target plan
      let anchor ← v.resolveDelivery record action anchor .anchor plan
      return { plan with actions := plan.actions ++ [.moveBefore target anchor] }

/-- `plan_schedule`: the work of the schedule and its resolved actions. -/
def planSchedule (record : Nat) (schedule : FaultSchedule) :
    Except TraceError (Nat × List PlannedAction) := do
  let prefixLen ← countLen v.envelopes.size record
  let occurrences ← checkedLimit record .scheduleOccurrences 0 prefixLen
    v.limits.maxOccurrencesPerSchedule
  let plan ← schedule.actions.zipIdx.foldlM
    (fun plan action => v.planAction record plan action.2 action.1)
    { occurrences := occurrences, work := prefixLen, nextOccurrence := ∅, removed := ∅,
      actions := [] }
  return (plan.work, plan.actions)

/-- `push_schedule`. -/
def pushSchedule (record : Nat) (schedule : FaultSchedule) : Except TraceError TraceValidator := do
  rejectIf (schedule.scheduleId ∈ v.schedules) (.duplicateScheduleId record)
  let count ← countLen v.schedules.card record
  let _ ← checkedLimit record .faultSchedules count 1 v.limits.maxFaultSchedulesPerTrace
  let actionCount ← countLen schedule.actions.length record
  let faultActions ← checkedLimit record .faultActions v.faultActions actionCount
    v.limits.maxFaultActionsPerTrace
  let identityBytes ← checkedIdentityBytes record v.identityBytes [schedule.scheduleId]
    v.limits.maxIdentityBytesPerTrace
  let planned ← v.planSchedule record schedule
  let scheduleWork ← checkedLimit record .scheduleWork v.scheduleWork planned.1
    v.limits.maxScheduleWorkPerTrace
  return { v with
    schedules := insert schedule.scheduleId v.schedules
    schedulePlans := v.schedulePlans ++ [{
      id := schedule.scheduleId
      streamPrefixLen := v.streamOrder.length
      prefixLen := v.envelopeOrder.length
      actions := planned.2 }]
    faultActions := faultActions
    identityBytes := identityBytes
    scheduleWork := scheduleWork }

/-! ### Records -/

/-- The record kinds of `push_inner`. -/
def pushRecord (index : Nat) : Record → Except TraceError TraceValidator
  | .traceHeader header =>
      if index = 0 then .ok { v with header := some ⟨header.redaction⟩ }
      else .error (.duplicateHeader index)
  | .stream stream =>
      if index = 0 then .error (.headerNotFirst index) else v.pushStream index stream
  | .envelope envelope =>
      if index = 0 then .error (.headerNotFirst index) else v.pushEnvelope index envelope
  | .faultSchedule schedule =>
      if index = 0 then .error (.headerNotFirst index) else v.pushSchedule index schedule

/-- `push_inner`. -/
def pushInner (record : ValidatedRecord) : Except TraceError TraceValidator := do
  let index := v.records
  let _ ← checkedLimit index .records v.records 1 v.limits.maxRecordsPerTrace
  (record.asRecord.validate v.limits).mapError (.recordValidation index)
  let v ← v.pushRecord index record.asRecord
  let records ← okOr (checkedAdd v.records 1) (.counterOverflow index)
  return { v with records := records }

/-- `push`. -/
def push (record : ValidatedRecord) : Except TraceError Unit × TraceValidator :=
  if v.failed then (.error .validatorFailed, v)
  else
    match v.pushInner record with
    | .ok v => (.ok (), v)
    | .error error => (.error error, { v with failed := true })

/-- `finish_planned`. -/
def finishPlanned : Except TraceError ValidatedTracePlan := do
  rejectIf (v.failed = true) .validatorFailed
  let header ← okOr v.header .missingHeader
  let streams ← countLen v.streams.size v.records
  let envelopes ← countLen v.envelopes.size v.records
  let faultSchedules ← countLen v.schedules.card v.records
  return {
    summary := {
      records := v.records
      streams := streams
      envelopes := envelopes
      faultSchedules := faultSchedules
      faultActions := v.faultActions
      identityBytes := v.identityBytes
      scheduleWork := v.scheduleWork
      redaction := header.redaction }
    limits := v.limits
    streamIds := v.streamOrder
    envelopeIds := v.envelopeOrder
    schedules := v.schedulePlans }

/-- `finish`. -/
def finish : Except TraceError TraceSummary := v.finishPlanned.map ValidatedTracePlan.summary

/-- Push a whole sequence, whatever the single pushes return. -/
def pushAll (records : List ValidatedRecord) : TraceValidator :=
  records.foldl (fun v record => (v.push record).2) v

/-- `push`, for a caller that stops at the first error. -/
def tryPush (record : ValidatedRecord) : Except TraceError TraceValidator :=
  (v.push record).1.map fun _ => (v.push record).2

end TraceValidator

/-- `validate_trace`. -/
def validateTrace (records : List ValidatedRecord) (limits : Limits) :
    Except TraceError TraceSummary := do
  let v ← TraceValidator.new limits
  let v ← records.foldlM TraceValidator.tryPush v
  v.finish

end KvCrucible
