/-
KvCrucible/WellFormed.lean

What a well-formed trace is, without any running state.

The totals of a record sequence are within their ceilings, its identities are
pairwise different, and every record is in place after the records before it:
the header comes first and only there, an envelope names a declared stream and
carries evidence of the declared kind, a schedule can be replayed.  Only
`wellFormed_snoc` is about growth: it says what one more record must respect.
-/
import KvCrucible.Basis.Before
import KvCrucible.Replay

namespace KvCrucible

open Basis Std

/-! ### Reading a record sequence -/

/-- The header in a record. -/
@[simp] def Record.header? : Record → Option TraceHeader
  | .traceHeader value => some value
  | _ => none

/-- The stream declaration in a record. -/
@[simp] def Record.stream? : Record → Option StreamDeclaration
  | .stream value => some value
  | _ => none

/-- The envelope in a record. -/
@[simp] def Record.envelope? : Record → Option EventEnvelope
  | .envelope value => some value
  | _ => none

/-- The schedule in a record. -/
@[simp] def Record.schedule? : Record → Option FaultSchedule
  | .faultSchedule value => some value
  | _ => none

/-- The retained identity strings of a record. -/
@[simp] def Record.identities : Record → List String
  | .traceHeader _ => []
  | .stream value => value.identities
  | .envelope value => [value.envelopeId]
  | .faultSchedule value => [value.scheduleId]

section Projections

variable (records : List Record)

def headersOf : List TraceHeader := records.filterMap Record.header?

def streamsOf : List StreamDeclaration := records.filterMap Record.stream?

def envelopesOf : List EventEnvelope := records.filterMap Record.envelope?

def schedulesOf : List FaultSchedule := records.filterMap Record.schedule?

def streamIdsOf : List String := (streamsOf records).map (·.streamId)

def envelopeIdsOf : List String := (envelopesOf records).map (·.envelopeId)

def scheduleIdsOf : List String := (schedulesOf records).map (·.scheduleId)

/-- The actions of all schedules. -/
def faultActionsOf : Nat := ((schedulesOf records).map (·.actions.length)).sum

/-- The bytes of all retained identities. -/
def identityBytesOf : Nat := (records.map fun record => (record.identities.map len).sum).sum

/-- The work of a schedule: its prefix and the copies it asks for. -/
@[simp] def workOf (before : List Record) : Record → Option Nat
  | .faultSchedule schedule => some ((envelopeIdsOf before).length + totalCopies schedule.actions)
  | _ => none

/-- The work of all schedules, each over its own prefix. -/
def scheduleWorkOf : Nat := (filterMapBefore workOf [] records).sum

/-- The plan of a schedule after `before`. -/
@[simp] def planOf (before : List Record) : Record → Option SchedulePlan
  | .faultSchedule schedule => some {
      id := schedule.scheduleId
      streamPrefixLen := (streamIdsOf before).length
      prefixLen := (envelopeIdsOf before).length
      actions := Replay.plannedAll (envelopeIdsOf before)
        (Replay.start (envelopeIdsOf before).length) schedule.actions }
  | _ => none

/-- The plans of all schedules, each over its own prefix. -/
def plansOf : List SchedulePlan := filterMapBefore planOf [] records

end Projections

section Append

variable {before after : List Record}

theorem envelopesOf_append :
    envelopesOf (before ++ after) = envelopesOf before ++ envelopesOf after :=
  List.filterMap_append

theorem streamIdsOf_append :
    streamIdsOf (before ++ after) = streamIdsOf before ++ streamIdsOf after := by
  rw [streamIdsOf, streamsOf, List.filterMap_append, List.map_append]
  rfl

end Append

section Snoc

variable {records : List Record} {record : Record}

theorem headersOf_snoc :
    headersOf (records ++ [record]) = headersOf records ++ record.header?.toList :=
  filterMap_snoc

theorem streamsOf_snoc :
    streamsOf (records ++ [record]) = streamsOf records ++ record.stream?.toList :=
  filterMap_snoc

theorem envelopesOf_snoc :
    envelopesOf (records ++ [record]) = envelopesOf records ++ record.envelope?.toList :=
  filterMap_snoc

theorem schedulesOf_snoc :
    schedulesOf (records ++ [record]) = schedulesOf records ++ record.schedule?.toList :=
  filterMap_snoc

theorem streamIdsOf_snoc : streamIdsOf (records ++ [record]) =
    streamIdsOf records ++ record.stream?.toList.map (·.streamId) := by
  rw [streamIdsOf, streamsOf_snoc, List.map_append]
  rfl

theorem envelopeIdsOf_snoc : envelopeIdsOf (records ++ [record]) =
    envelopeIdsOf records ++ record.envelope?.toList.map (·.envelopeId) := by
  rw [envelopeIdsOf, envelopesOf_snoc, List.map_append]
  rfl

theorem scheduleIdsOf_snoc : scheduleIdsOf (records ++ [record]) =
    scheduleIdsOf records ++ record.schedule?.toList.map (·.scheduleId) := by
  rw [scheduleIdsOf, schedulesOf_snoc, List.map_append]
  rfl

theorem faultActionsOf_snoc : faultActionsOf (records ++ [record]) =
    faultActionsOf records + (record.schedule?.toList.map (·.actions.length)).sum := by
  rw [faultActionsOf, schedulesOf_snoc, List.map_append, List.sum_append]
  rfl

theorem identityBytesOf_snoc : identityBytesOf (records ++ [record]) =
    identityBytesOf records + (record.identities.map len).sum := by
  rw [identityBytesOf, List.map_append, List.sum_append, List.map_singleton, List.sum_singleton]
  rfl

theorem scheduleWorkOf_snoc : scheduleWorkOf (records ++ [record]) =
    scheduleWorkOf records + (workOf records record).toList.sum := by
  rw [scheduleWorkOf, filterMapBefore_snoc, List.sum_append, List.nil_append]
  rfl

theorem plansOf_snoc : plansOf (records ++ [record]) =
    plansOf records ++ (planOf records record).toList :=
  filterMapBefore_snoc

end Snoc

/-! ### Well-formed traces -/

/-- All token evidence of an envelope matches a redaction mode. -/
def EventEnvelope.Matches (envelope : EventEnvelope) (redaction : RedactionMode) : Prop :=
  ∀ mutation ∈ envelope.mutations, ∀ evidence, mutation.tokenEvidence = some evidence →
    evidenceMatches redaction (tokenEvidenceKind evidence) = true

/-- An envelope names an earlier stream and does not undercut its first
cursor. -/
def Declared (before : List Record) (envelope : EventEnvelope) : Prop :=
  ∃ stream ∈ streamsOf before, stream.streamId = envelope.streamId ∧
    stream.initialCursor.get.toNat ≤ envelope.cursor.get.toNat

/-- A schedule can be replayed over the earlier envelopes, with as many
occurrences as it may have. -/
def Replayable (limits : Limits) (before : List Record) (schedule : FaultSchedule) : Prop :=
  Replay.AllowsAll (envelopeIdsOf before) (Replay.start (envelopeIdsOf before).length)
      schedule.actions ∧
    (envelopeIdsOf before).length + totalCopies schedule.actions ≤
      limits.maxOccurrencesPerSchedule.toNat

/-- What a record asks of the records before it. -/
def InPlace (limits : Limits) (before : List Record) : Record → Prop
  | .traceHeader _ => before = []
  | .stream _ => before ≠ []
  | .envelope envelope => before ≠ [] ∧ Declared before envelope ∧
      ∀ header ∈ headersOf before, envelope.Matches header.redaction
  | .faultSchedule schedule => before ≠ [] ∧ Replayable limits before schedule

/-- A well-formed beginning of a trace. -/
@[mk_iff]
structure WellFormed (limits : Limits) (records : List Record) : Prop where
  valid : ∀ record ∈ records, record.validate limits = .ok ()
  inPlace : ForallBefore (InPlace limits) records
  streamIds : (streamIdsOf records).Nodup
  streamIdentities : ((streamsOf records).map StreamIdentity.ofStream).Nodup
  envelopeIds : (envelopeIdsOf records).Nodup
  scheduleIds : (scheduleIdsOf records).Nodup
  records_le : records.length ≤ limits.maxRecordsPerTrace.toNat
  streams_le : (streamsOf records).length ≤ limits.maxStreamsPerTrace.toNat
  envelopes_le : (envelopesOf records).length ≤ limits.maxEnvelopesPerTrace.toNat
  schedules_le : (schedulesOf records).length ≤ limits.maxFaultSchedulesPerTrace.toNat
  faultActions_le : faultActionsOf records ≤ limits.maxFaultActionsPerTrace.toNat
  identityBytes_le : identityBytesOf records ≤ limits.maxIdentityBytesPerTrace.toNat
  scheduleWork_le : scheduleWorkOf records ≤ limits.maxScheduleWorkPerTrace.toNat

/-- What a record must respect besides its place. -/
def Fits (limits : Limits) (before : List Record) : Record → Prop
  | .traceHeader _ => True
  | .stream stream => stream.streamId ∉ streamIdsOf before ∧
      StreamIdentity.ofStream stream ∉ (streamsOf before).map StreamIdentity.ofStream ∧
      (streamsOf before).length + 1 ≤ limits.maxStreamsPerTrace.toNat ∧
      identityBytesOf before + (stream.identities.map len).sum ≤
        limits.maxIdentityBytesPerTrace.toNat
  | .envelope envelope => envelope.envelopeId ∉ envelopeIdsOf before ∧
      (envelopesOf before).length + 1 ≤ limits.maxEnvelopesPerTrace.toNat ∧
      identityBytesOf before + len envelope.envelopeId ≤ limits.maxIdentityBytesPerTrace.toNat
  | .faultSchedule schedule => schedule.scheduleId ∉ scheduleIdsOf before ∧
      (schedulesOf before).length + 1 ≤ limits.maxFaultSchedulesPerTrace.toNat ∧
      faultActionsOf before + schedule.actions.length ≤ limits.maxFaultActionsPerTrace.toNat ∧
      identityBytesOf before + len schedule.scheduleId ≤ limits.maxIdentityBytesPerTrace.toNat ∧
      scheduleWorkOf before + ((envelopeIdsOf before).length + totalCopies schedule.actions) ≤
        limits.maxScheduleWorkPerTrace.toNat

theorem wellFormed_nil (limits : Limits) : WellFormed limits [] := by
  constructor <;> simp [streamIdsOf, streamsOf, envelopeIdsOf, envelopesOf, scheduleIdsOf,
    schedulesOf, faultActionsOf, identityBytesOf, scheduleWorkOf, filterMapBefore]

theorem wellFormed_snoc {limits : Limits} {before : List Record} {record : Record} :
    WellFormed limits (before ++ [record]) ↔ WellFormed limits before ∧
      record.validate limits = .ok () ∧ InPlace limits before record ∧
      before.length + 1 ≤ limits.maxRecordsPerTrace.toNat ∧ Fits limits before record := by
  simp only [wellFormed_iff, List.forall_mem_append, List.forall_mem_singleton,
    forallBefore_snoc, streamIdsOf_snoc, streamsOf_snoc, envelopeIdsOf_snoc, envelopesOf_snoc,
    scheduleIdsOf_snoc, schedulesOf_snoc, faultActionsOf_snoc, identityBytesOf_snoc,
    scheduleWorkOf_snoc, List.length_append]
  -- a total that grew is within its ceiling only if it was before
  cases record with
  | traceHeader header =>
      simp only [Record.stream?, Record.envelope?, Record.schedule?, Record.identities, workOf,
        Option.toList_none, List.map_nil, List.append_nil, List.length_singleton,
        List.length_nil, List.sum_nil, Nat.add_zero, Fits]
      grind
  | stream stream =>
      simp only [Record.stream?, Record.envelope?, Record.schedule?, Record.identities, workOf,
        Option.toList_none, Option.toList_some, List.map_nil, List.append_nil, List.map_append,
        List.map_singleton, nodup_snoc, List.length_singleton, List.length_nil, List.sum_nil,
        Nat.add_zero, Fits]
      grind
  | envelope envelope =>
      simp only [Record.stream?, Record.envelope?, Record.schedule?, Record.identities, workOf,
        Option.toList_none, Option.toList_some, List.map_nil, List.append_nil, List.map_singleton,
        nodup_snoc, List.length_singleton, List.length_nil, List.sum_nil, List.sum_singleton,
        Nat.add_zero, Fits]
      grind
  | faultSchedule schedule =>
      simp only [Record.stream?, Record.envelope?, Record.schedule?, Record.identities, workOf,
        Option.toList_none, Option.toList_some, List.map_nil, List.append_nil, List.map_singleton,
        nodup_snoc, List.length_singleton, List.length_nil, List.sum_singleton, Nat.add_zero, Fits]
      grind

theorem WellFormed.of_append {limits : Limits} {before after : List Record}
    (h : WellFormed limits (before ++ after)) : WellFormed limits before := by
  induction after using List.reverseRecOn with
  | nil => rwa [List.append_nil] at h
  | append_singleton after record ih =>
      rw [← List.append_assoc] at h
      exact ih (wellFormed_snoc.mp h).1

end KvCrucible
