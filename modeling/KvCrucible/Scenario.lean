/-
KvCrucible/Scenario.lean

Coordinated assembly of a trace and the comparison of its schedules
(`scenario.rs`).

A `TraceAssembler` drives one validator and one normalizer with the same
records; at EOF it binds both into a `SealedTrace`.  A schedule of that trace
is materialized through a doubly linked `DeliveryArena` and executed twice,
pristine and faulted, over fresh stream states.

What the source indexes or slices unchecked is a `ScenarioFailure.panic`.
Every `try_reserve_exact` asks the `Allocator` argument, which may refuse any
of them.  A `SealedSession` exists only after its session was sealed, and
nothing changes a sealed session, so states are driven under `.sealed`.
-/
import KvCrucible.Compare
import KvCrucible.Trace

namespace KvCrucible

open Basis Std

/-! ### Errors and reservations -/

/-- `ExecutionMode`. -/
inductive ExecutionMode where
  | pristine
  | faulted
  deriving DecidableEq

/-- `scenario::Error`. -/
inductive ScenarioError where
  | assemblerFailed
  | baselineAuthorityRequired
  | unexpectedBaselineAuthority
  | trace (error : TraceError)
  | normalization (error : StateError)
  | assemblyInvariant
  | assemblyCapacity
  | scheduleIndexOutOfRange (count actual : Nat)
  | materializationCapacity
  | materializationInvariant
  | executionCapacity
  | executionInvariant
  | executionState (mode : ExecutionMode) (stream : Nat) (error : StateError)
  deriving DecidableEq

/-- How an operation of this layer ends without a result. -/
inductive ScenarioFailure where
  | error (error : ScenarioError)
  | panic (message : String)
  deriving DecidableEq

/-- The places that reserve memory fallibly. -/
inductive Reservation where
  | sourceStreams
  | nodes
  | deliveries
  | states (mode : ExecutionMode)
  | summaries (mode : ExecutionMode)
  | comparisons
  deriving DecidableEq

/-- Whether a reservation of so many elements succeeds. -/
abbrev Allocator := Reservation → Nat → Bool

/-- `try_reserve_exact(..).map_err(..)`. -/
def tryReserve (allocator : Allocator) (reservation : Reservation) (additional : Nat)
    (error : ScenarioError) : Except ScenarioFailure Unit :=
  rejectIf (allocator reservation additional = false) (.error error)

/-- `execution_state_error`, which also passes panics on. -/
def executionStateError (mode : ExecutionMode) (stream : Nat) : Failure → ScenarioFailure
  | .error error => .error (.executionState mode stream error)
  | .panic message => .panic message

/-! ### The delivery arena -/

/-- `DeliveryNode`. -/
structure DeliveryNode where
  key : DeliveryKey
  prev : Option Nat
  next : Option Nat
  live : Bool
  deriving DecidableEq

/-- `DeliveryArena`. -/
structure DeliveryArena where
  nodes : List DeliveryNode
  positions : ExtTreeMap DeliveryKey Nat
  head : Option Nat
  tail : Option Nat

/-- `ScheduledDelivery`. -/
structure ScheduledDelivery (canon : Canonical) where
  source : PreparedEnvelope canon
  streamIndex : Nat
  occurrence : Nat

namespace DeliveryArena

variable (a : DeliveryArena)

/-- `self.nodes[index]`. -/
def node (index : Nat) : Except ScenarioFailure DeliveryNode :=
  okOr a.nodes[index]? (.panic "index out of bounds")

/-- `self.nodes[index].next = next`. -/
def setNext (index : Nat) (next : Option Nat) : Except ScenarioFailure DeliveryArena := do
  let node ← a.node index
  return { a with nodes := a.nodes.set index { node with next := next } }

/-- `self.nodes[index].prev = prev`. -/
def setPrev (index : Nat) (prev : Option Nat) : Except ScenarioFailure DeliveryArena := do
  let node ← a.node index
  return { a with nodes := a.nodes.set index { node with prev := prev } }

/-- `self.nodes[index].live = live`. -/
def setLive (index : Nat) (live : Bool) : Except ScenarioFailure DeliveryArena := do
  let node ← a.node index
  return { a with nodes := a.nodes.set index { node with live := live } }

/-- Point the link behind `previous`, or the head, at `next`. -/
def linkNext (previous next : Option Nat) : Except ScenarioFailure DeliveryArena :=
  match previous with
  | some previous => a.setNext previous next
  | none => .ok { a with head := next }

/-- Point the link before `next`, or the tail, at `previous`. -/
def linkPrev (next previous : Option Nat) : Except ScenarioFailure DeliveryArena :=
  match next with
  | some next => a.setPrev next previous
  | none => .ok { a with tail := previous }

/-- `append_original`. -/
def appendOriginal (key : DeliveryKey) : Except ScenarioFailure DeliveryArena := do
  rejectIf (key ∈ a.positions) (.error .materializationInvariant)
  let index := a.nodes.length
  let node : DeliveryNode := { key := key, prev := a.tail, next := none, live := true }
  let a ← { a with nodes := a.nodes ++ [node] }.linkNext a.tail (some index)
  return { a with tail := some index, positions := a.positions.insert key index }

/-- `DeliveryArena::new`. -/
def new (allocator : Allocator) (prefixLen capacity : Nat) :
    Except ScenarioFailure DeliveryArena := do
  tryReserve allocator .nodes capacity .materializationCapacity
  (List.range prefixLen).foldlM (fun a source => a.appendOriginal ⟨source, 0⟩)
    { nodes := [], positions := ∅, head := none, tail := none }

/-- `resolve_live`. -/
def resolveLive (key : DeliveryKey) : Except ScenarioFailure Nat := do
  let index ← okOr a.positions[key]? (.error .materializationInvariant)
  rejectIf ((a.nodes[index]?).any (·.live) = false) (.error .materializationInvariant)
  return index

/-- `unlink`. -/
def unlink (index : Nat) : Except ScenarioFailure DeliveryArena := do
  let node ← a.node index
  let a ← a.linkNext node.prev node.next
  let a ← a.linkPrev node.next node.prev
  let a ← a.setPrev index none
  a.setNext index none

/-- `drop_delivery`. -/
def dropDelivery (key : DeliveryKey) : Except ScenarioFailure DeliveryArena := do
  let index ← a.resolveLive key
  let a ← a.unlink index
  a.setLive index false

/-- `insert_after`: the new arena and the index of the inserted node. -/
def insertAfter (anchor : Nat) (key : DeliveryKey) :
    Except ScenarioFailure (DeliveryArena × Nat) := do
  rejectIf ((a.nodes[anchor]?).any (·.live) = false) (.error .materializationInvariant)
  let next := (← a.node anchor).next
  let index := a.nodes.length
  let node : DeliveryNode := { key := key, prev := some anchor, next := next, live := true }
  let a ← { a with nodes := a.nodes ++ [node] }.setNext anchor (some index)
  let a ← a.linkPrev next (some index)
  return ({ a with positions := a.positions.insert key index }, index)

/-- `u16::checked_add`. -/
def checkedAddU16 (left right : Nat) : Option Nat :=
  if left + right < 2 ^ 16 then some (left + right) else none

/-- One copy of `duplicate`, behind the copy before it. -/
def duplicateOne (target : DeliveryKey) (firstOccurrence : Nat) (s : DeliveryArena × Nat)
    (offset : Nat) : Except ScenarioFailure (DeliveryArena × Nat) := do
  let occurrence ← okOr (checkedAddU16 firstOccurrence offset) (.error .materializationInvariant)
  let key : DeliveryKey := ⟨target.source, occurrence⟩
  rejectIf (key ∈ s.1.positions) (.error .materializationInvariant)
  s.1.insertAfter s.2 key

/-- `duplicate`. -/
def duplicate (target : DeliveryKey) (firstOccurrence copies : Nat) :
    Except ScenarioFailure DeliveryArena := do
  let cursor ← a.resolveLive target
  let s ← (List.range copies).foldlM (duplicateOne target firstOccurrence) (a, cursor)
  return s.1

/-- The relinking part of `move_before`. -/
def relinkBefore (target anchor : Nat) : Except ScenarioFailure DeliveryArena := do
  let a ← a.unlink target
  let node ← a.node anchor
  let a ← a.setPrev target node.prev
  let a ← a.setNext target (some anchor)
  let a ← a.setPrev anchor (some target)
  a.linkNext node.prev (some target)

/-- `move_before`. -/
def moveBefore (target anchor : DeliveryKey) : Except ScenarioFailure DeliveryArena := do
  let target ← a.resolveLive target
  let anchor ← a.resolveLive anchor
  rejectIf (target = anchor) (.error .materializationInvariant)
  let node ← a.node target
  if node.next = some anchor then .ok a else a.relinkBefore target anchor

variable {canon : Canonical}

/-- One node of `materialize`. -/
def deliver (sources : List (PreparedEnvelope canon)) (sourceStreams : List Nat)
    (prefixLen : Nat) (node : DeliveryNode) :
    Except ScenarioFailure (ScheduledDelivery canon) := do
  rejectIf (node.live = false ∨ node.key.source ≥ prefixLen) (.error .materializationInvariant)
  let source ← okOr sources[node.key.source]? (.error .materializationInvariant)
  let streamIndex ← okOr sourceStreams[node.key.source]? (.error .materializationInvariant)
  return { source := source, streamIndex := streamIndex, occurrence := node.key.occurrence }

/-- The loop of `materialize`; `room` is how many more nodes it may visit
before it has visited as many as there are. -/
def walk (a : DeliveryArena) (sources : List (PreparedEnvelope canon)) (sourceStreams : List Nat)
    (prefixLen : Nat) : Nat → Option Nat → Except ScenarioFailure (List (ScheduledDelivery canon))
  | _, none => .ok []
  | 0, some _ => .error (.error .materializationInvariant)
  | room + 1, some index => do
      let node ← okOr a.nodes[index]? (.error .materializationInvariant)
      let delivery ← deliver sources sourceStreams prefixLen node
      let rest ← a.walk sources sourceStreams prefixLen room node.next
      return delivery :: rest

/-- `materialize`. -/
def materialize (allocator : Allocator) (sources : List (PreparedEnvelope canon))
    (sourceStreams : List Nat) (prefixLen : Nat) :
    Except ScenarioFailure (List (ScheduledDelivery canon)) := do
  let live := a.nodes.countP (·.live)
  tryReserve allocator .deliveries live .materializationCapacity
  let deliveries ← a.walk sources sourceStreams prefixLen a.nodes.length a.head
  rejectIf (deliveries.length ≠ live) (.error .materializationInvariant)
  return deliveries

/-- The arena operation of a planned action. -/
def execute : PlannedAction → Except ScenarioFailure DeliveryArena
  | .drop target => a.dropDelivery target
  | .duplicate target firstOccurrence copies => a.duplicate target firstOccurrence copies
  | .moveBefore target anchor => a.moveBefore target anchor

end DeliveryArena

/-! ### Materialization -/

/-- `MaterializedSchedule`. -/
structure MaterializedSchedule (canon : Canonical) where
  scheduleId : String
  streamPrefixLen : Nat
  sourcePrefixLen : Nat
  allocatedOccurrences : Nat
  deliveries : List (ScheduledDelivery canon)

/-- The occurrences a planned action allocates. -/
def PlannedAction.copies : PlannedAction → Nat
  | .duplicate _ _ copies => copies
  | _ => 0

/-- One step of the allocation count of `materialize_schedule`. -/
def addCopies (allocated : Nat) (action : PlannedAction) : Except ScenarioFailure Nat :=
  okOr (checkedAdd allocated action.copies) (.error .materializationInvariant)

/-- `materialize_schedule`. -/
def materializeSchedule {canon : Canonical} (allocator : Allocator) (plan : SchedulePlan)
    (sources : List (PreparedEnvelope canon)) (sourceStreams : List Nat) (streamCount : Nat)
    (limits : Limits) : Except ScenarioFailure (MaterializedSchedule canon) := do
  rejectIf (plan.prefixLen > sources.length ∨ sources.length ≠ sourceStreams.length ∨
    plan.streamPrefixLen > streamCount ∨
    ∃ stream ∈ sourceStreams.take plan.prefixLen, stream ≥ plan.streamPrefixLen)
    (.error .materializationInvariant)
  let allocated ← plan.actions.foldlM addCopies plan.prefixLen
  rejectIf (allocated > limits.maxOccurrencesPerSchedule.toNat) (.error .materializationInvariant)
  let arena ← DeliveryArena.new allocator plan.prefixLen allocated
  let arena ← plan.actions.foldlM DeliveryArena.execute arena
  let deliveries ← arena.materialize allocator sources sourceStreams plan.prefixLen
  return {
    scheduleId := plan.id
    streamPrefixLen := plan.streamPrefixLen
    sourcePrefixLen := plan.prefixLen
    allocatedOccurrences := allocated
    deliveries := deliveries }

/-! ### Execution -/

/-- `ScenarioExecution`. -/
structure ScenarioExecution where
  mode : ExecutionMode
  scheduleId : String
  streamPrefixLen : Nat
  sourcePrefixLen : Nat
  deliveryCount : Nat
  streams : List StreamSummary

/-- `ScheduleComparison`. -/
structure ScheduleComparison where
  pristine : ScenarioExecution
  faulted : ScenarioExecution
  streams : List StreamComparison

/-- `ScheduleComparison::new`. -/
def ScheduleComparison.new (allocator : Allocator) (pristine faulted : ScenarioExecution) :
    Except ScenarioFailure ScheduleComparison := do
  rejectIf (pristine.mode ≠ .pristine ∨ faulted.mode ≠ .faulted ∨
    pristine.scheduleId ≠ faulted.scheduleId ∨
    pristine.streamPrefixLen ≠ faulted.streamPrefixLen ∨
    pristine.sourcePrefixLen ≠ faulted.sourcePrefixLen ∨
    pristine.streams.length ≠ faulted.streams.length) (.error .executionInvariant)
  tryReserve allocator .comparisons pristine.streams.length .executionCapacity
  return {
    pristine := pristine
    faulted := faulted
    streams := pristine.streams.zipWith compareStreams faulted.streams }

/-- `SealedTrace`. -/
structure SealedTrace (canon : Canonical) where
  summary : TraceSummary
  limits : Limits
  sealedSession : SealedSession
  streams : List StreamBlueprint
  sources : List (PreparedEnvelope canon)
  sourceStreams : List Nat
  schedules : List SchedulePlan

/-- `values[..end]`. -/
def sliceTo {α : Type*} (values : List α) (end_ : Nat) : Except ScenarioFailure (List α) :=
  if end_ ≤ values.length then .ok (values.take end_) else .error (.panic "range out of bounds")

section Execute

variable {canon : Canonical}

/-- One delivery of `execute`: admit it to the state it is routed to. -/
def admitRouted (mode : ExecutionMode) (s : List (StreamState canon) × Nat)
    (delivery : Nat × PreparedEnvelope canon) :
    Except ScenarioFailure (List (StreamState canon) × Nat) := do
  let state ← okOr s.1[delivery.1]? (.error .executionInvariant)
  match state.admitDelivery .sealed delivery.2 with
  | (.error failure, _) => .error (executionStateError mode delivery.1 failure)
  | (.ok _, state) => do
      let count ← okOr (checkedAdd s.2 1) (.error .executionInvariant)
      return (s.1.set delivery.1 state, count)

/-- `blueprint.start(..)` for one stream of `execute`. -/
def startStream (sealedSession : SealedSession) (mode : ExecutionMode)
    (stream : StreamBlueprint × Nat) : Except ScenarioFailure (StreamState canon) :=
  (StreamState.start stream.1 .sealed sealedSession).mapError fun error =>
    executionStateError mode stream.2 (.error error)

/-- `state.finish(..)` for one stream of `execute`. -/
def finishStream (sealedSession : SealedSession) (mode : ExecutionMode)
    (state : StreamState canon × Nat) : Except ScenarioFailure StreamSummary :=
  (state.1.finish .sealed sealedSession).mapError fun error =>
    executionStateError mode state.2 (.error error)

end Execute

namespace SealedTrace

variable {canon : Canonical} (trace : SealedTrace canon)

/-- `materialize`. -/
def materialize (allocator : Allocator) (index : Nat) :
    Except ScenarioFailure (MaterializedSchedule canon) := do
  let plan ← okOr trace.schedules[index]?
    (.error (.scheduleIndexOutOfRange trace.schedules.length index))
  materializeSchedule allocator plan trace.sources trace.sourceStreams trace.streams.length
    trace.limits

/-- `execute`. -/
def execute (allocator : Allocator) (mode : ExecutionMode) (scheduleId : String)
    (streamPrefixLen sourcePrefixLen : Nat) (deliveries : List (Nat × PreparedEnvelope canon)) :
    Except ScenarioFailure ScenarioExecution := do
  rejectIf (streamPrefixLen > trace.streams.length ∨ sourcePrefixLen > trace.sources.length)
    (.error .executionInvariant)
  tryReserve allocator (.states mode) streamPrefixLen .executionCapacity
  let states : List (StreamState canon) ← (trace.streams.take streamPrefixLen).zipIdx.mapM
    (startStream trace.sealedSession mode)
  let routed ← deliveries.foldlM (admitRouted mode) (states, 0)
  tryReserve allocator (.summaries mode) streamPrefixLen .executionCapacity
  let summaries ← routed.1.zipIdx.mapM (finishStream trace.sealedSession mode)
  return {
    mode := mode
    scheduleId := scheduleId
    streamPrefixLen := streamPrefixLen
    sourcePrefixLen := sourcePrefixLen
    deliveryCount := routed.2
    streams := summaries }

/-- `compare_schedule`. -/
def compareSchedule (allocator : Allocator) (index : Nat) :
    Except ScenarioFailure ScheduleComparison := do
  let plan ← okOr trace.schedules[index]?
    (.error (.scheduleIndexOutOfRange trace.schedules.length index))
  let materialized ← trace.materialize allocator index
  let streams ← sliceTo trace.sourceStreams plan.prefixLen
  let sources ← sliceTo trace.sources plan.prefixLen
  let pristine ← trace.execute allocator .pristine plan.id plan.streamPrefixLen plan.prefixLen
    (streams.zip sources)
  let faulted ← trace.execute allocator .faulted plan.id plan.streamPrefixLen plan.prefixLen
    (materialized.deliveries.map fun delivery => (delivery.streamIndex, delivery.source))
  ScheduleComparison.new allocator pristine faulted

/-- The ordinals that `bind_owned` collects for the stream identities. -/
def streamOrdinals (streams : List StreamBlueprint) : ExtTreeMap String Nat :=
  streams.zipIdx.foldl
    (fun ordinals stream => ordinals.insert stream.1.registration.streamId stream.2) ∅

/-- `bind_owned`. -/
def bindOwned (allocator : Allocator) (plan : ValidatedTracePlan) (sealedSession : SealedSession)
    (streams : List StreamBlueprint) (sources : List (PreparedEnvelope canon)) :
    Except ScenarioFailure (SealedTrace canon) := do
  rejectIf (plan.limits ≠ sealedSession.limits ∨
    plan.streamIds ≠ streams.map (·.registration.streamId) ∨
    (∃ blueprint ∈ streams, sealedSession.ownsBlueprint blueprint = false) ∨
    plan.envelopeIds ≠ sources.map (·.envelopeId) ∨
    ∃ source ∈ sources, sealedSession.ownsSource source = false) (.error .assemblyInvariant)
  tryReserve allocator .sourceStreams sources.length .assemblyCapacity
  let sourceStreams ← sources.mapM fun source =>
    okOr (streamOrdinals streams)[source.streamId]? (.error .assemblyInvariant)
  return {
    summary := plan.summary
    limits := plan.limits
    sealedSession := sealedSession
    streams := streams
    sources := sources
    sourceStreams := sourceStreams
    schedules := plan.schedules }

end SealedTrace

/-! ### Assembly -/

/-- `RecordRoute`. -/
inductive RecordRoute where
  | stream
  | envelope
  | other
  deriving DecidableEq

/-- `RecordRoute::from`. -/
def RecordRoute.ofRecord : Record → RecordRoute
  | .stream _ => .stream
  | .envelope _ => .envelope
  | _ => .other

/-- `TraceAssembler`. -/
structure TraceAssembler (canon : Canonical) where
  validator : TraceValidator
  normalizer : EnvelopeNormalizer
  streams : List StreamBlueprint
  sources : List (PreparedEnvelope canon)
  failed : Bool

namespace TraceAssembler

variable {canon : Canonical}

/-- `TraceAssembler::new`, in a session that is new to the process. -/
def new (session : SessionId) (limits : Limits) :
    Except ScenarioFailure (TraceAssembler canon) := do
  let validator ← (TraceValidator.new limits).mapError fun error => .error (.trace error)
  let normalizer ← (EnvelopeNormalizer.new session limits).mapError fun error =>
    .error (.normalization error)
  return {
    validator := validator
    normalizer := normalizer
    streams := []
    sources := []
    failed := false }

variable (a : TraceAssembler canon)

/-- The authority check of `push_inner`. -/
def streamAuthority : RecordRoute → Option BaselineAuthority →
    Except ScenarioFailure (Option BaselineAuthority)
  | .stream, some authority => .ok (some authority)
  | .stream, none => .error (.error .baselineAuthorityRequired)
  | _, some _ => .error (.error .unexpectedBaselineAuthority)
  | _, none => .ok none

/-- `self.validator.push(&record)`. -/
def pushValidator (record : ValidatedRecord) : Except ScenarioFailure (TraceAssembler canon) :=
  match a.validator.push record with
  | (.ok (), validator) => .ok { a with validator := validator }
  | (.error error, _) => .error (.error (.trace error))

/-- The stream route of `push_inner`. -/
def pushStream (record : ValidatedRecord) (authority : BaselineAuthority) :
    Except ScenarioFailure (TraceAssembler canon) :=
  match a.normalizer.registerStream record authority with
  | (.ok blueprint, normalizer) =>
      .ok { a with normalizer := normalizer, streams := a.streams ++ [blueprint] }
  | (.error error, _) => .error (.error (.normalization error))

/-- The envelope route of `push_inner`. -/
def pushEnvelope (record : ValidatedRecord) : Except ScenarioFailure (TraceAssembler canon) :=
  match a.normalizer.prepare canon record with
  | (.ok source, normalizer) =>
      .ok { a with normalizer := normalizer, sources := a.sources ++ [source] }
  | (.error error, _) => .error (.error (.normalization error))

/-- The normalization part of `push_inner`. -/
def pushNormalizer (record : ValidatedRecord) :
    RecordRoute → Option BaselineAuthority → Except ScenarioFailure (TraceAssembler canon)
  | .stream, some authority => a.pushStream record authority
  | .stream, none =>
      .error (.panic "stream authority was established before structural validation")
  | .envelope, _ => a.pushEnvelope record
  | .other, _ => .ok a

/-- `push_inner`. -/
def pushInner (record : ValidatedRecord) (authority : Option BaselineAuthority) :
    Except ScenarioFailure (TraceAssembler canon) := do
  let route := RecordRoute.ofRecord record.asRecord
  let authority ← streamAuthority route authority
  let a ← a.pushValidator record
  a.pushNormalizer record route authority

/-- `push`. -/
def push (record : ValidatedRecord) (authority : Option BaselineAuthority) :
    Except ScenarioFailure Unit × TraceAssembler canon :=
  if a.failed then (.error (.error .assemblerFailed), a)
  else
    match a.pushInner record authority with
    | .ok a => (.ok (), a)
    | .error failure => (.error failure, { a with failed := true })

/-- `finish`. -/
def finish (allocator : Allocator) : Except ScenarioFailure (SealedTrace canon) := do
  rejectIf (a.failed = true) (.error .assemblerFailed)
  let plan ← a.validator.finishPlanned.mapError fun error => .error (.trace error)
  let sealedSession ← a.normalizer.seal_.mapError fun error => .error (.normalization error)
  SealedTrace.bindOwned allocator plan sealedSession a.streams a.sources

/-- Push a whole sequence, whatever the single pushes return. -/
def pushAll (inputs : List (ValidatedRecord × Option BaselineAuthority)) : TraceAssembler canon :=
  inputs.foldl (fun a input => (a.push input.1 input.2).2) a

end TraceAssembler

/-! ### The sample trace, sealed -/

namespace Sample

/-- An allocator that grants everything. -/
def granting : Allocator := fun _ _ => true

/-- The sample records with a trusted baseline. -/
def inputs : List (ValidatedRecord × Option BaselineAuthority) :=
  records.zip [none, some .trustDeclaredEmpty, none, none, none]

/-- A new assembler. -/
def assembler : Except ScenarioFailure (TraceAssembler canonical) := TraceAssembler.new 0 forgetful

/-- The sealed trace of the sample records. -/
def sealedTrace : Except ScenarioFailure (SealedTrace canonical) := do
  let a ← assembler
  (a.pushAll inputs).finish granting

/-- The comparison of its schedule. -/
def comparison : Except ScenarioFailure ScheduleComparison := do
  let trace ← sealedTrace
  trace.compareSchedule granting 0

end Sample

end KvCrucible
