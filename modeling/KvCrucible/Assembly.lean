/-
KvCrucible/Assembly.lean

What an assembler has gathered, and what a sealed trace is made of.

`Assembled` describes the assembler after it accepted a sequence of records:
the validator is the one that belongs to the sequence, and the blueprints and
prepared sources stand for the stream and envelope records in physical order.
A successful `finish` binds exactly these, so every schedule of the sealed
trace was planned over the records before it, and materializes to its replay.
-/
import KvCrucible.Materialize
import KvCrucible.TraceAccept

namespace KvCrucible

open Basis Std

variable {canon : Canonical}

/-! ### Normalized records -/

/-- A blueprint stands for a declaration. -/
structure Registered (stream : StreamDeclaration) (blueprint : StreamBlueprint) : Prop where
  streamId : blueprint.registration.streamId = stream.streamId
  initialCursor : blueprint.registration.initialCursor = stream.initialCursor.get.toNat
  baseline : blueprint.registration.baseline = stream.baseline

/-- A prepared source stands for an envelope. -/
structure Prepared (envelope : EventEnvelope) (source : PreparedEnvelope canon) : Prop where
  envelopeId : source.envelopeId = envelope.envelopeId
  streamId : source.streamId = envelope.streamId
  cursor : source.cursor = envelope.cursor.get.toNat
  mutations : source.mutations = envelope.mutations

namespace EnvelopeNormalizer

variable {n n' : EnvelopeNormalizer} {record : ValidatedRecord}

/-- Binding returns the contract it was asked for. -/
theorem bindStream_ok {registration registered : RegisteredStream}
    (h : n.bindStream registration = (.ok registered, n')) : registered = registration := by
  unfold bindStream at h
  cases hinner : n.bindStreamInner registration with
  | error error =>
      rw [hinner] at h
      cases h
  | ok result =>
      rw [hinner] at h
      cases h
      unfold bindStreamInner at hinner
      split at hinner
      next known hknown =>
        split at hinner
        next heq =>
          cases hinner
          exact heq
        next => cases hinner
      next =>
        obtain ⟨_, -, hinner⟩ := bind_eq_ok.mp hinner
        obtain ⟨_, -, hinner⟩ := bind_eq_ok.mp hinner
        obtain ⟨_, -, hinner⟩ := bind_eq_ok.mp hinner
        obtain ⟨_, -, hinner⟩ := bind_eq_ok.mp hinner
        obtain ⟨_, -, hinner⟩ := bind_eq_ok.mp hinner
        obtain ⟨_, -, hinner⟩ := bind_eq_ok.mp hinner
        obtain ⟨_, -, hinner⟩ := bind_eq_ok.mp hinner
        obtain ⟨_, -, hinner⟩ := bind_eq_ok.mp hinner
        obtain ⟨_, -, hinner⟩ := bind_eq_ok.mp hinner
        have heq := pure_eq_ok.mp hinner
        exact (congrArg Prod.fst heq).symm

theorem registerStream_ok {authority : BaselineAuthority} {blueprint : StreamBlueprint}
    (h : n.registerStream record authority = (.ok blueprint, n')) :
    ∃ stream, record.asRecord = .stream stream ∧ Registered stream blueprint := by
  unfold registerStream at h
  split at h
  next => cases h
  next =>
    split at h
    next => cases h
    next =>
      split at h
      next => cases h
      next =>
        split at h
        next stream hrecord =>
          unfold registerDeclaration at h
          split at h
          next hauthority =>
            split at h
            next registration n'' hbind =>
              cases h
              obtain rfl := bindStream_ok hbind
              exact ⟨stream, hrecord, rfl, rfl, rfl⟩
            next => cases h
          next => cases h
        next => cases h

theorem prepareEnvelope_ok {envelope : EventEnvelope}
    {result : PreparedEnvelope canon × EnvelopeNormalizer}
    (h : n.prepareEnvelope canon envelope = .ok result) : Prepared envelope result.1 := by
  obtain ⟨_, -, h⟩ := bind_eq_ok.mp h
  obtain ⟨_, -, h⟩ := bind_eq_ok.mp h
  obtain ⟨_, -, h⟩ := bind_eq_ok.mp h
  obtain ⟨_, -, h⟩ := bind_eq_ok.mp h
  obtain ⟨_, -, h⟩ := bind_eq_ok.mp h
  obtain ⟨_, -, h⟩ := bind_eq_ok.mp h
  split at h
  next => cases h
  next =>
    obtain ⟨_, -, h⟩ := bind_eq_ok.mp h
    obtain ⟨_, -, h⟩ := bind_eq_ok.mp h
    obtain rfl := pure_eq_ok.mp h
    exact ⟨rfl, rfl, rfl, rfl⟩

theorem prepare_ok {source : PreparedEnvelope canon}
    (h : n.prepare canon record = (.ok source, n')) :
    ∃ envelope, record.asRecord = .envelope envelope ∧ Prepared envelope source := by
  unfold prepare at h
  split at h
  next => cases h
  next =>
    split at h
    next result n'' hinner =>
      cases h
      unfold prepareInner at hinner
      split at hinner
      next => cases hinner
      next =>
        split at hinner
        next envelope hrecord => exact ⟨envelope, hrecord, prepareEnvelope_ok hinner⟩
        next => cases hinner
    next => cases h

end EnvelopeNormalizer

/-! ### The assembler after an accepted sequence -/

namespace TraceAssembler

/-- The records among the inputs of an assembler. -/
def recordsOf (inputs : List (ValidatedRecord × Option BaselineAuthority)) : List Record :=
  inputs.map fun input => input.1.asRecord

/-- What an assembler that accepted `records` holds. -/
structure Assembled (limits : Limits) (records : List Record) (a : TraceAssembler canon) :
    Prop where
  wellFormed : WellFormed limits records
  validator : a.validator = TraceValidator.after limits records
  streams : List.Forall₂ Registered (streamsOf records) a.streams
  sources : List.Forall₂ Prepared (envelopesOf records) a.sources

variable {limits : Limits} {records : List Record} {a a' : TraceAssembler canon}
  {record : ValidatedRecord} {authority : Option BaselineAuthority}

theorem new_ok {session : SessionId} (h : new session limits = .ok a) :
    Assembled limits [] a ∧ a.failed = false := by
  obtain ⟨validator, hvalidator, h⟩ := bind_eq_ok.mp h
  obtain ⟨normalizer, -, h⟩ := bind_eq_ok.mp h
  obtain rfl := pure_eq_ok.mp h
  rw [mapError_eq_ok] at hvalidator
  obtain ⟨_, -, hvalidator⟩ := bind_eq_ok.mp hvalidator
  obtain rfl := pure_eq_ok.mp hvalidator
  exact ⟨⟨wellFormed_nil limits, rfl, .nil, .nil⟩, rfl⟩

theorem forall₂_concat {α β : Type*} {R : α → β → Prop} {xs : List α} {ys : List β} {x : α} {y : β}
    (h : List.Forall₂ R xs ys) (hxy : R x y) : List.Forall₂ R (xs ++ [x]) (ys ++ [y]) :=
  List.rel_append h (.cons hxy .nil)

/-- The validator of the assembler accepts what keeps the trace
well-formed. -/
theorem Assembled.pushValidator (h : Assembled limits records a)
    (hpush : a.pushValidator record = .ok a') :
    WellFormed limits (records ++ [record.asRecord]) ∧
      a' = { a with validator := TraceValidator.after limits (records ++ [record.asRecord]) } := by
  unfold TraceAssembler.pushValidator at hpush
  rw [h.validator] at hpush
  rcases TraceValidator.push_after h.wellFormed record with
    ⟨hwell, hresult⟩ | ⟨-, error, failed, hresult, -⟩
  · rw [hresult] at hpush
    exact ⟨hwell, (Except.ok.inj hpush).symm⟩
  · rw [hresult] at hpush
    cases hpush

/-- An accepted record extends what the assembler holds. -/
theorem Assembled.pushInner (h : Assembled limits records a)
    (hpush : a.pushInner record authority = .ok a') :
    Assembled limits (records ++ [record.asRecord]) a' ∧ a'.failed = a.failed := by
  obtain ⟨authority', hauthority, hpush⟩ := bind_eq_ok.mp hpush
  obtain ⟨a₁, hvalidator, hpush⟩ := bind_eq_ok.mp hpush
  obtain ⟨hwell, rfl⟩ := h.pushValidator hvalidator
  -- the normalizer takes the record too, if it is for it
  cases hrecord : record.asRecord with
  | traceHeader header =>
      rw [hrecord] at hpush hwell
      obtain rfl : _ = a' := Except.ok.inj hpush
      refine ⟨⟨hwell, rfl, ?_, ?_⟩, rfl⟩
      · rw [streamsOf_snoc]
        simpa using h.streams
      · rw [envelopesOf_snoc]
        simpa using h.sources
  | stream stream =>
      rw [hrecord] at hpush hwell
      cases authority' with
      | none => cases hpush
      | some authority' =>
          have hpush : pushStream _ record authority' = .ok a' := hpush
          unfold pushStream at hpush
          split at hpush
          next blueprint normalizer hregister =>
            obtain rfl := Except.ok.inj hpush
            obtain ⟨stream', hstream', hregistered⟩ := EnvelopeNormalizer.registerStream_ok hregister
            obtain rfl := Record.stream.inj (hrecord.symm.trans hstream')
            refine ⟨⟨hwell, rfl, ?_, ?_⟩, rfl⟩
            · rw [streamsOf_snoc]
              exact forall₂_concat h.streams hregistered
            · rw [envelopesOf_snoc]
              simpa using h.sources
          next => cases hpush
  | envelope envelope =>
      rw [hrecord] at hpush hwell
      have hpush : pushEnvelope _ record = .ok a' := hpush
      unfold pushEnvelope at hpush
      split at hpush
      next source normalizer hprepare =>
        obtain rfl := Except.ok.inj hpush
        obtain ⟨envelope', henvelope', hprepared⟩ := EnvelopeNormalizer.prepare_ok hprepare
        obtain rfl := Record.envelope.inj (hrecord.symm.trans henvelope')
        refine ⟨⟨hwell, rfl, ?_, ?_⟩, rfl⟩
        · rw [streamsOf_snoc]
          simpa using h.streams
        · rw [envelopesOf_snoc]
          exact forall₂_concat h.sources hprepared
      next => cases hpush
  | faultSchedule schedule =>
      rw [hrecord] at hpush hwell
      obtain rfl : _ = a' := Except.ok.inj hpush
      refine ⟨⟨hwell, rfl, ?_, ?_⟩, rfl⟩
      · rw [streamsOf_snoc]
        simpa using h.streams
      · rw [envelopesOf_snoc]
        simpa using h.sources

/-- A failure is sticky. -/
theorem pushAll_failed (h : a.failed = true)
    (inputs : List (ValidatedRecord × Option BaselineAuthority)) :
    (a.pushAll inputs).failed = true := by
  induction inputs generalizing a with
  | nil => exact h
  | cons input inputs ih =>
      apply ih
      simp [push, h]

/-- What every accepted record preserves holds of an assembler that did not
fail. -/
theorem pushAll_induction {P : List Record → TraceAssembler canon → Prop}
    (hstep : ∀ {records a record authority a'}, P records a → a.failed = false →
      a.pushInner record authority = .ok a' → P (records ++ [record.asRecord]) a' ∧
        a'.failed = false)
    {inputs : List (ValidatedRecord × Option BaselineAuthority)} (h : P records a)
    (hlive : a.failed = false) (hend : (a.pushAll inputs).failed = false) :
    P (records ++ recordsOf inputs) (a.pushAll inputs) := by
  induction inputs generalizing a records with
  | nil =>
      rw [recordsOf, List.map_nil, List.append_nil]
      exact h
  | cons input inputs ih =>
      have hpushAll : a.pushAll (input :: inputs) = (a.push input.1 input.2).2.pushAll inputs := rfl
      have happend : records ++ recordsOf (input :: inputs) =
          (records ++ [input.1.asRecord]) ++ recordsOf inputs := by
        simp [recordsOf]
      rw [hpushAll] at hend ⊢
      rw [happend]
      cases hpush : a.pushInner input.1 input.2 with
      | error failure =>
          have hfailed : (a.push input.1 input.2).2.failed = true := by
            simp [push, hlive, hpush]
          rw [pushAll_failed hfailed] at hend
          cases hend
      | ok a' =>
          have hnext : (a.push input.1 input.2).2 = a' := by
            simp [push, hlive, hpush]
          rw [hnext] at hend ⊢
          obtain ⟨h', hlive'⟩ := hstep h hlive hpush
          exact ih h' hlive' hend

/-- An assembler that did not fail accepted all it was given. -/
theorem Assembled.pushAll (h : Assembled limits records a) (hlive : a.failed = false)
    {inputs : List (ValidatedRecord × Option BaselineAuthority)}
    (hend : (a.pushAll inputs).failed = false) :
    Assembled limits (records ++ recordsOf inputs) (a.pushAll inputs) := by
  refine pushAll_induction (fun {records a record authority a'} h hlive hpush => ?_) h hlive hend
  obtain ⟨h', hfailed⟩ := h.pushInner hpush
  exact ⟨h', hfailed.trans hlive⟩

end TraceAssembler

/-! ### Sealed traces -/

namespace SealedTrace

variable {limits : Limits} {records : List Record} {trace : SealedTrace canon}

/-- What the sealed trace of a record sequence holds. -/
structure SealedFrom (limits : Limits) (records : List Record) (trace : SealedTrace canon) :
    Prop where
  wellFormed : WellFormed limits records
  limits_eq : trace.limits = limits
  streams : List.Forall₂ Registered (streamsOf records) trace.streams
  sources : List.Forall₂ Prepared (envelopesOf records) trace.sources
  sourceStreams : List.Forall₂ (fun source ordinal =>
    (streamIdsOf records)[ordinal]? = some source.streamId) trace.sources trace.sourceStreams
  schedules : trace.schedules = plansOf records

theorem map_streamId {streams : List StreamDeclaration} {blueprints : List StreamBlueprint}
    (h : List.Forall₂ Registered streams blueprints) :
    blueprints.map (·.registration.streamId) = streams.map (·.streamId) := by
  induction h with
  | nil => rfl
  | cons hregistered _ ih => rw [List.map_cons, List.map_cons, ih, hregistered.streamId]

theorem map_envelopeId {envelopes : List EventEnvelope} {sources : List (PreparedEnvelope canon)}
    (h : List.Forall₂ Prepared envelopes sources) :
    sources.map (·.envelopeId) = envelopes.map (·.envelopeId) := by
  induction h with
  | nil => rfl
  | cons hprepared _ ih => rw [List.map_cons, List.map_cons, ih, hprepared.envelopeId]

/-- The ordinal of a stream is its position among the declarations. -/
theorem streamOrdinals_eq_some {streams : List StreamBlueprint} {ids : List String}
    (hids : streams.map (·.registration.streamId) = ids) (hnodup : ids.Nodup) {id : String}
    {ordinal : Nat} : (streamOrdinals streams)[id]? = some ordinal ↔ ids[ordinal]? = some id := by
  have hentries : streamOrdinals streams = ofEntries compare ids.zipIdx := by
    rw [← hids, List.zipIdx_map, ofEntries, List.foldl_map]
    rfl
  have hkeys : (ids.zipIdx.map Prod.fst).Nodup := by
    rwa [List.zipIdx_map_fst]
  rw [hentries, getElem?_ofEntries hkeys, List.mk_mem_zipIdx_iff_getElem?]

/-- A successful `finish` seals what was accepted. -/
theorem finish_ok {session : SessionId} {allocator : Allocator}
    {inputs : List (ValidatedRecord × Option BaselineAuthority)} {a : TraceAssembler canon}
    (hnew : TraceAssembler.new session limits = .ok a)
    (hfinish : (a.pushAll inputs).finish allocator = .ok trace) :
    SealedFrom limits (TraceAssembler.recordsOf inputs) trace := by
  obtain ⟨hstart, hlive⟩ := TraceAssembler.new_ok hnew
  obtain ⟨_, hfailed, hfinish⟩ := bind_eq_ok.mp hfinish
  rw [rejectIf_eq_ok, Bool.not_eq_true] at hfailed
  have h := hstart.pushAll hlive hfailed
  rw [List.nil_append] at h
  obtain ⟨plan, hplan, hfinish⟩ := bind_eq_ok.mp hfinish
  obtain ⟨sealedSession, hseal, hfinish⟩ := bind_eq_ok.mp hfinish
  rw [mapError_eq_ok, h.validator] at hplan
  have hne : TraceAssembler.recordsOf inputs ≠ [] := by
    intro hnil
    rw [hnil] at hplan
    cases hplan
  obtain ⟨summary, hplan'⟩ := TraceValidator.finishPlanned_after h.wellFormed hne
  obtain rfl := Except.ok.inj (hplan'.symm.trans hplan)
  obtain ⟨_, -, hfinish⟩ := bind_eq_ok.mp hfinish
  obtain ⟨_, -, hfinish⟩ := bind_eq_ok.mp hfinish
  obtain ⟨sourceStreams, hsourceStreams, hfinish⟩ := bind_eq_ok.mp hfinish
  obtain rfl := pure_eq_ok.mp hfinish
  refine ⟨h.wellFormed, rfl, h.streams, h.sources, ?_, rfl⟩
  refine (mapM_eq_ok.mp hsourceStreams).imp fun source ordinal hordinal => ?_
  rw [okOr_eq_ok] at hordinal
  exact (streamOrdinals_eq_some (map_streamId h.streams) h.wellFormed.streamIds).mp hordinal

/-! ### Materialization of sealed schedules -/

theorem length_plansOf (records : List Record) :
    (plansOf records).length = (schedulesOf records).length := by
  induction records using List.reverseRecOn with
  | nil => rfl
  | append_singleton records record ih =>
      rw [plansOf_snoc, schedulesOf_snoc, List.length_append, List.length_append, ih]
      cases record <;> rfl

/-- Every envelope of a well-formed beginning is declared in it. -/
theorem declared_of_mem (h : WellFormed limits records) {envelope : EventEnvelope}
    (hmem : envelope ∈ envelopesOf records) : Declared records envelope := by
  obtain ⟨record, hrecord, henvelope⟩ := List.mem_filterMap.mp hmem
  obtain ⟨before, after, rfl⟩ := List.append_of_mem hrecord
  cases record with
  | envelope value =>
      obtain rfl := Option.some.inj henvelope
      obtain ⟨-, ⟨stream, hstream, hdeclared⟩, -⟩ := h.inPlace before _ after rfl
      refine ⟨stream, ?_, hdeclared⟩
      rw [streamsOf, List.filterMap_append]
      exact List.mem_append_left _ hstream
  | traceHeader value => cases henvelope
  | stream value => cases henvelope
  | faultSchedule value => cases henvelope

/-- Every envelope of a well-formed beginning names one of its streams. -/
theorem mem_streamIdsOf (h : WellFormed limits records) {envelope : EventEnvelope}
    (hmem : envelope ∈ envelopesOf records) : envelope.streamId ∈ streamIdsOf records := by
  obtain ⟨stream, hstream, hid, -⟩ := declared_of_mem h hmem
  rw [← hid]
  exact List.mem_map_of_mem hstream

/-- The sources of a schedule's prefix are routed to streams of its prefix. -/
theorem SealedFrom.route_lt {before after : List Record} (h : SealedFrom limits records trace)
    (hrecords : records = before ++ after) :
    ∀ stream ∈ trace.sourceStreams.take (envelopeIdsOf before).length,
      stream < (streamIdsOf before).length := by
  subst hrecords
  intro ordinal hordinal
  obtain ⟨i, hi⟩ := List.getElem?_of_mem hordinal
  rw [List.getElem?_take] at hi
  split at hi
  next hlt =>
    obtain ⟨source, hsource, hid⟩ := getElem?_of_forall₂ h.sourceStreams hi
    obtain ⟨envelope, henvelope, hprepared⟩ := getElem?_of_forall₂ h.sources hsource
    rw [TraceValidator.length_envelopeIdsOf] at hlt
    rw [envelopesOf_append, List.getElem?_append_left hlt] at henvelope
    have hmem := mem_streamIdsOf h.wellFormed.of_append (List.mem_of_getElem? henvelope)
    rw [← hprepared.streamId] at hmem
    -- the identity stands in the prefix, and nowhere else
    have hnodup := h.wellFormed.streamIds
    rw [streamIdsOf_append] at hid hnodup
    obtain ⟨p, hp⟩ := List.getElem?_of_mem hmem
    obtain ⟨hplt, -⟩ := List.getElem?_eq_some_iff.mp hp
    have hp' : (streamIdsOf before ++ streamIdsOf after)[p]? = some source.streamId := by
      rw [List.getElem?_append_left hplt, hp]
    have hplt' : p < (streamIdsOf before ++ streamIdsOf after).length := by
      rw [List.length_append]
      omega
    rw [← (List.getElem?_inj hplt' hnodup).mp (hp'.trans hid.symm)]
    exact hplt
  next => cases hi

section Schedule

variable (h : SealedFrom limits records trace) {before after : List Record}
  {schedule : FaultSchedule} {plan : SchedulePlan} {index : Nat}

include h

/-- Every schedule of a sealed trace was planned over the records before its
own. -/
theorem SealedFrom.schedule_at (hplan : trace.schedules[index]? = some plan) :
    ∃ before schedule after, records = before ++ .faultSchedule schedule :: after ∧
      (schedulesOf before).length = index ∧
      planOf before (.faultSchedule schedule) = some plan := by
  rw [h.schedules, plansOf] at hplan
  obtain ⟨before, record, after, hrecords, hplanOf, hordinal⟩ := getElem?_filterMapBefore hplan
  rw [List.nil_append] at hplanOf
  cases record with
  | traceHeader value => cases hplanOf
  | stream value => cases hplanOf
  | envelope value => cases hplanOf
  | faultSchedule schedule =>
      have hordinal : (plansOf before).length = index := hordinal
      exact ⟨before, schedule, after, hrecords, by rw [← length_plansOf, hordinal], hplanOf⟩

variable (hrecords : records = before ++ .faultSchedule schedule :: after)
  (hplan : planOf before (.faultSchedule schedule) = some plan)

include hrecords hplan

/-- The prefixes of a plan are prefixes of the trace, and its sources are
routed to its streams. -/
theorem SealedFrom.prefix_ok : plan.prefixLen ≤ trace.sources.length ∧
    plan.streamPrefixLen ≤ trace.streams.length ∧
    ∀ stream ∈ trace.sourceStreams.take plan.prefixLen, stream < plan.streamPrefixLen := by
  obtain rfl := Option.some.inj hplan
  refine ⟨?_, ?_, h.route_lt hrecords⟩
  · show (envelopeIdsOf before).length ≤ _
    rw [TraceValidator.length_envelopeIdsOf, ← h.sources.length_eq, hrecords, envelopesOf_append,
      List.length_append]
    exact Nat.le_add_right _ _
  · have hlength := congrArg List.length (map_streamId h.streams)
    rw [List.length_map] at hlength
    rw [hlength]
    show _ ≤ (streamIdsOf records).length
    rw [hrecords, streamIdsOf_append, List.length_append]
    exact Nat.le_add_right _ _

/-- A schedule of a sealed trace materializes to its replay. -/
theorem SealedFrom.materialize_ok {allocator : Allocator}
    (hallocator : ∀ reservation n, allocator reservation n = true) :
    ∃ materialized,
      materializeSchedule allocator plan trace.sources trace.sourceStreams trace.streams.length
        trace.limits = .ok materialized ∧
      List.Forall₂ (Delivers trace.sources trace.sourceStreams)
        ((Replay.start (envelopeIdsOf before).length).run (envelopeIdsOf before)
          schedule.actions).live materialized.deliveries := by
  obtain ⟨hsources, hstreams, hroutes⟩ := h.prefix_ok hrecords hplan
  obtain ⟨-, hall, hoccurrences⟩ := h.wellFormed.inPlace before _ after hrecords
  rw [← h.limits_eq] at hoccurrences
  obtain rfl := Option.some.inj hplan
  exact materializeSchedule_ok hallocator rfl rfl hall hoccurrences hsources
    h.sourceStreams.length_eq hstreams hroutes

end Schedule

/-- A delivery is routed to the stream its envelope names. -/
theorem SealedFrom.delivery_stream (h : SealedFrom limits records trace) {key : DeliveryKey}
    {delivery : ScheduledDelivery canon}
    (hdelivers : Delivers trace.sources trace.sourceStreams key delivery) :
    ∃ stream, (streamsOf records)[delivery.streamIndex]? = some stream ∧
      stream.streamId = delivery.source.streamId := by
  obtain ⟨source, hsource, hid⟩ := getElem?_of_forall₂ h.sourceStreams hdelivers.streamIndex
  obtain rfl := Option.some.inj (hsource.symm.trans hdelivers.source)
  rw [streamIdsOf, List.getElem?_map, Option.map_eq_some_iff] at hid
  exact hid

/-- Every schedule of a sealed trace materializes to the list semantics of its
record, over the envelopes before it. -/
theorem materialize_replays {session : SessionId} {allocator : Allocator}
    {inputs : List (ValidatedRecord × Option BaselineAuthority)} {a : TraceAssembler canon}
    (hallocator : ∀ reservation n, allocator reservation n = true)
    (hnew : TraceAssembler.new session limits = .ok a)
    (hfinish : (a.pushAll inputs).finish allocator = .ok trace) {index : Nat}
    (hindex : index < trace.schedules.length) :
    ∃ before schedule after materialized,
      TraceAssembler.recordsOf inputs = before ++ .faultSchedule schedule :: after ∧
      (schedulesOf before).length = index ∧
      trace.materialize allocator index = .ok materialized ∧
      List.Forall₂ (Delivers trace.sources trace.sourceStreams)
        ((Replay.start (envelopesOf before).length).run (envelopeIdsOf before)
          schedule.actions).live materialized.deliveries ∧
      List.Forall₂ Prepared (envelopesOf (TraceAssembler.recordsOf inputs)) trace.sources ∧
      ∀ delivery ∈ materialized.deliveries, ∃ stream,
        (streamsOf (TraceAssembler.recordsOf inputs))[delivery.streamIndex]? = some stream ∧
        stream.streamId = delivery.source.streamId := by
  have h := finish_ok hnew hfinish
  have hget : trace.schedules[index]? = some trace.schedules[index] :=
    List.getElem?_eq_getElem hindex
  obtain ⟨before, schedule, after, hrecords, hordinal, hplan⟩ := h.schedule_at hget
  obtain ⟨materialized, hmaterialized, hdeliveries⟩ := h.materialize_ok hrecords hplan hallocator
  refine ⟨before, schedule, after, materialized, hrecords, hordinal, ?_, ?_, h.sources, ?_⟩
  · exact bind_ok (okOr_eq_ok.mpr hget) hmaterialized
  · rw [← TraceValidator.length_envelopeIdsOf]
    exact hdeliveries
  · intro delivery hdelivery
    obtain ⟨i, hi⟩ := List.getElem?_of_mem hdelivery
    obtain ⟨key, -, hdelivers⟩ := getElem?_of_forall₂ hdeliveries hi
    exact h.delivery_stream hdelivers

/-- The schedule of the sample trace. -/
theorem sample_materialize_replays :
    ∃ trace before schedule after materialized, Sample.sealedTrace = .ok trace ∧
      TraceAssembler.recordsOf Sample.inputs = before ++ .faultSchedule schedule :: after ∧
      trace.materialize Sample.granting 0 = .ok materialized ∧
      List.Forall₂ (Delivers trace.sources trace.sourceStreams)
        ((Replay.start (envelopesOf before).length).run (envelopeIdsOf before)
          schedule.actions).live materialized.deliveries := by
  have hcount : Sample.sealedTrace.toOption.map (fun trace => trace.schedules.length) =
      some 1 := by
    decide +kernel
  cases htrace : Sample.sealedTrace with
  | error failure =>
      rw [htrace] at hcount
      cases hcount
  | ok trace =>
      rw [htrace] at hcount
      have hlength : trace.schedules.length = 1 := Option.some.inj hcount
      have hindex : 0 < trace.schedules.length := by
        rw [hlength]
        exact Nat.one_pos
      obtain ⟨a, hnew, hfinish⟩ := bind_eq_ok.mp htrace
      obtain ⟨before, schedule, after, materialized, hrecords, -, hmaterialize, hdeliveries, -⟩ :=
        materialize_replays (fun _ _ => rfl) hnew hfinish hindex
      exact ⟨trace, before, schedule, after, materialized, rfl, hrecords, hmaterialize, hdeliveries⟩

end SealedTrace

end KvCrucible
