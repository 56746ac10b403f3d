/-
KvCrucible/Snapshot.lean

Schedules are isolated from everything but the records they refer to.

Two sealed traces agree on a schedule (`SameSnapshot`) when it has the same plan in
both, and the streams and sources of its prefixes are the same up to the
session.  What a schedule delivers only reads these prefixes, and an execution
cannot tell sessions apart, so the schedule means the same in both traces.

What an assembler gathers is read off its inputs (`blueprintOf`, `sourceOf`):
traces whose inputs before a schedule have the same streams and envelopes
agree on it, whatever else they hold before or after it.
-/
import KvCrucible.Pipeline
import KvCrucible.Sessions

namespace KvCrucible

open Basis Std

variable {canon : Canonical}

/-- The delivery in another session. -/
def ScheduledDelivery.rebind (session : SessionId) (delivery : ScheduledDelivery canon) :
    ScheduledDelivery canon :=
  { delivery with source := delivery.source.rebind session }

/-- The materialized schedule in another session. -/
def MaterializedSchedule.rebind (session : SessionId) (materialized : MaterializedSchedule canon) :
    MaterializedSchedule canon :=
  { materialized with deliveries := materialized.deliveries.map (ScheduledDelivery.rebind session) }

/-! ### Materialization -/

section Materialize

variable {session : SessionId} {sources sources' : List (PreparedEnvelope canon)}
  {sourceStreams sourceStreams' : List Nat} {prefixLen : Nat}

/-- What two traces have in common before a schedule, up to the session. -/
structure SamePrefix (session : SessionId) (prefixLen : Nat)
    (sources sources' : List (PreparedEnvelope canon)) (sourceStreams sourceStreams' : List Nat) :
    Prop where
  sources : sources'.take prefixLen = (sources.take prefixLen).map (PreparedEnvelope.rebind session)
  sourceStreams : sourceStreams'.take prefixLen = sourceStreams.take prefixLen

theorem SamePrefix.source (h : SamePrefix session prefixLen sources sources' sourceStreams
    sourceStreams') {i : Nat} (hi : i < prefixLen) :
    sources'[i]? = sources[i]?.map (PreparedEnvelope.rebind session) := by
  have hget := congrArg (fun values => values[i]?) h.sources
  rw [List.getElem?_map, List.getElem?_take_of_lt hi, List.getElem?_take_of_lt hi] at hget
  exact hget

theorem SamePrefix.sourceStream (h : SamePrefix session prefixLen sources sources' sourceStreams
    sourceStreams') {i : Nat} (hi : i < prefixLen) : sourceStreams'[i]? = sourceStreams[i]? := by
  have hget := congrArg (fun values => values[i]?) h.sourceStreams
  rw [List.getElem?_take_of_lt hi, List.getElem?_take_of_lt hi] at hget
  exact hget

theorem deliver_rebind (h : SamePrefix session prefixLen sources sources' sourceStreams
    sourceStreams') (node : DeliveryNode) :
    DeliveryArena.deliver sources' sourceStreams' prefixLen node =
      (DeliveryArena.deliver sources sourceStreams prefixLen node).map
        (ScheduledDelivery.rebind session) := by
  unfold DeliveryArena.deliver
  by_cases hbad : node.live = false ∨ node.key.source ≥ prefixLen
  · simp only [rejectIf, if_pos hbad]
    rfl
  · have hlt : node.key.source < prefixLen := Nat.not_le.mp fun hge => hbad (.inr hge)
    rw [rejectIf_neg hbad, h.source hlt, h.sourceStream hlt]
    cases sources[node.key.source]? with
    | none => rfl
    | some source =>
        cases sourceStreams[node.key.source]? with
        | none => rfl
        | some stream => rfl

theorem walk_rebind (a : DeliveryArena) (h : SamePrefix session prefixLen sources sources'
    sourceStreams sourceStreams') {room : Nat} : ∀ place : Option Nat,
    a.walk sources' sourceStreams' prefixLen room place =
      (a.walk sources sourceStreams prefixLen room place).map
        (List.map (ScheduledDelivery.rebind session)) := by
  induction room with
  | zero =>
      intro place
      cases place <;> rfl
  | succ room ih =>
      intro place
      cases place with
      | none => rfl
      | some index =>
          unfold DeliveryArena.walk
          refine bind_map_same fun node _ => ?_
          rw [deliver_rebind h]
          refine bind_map fun delivery _ => ?_
          rw [ih]
          exact bind_map fun rest _ => rfl

theorem materialize_rebind (a : DeliveryArena) (allocator : Allocator)
    (h : SamePrefix session prefixLen sources sources' sourceStreams sourceStreams') :
    a.materialize allocator sources' sourceStreams' prefixLen =
      (a.materialize allocator sources sourceStreams prefixLen).map
        (List.map (ScheduledDelivery.rebind session)) := by
  unfold DeliveryArena.materialize
  refine bind_map_same fun _ _ => ?_
  rw [walk_rebind a h]
  refine bind_map fun deliveries _ => ?_
  rw [List.length_map]
  exact bind_map_same fun _ _ => rfl

/-- The checks that `materialize_schedule` makes of the prefixes of a plan. -/
structure PrefixOk (plan : SchedulePlan) (sources : List (PreparedEnvelope canon))
    (sourceStreams : List Nat) (streamCount : Nat) : Prop where
  sourcePrefix : plan.prefixLen ≤ sources.length
  lengths : sources.length = sourceStreams.length
  streamPrefix : plan.streamPrefixLen ≤ streamCount
  routes : ∀ stream ∈ sourceStreams.take plan.prefixLen, stream < plan.streamPrefixLen

theorem PrefixOk.passes {plan : SchedulePlan} {streamCount : Nat}
    (h : PrefixOk plan sources sourceStreams streamCount) :
    ¬ (plan.prefixLen > sources.length ∨ sources.length ≠ sourceStreams.length ∨
      plan.streamPrefixLen > streamCount ∨
      ∃ stream ∈ sourceStreams.take plan.prefixLen, stream ≥ plan.streamPrefixLen) := by
  rintro (hlong | hlength | hstreams | ⟨stream, hmem, hge⟩)
  · exact Nat.not_lt.mpr h.sourcePrefix hlong
  · exact hlength h.lengths
  · exact Nat.not_lt.mpr h.streamPrefix hstreams
  · exact Nat.not_lt.mpr hge (h.routes stream hmem)

theorem materializeSchedule_rebind (allocator : Allocator) {plan : SchedulePlan}
    {streamCount streamCount' : Nat} (limits : Limits)
    (hok : PrefixOk plan sources sourceStreams streamCount)
    (hok' : PrefixOk plan sources' sourceStreams' streamCount')
    (h : SamePrefix session plan.prefixLen sources sources' sourceStreams sourceStreams') :
    materializeSchedule allocator plan sources' sourceStreams' streamCount' limits =
      (materializeSchedule allocator plan sources sourceStreams streamCount limits).map
        (MaterializedSchedule.rebind session) := by
  unfold materializeSchedule
  rw [rejectIf_neg hok.passes, rejectIf_neg hok'.passes]
  refine bind_map_same fun _ _ => bind_map_same fun allocated _ => bind_map_same fun _ _ =>
    bind_map_same fun arena _ => bind_map_same fun edited _ => ?_
  rw [materialize_rebind edited allocator h]
  exact bind_map fun deliveries _ => rfl

/-- A walk delivers sources only. -/
theorem source_of_walk (a : DeliveryArena) {room : Nat} :
    ∀ {place : Option Nat} {deliveries : List (ScheduledDelivery canon)},
      a.walk sources sourceStreams prefixLen room place = .ok deliveries →
        ∀ delivery ∈ deliveries, delivery.source ∈ sources := by
  induction room with
  | zero =>
      intro place deliveries h
      cases place with
      | none =>
          obtain rfl := Except.ok.inj h
          exact List.forall_mem_nil _
      | some index => cases h
  | succ room ih =>
      intro place deliveries h
      cases place with
      | none =>
          obtain rfl := Except.ok.inj h
          exact List.forall_mem_nil _
      | some index =>
          obtain ⟨node, -, h⟩ := bind_eq_ok.mp h
          obtain ⟨delivery, hdelivery, h⟩ := bind_eq_ok.mp h
          obtain ⟨rest, hrest, h⟩ := bind_eq_ok.mp h
          obtain rfl := pure_eq_ok.mp h
          obtain ⟨_, -, hdelivery⟩ := bind_eq_ok.mp hdelivery
          obtain ⟨source, hsource, hdelivery⟩ := bind_eq_ok.mp hdelivery
          obtain ⟨stream, -, hdelivery⟩ := bind_eq_ok.mp hdelivery
          obtain rfl := pure_eq_ok.mp hdelivery
          have hmem := List.mem_of_getElem? (okOr_eq_ok.mp hsource)
          exact List.forall_mem_cons.mpr ⟨hmem, ih hrest⟩

theorem source_of_materializeSchedule {allocator : Allocator} {plan : SchedulePlan}
    {streamCount : Nat} {limits : Limits} {materialized : MaterializedSchedule canon}
    (h : materializeSchedule allocator plan sources sourceStreams streamCount limits =
      .ok materialized) : ∀ delivery ∈ materialized.deliveries, delivery.source ∈ sources := by
  obtain ⟨_, -, h⟩ := bind_eq_ok.mp h
  obtain ⟨allocated, -, h⟩ := bind_eq_ok.mp h
  obtain ⟨_, -, h⟩ := bind_eq_ok.mp h
  obtain ⟨arena, -, h⟩ := bind_eq_ok.mp h
  obtain ⟨edited, -, h⟩ := bind_eq_ok.mp h
  obtain ⟨deliveries, hdeliveries, h⟩ := bind_eq_ok.mp h
  obtain rfl := pure_eq_ok.mp h
  obtain ⟨_, -, hdeliveries⟩ := bind_eq_ok.mp hdeliveries
  obtain ⟨walked, hwalked, hdeliveries⟩ := bind_eq_ok.mp hdeliveries
  obtain ⟨_, -, hdeliveries⟩ := bind_eq_ok.mp hdeliveries
  obtain rfl := pure_eq_ok.mp hdeliveries
  exact source_of_walk edited hwalked

end Materialize

/-! ### Execution -/

section Execute

variable {session session' : SessionId} {mode : ExecutionMode}

/-- All states belong to one session. -/
def AllIn (session : SessionId) (states : List (StreamState canon)) : Prop :=
  ∀ state ∈ states, state.session = session

/-- A delivery with its route, in another session. -/
def rebindRoute (session : SessionId) (delivery : Nat × PreparedEnvelope canon) :
    Nat × PreparedEnvelope canon :=
  (delivery.1, delivery.2.rebind session)

/-- The locals of the loop over deliveries, in another session. -/
def rebindRouted (session : SessionId) (s : List (StreamState canon) × Nat) :
    List (StreamState canon) × Nat :=
  (s.1.map (StreamState.rebind session), s.2)

/-- One delivery of an execution that was moved as a whole. -/
theorem admitRouted_rebind {s : List (StreamState canon) × Nat}
    {delivery : Nat × PreparedEnvelope canon} (hstates : AllIn session s.1)
    (hdelivery : delivery.2.session = session) :
    admitRouted mode (rebindRouted session' s) (rebindRoute session' delivery) =
        (admitRouted mode s delivery).map (rebindRouted session') ∧
      ∀ t, admitRouted mode s delivery = .ok t → AllIn session t.1 := by
  have hget : (rebindRouted session' s).1[(rebindRoute session' delivery).1]? =
      s.1[delivery.1]?.map (StreamState.rebind session') := List.getElem?_map
  unfold admitRouted
  rw [hget]
  cases hstate : s.1[delivery.1]? with
  | none => exact ⟨rfl, fun t h => by cases h⟩
  | some state =>
      have hsession : state.session = session := hstates state (List.mem_of_getElem? hstate)
      have hrebound := @StreamState.admitDelivery_rebind canon session' state delivery.2
        (hsession.trans hdelivery.symm) .sealed
      -- the state is found on both sides
      have hfound : ∀ {α : Type} (state : StreamState canon) (error : ScenarioFailure)
          (f : StreamState canon → Except ScenarioFailure α),
          (okOr (some state) error >>= f) = f state := fun _ _ _ => rfl
      have hroute : (rebindRoute session' delivery).2 = delivery.2.rebind session' := rfl
      rw [Option.map_some, hfound, hfound, hroute, hrebound]
      rcases hresult : state.admitDelivery .sealed delivery.2 with ⟨failure | d, state'⟩
      · exact ⟨rfl, fun t h => by cases h⟩
      · have hsame : state'.session = session :=
          (StreamState.Step.same
            (StreamState.Admits.step ⟨.sealed, hresult⟩)).session.trans hsession
        dsimp only
        show (okOr (checkedAdd s.2 1) _ >>= _) = Except.map _ (okOr (checkedAdd s.2 1) _ >>= _) ∧ _
        refine ⟨bind_map_same fun count _ => ?_, fun t h => ?_⟩
        · refine congrArg (fun states => Except.ok (states, count)) ?_
          exact List.map_set.symm
        · obtain ⟨count, -, h⟩ := bind_eq_ok.mp h
          obtain rfl := pure_eq_ok.mp h
          intro other hother
          rcases List.mem_or_eq_of_mem_set hother with hold | rfl
          · exact hstates other hold
          · exact hsame

theorem foldlM_admitRouted_rebind {deliveries : List (Nat × PreparedEnvelope canon)}
    (hdeliveries : ∀ delivery ∈ deliveries, delivery.2.session = session)
    {s : List (StreamState canon) × Nat} (hstates : AllIn session s.1) :
    (deliveries.map (rebindRoute session')).foldlM (admitRouted mode) (rebindRouted session' s) =
      (deliveries.foldlM (admitRouted mode) s).map (rebindRouted session') := by
  rw [List.foldlM_map]
  exact foldlM_map_state (fun s => AllIn session s.1)
    (fun delivery hmem s hs => admitRouted_rebind hs (hdeliveries delivery hmem)) s hstates

theorem allIn_foldlM {deliveries : List (Nat × PreparedEnvelope canon)}
    (hdeliveries : ∀ delivery ∈ deliveries, delivery.2.session = session)
    {s t : List (StreamState canon) × Nat} (hstates : AllIn session s.1)
    (h : deliveries.foldlM (admitRouted mode) s = .ok t) : AllIn session t.1 :=
  @foldlM_invariant _ _ _ _ (fun s => AllIn session s.1) _
    (fun delivery hmem {_ _} hs hok =>
      (@admitRouted_rebind canon session session mode _ _ hs (hdeliveries delivery hmem)).2 _ hok)
    _ _ hstates h

theorem mapM_finishStream_rebind {sealedSession sealedSession' : SealedSession}
    (hsession : sealedSession.session = session) (hsession' : sealedSession'.session = session')
    {states : List (StreamState canon)} (hstates : AllIn session states) :
    (states.map (StreamState.rebind session')).zipIdx.mapM (finishStream sealedSession' mode) =
      states.zipIdx.mapM (finishStream sealedSession mode) := by
  rw [List.zipIdx_map, List.mapM_map]
  refine mapM_congr_mem fun state hstate => ?_
  have hstate := hstates state.1 (List.fst_mem_of_mem_zipIdx hstate)
  have hfinish := @StreamState.finish_rebind canon session' state.1 sealedSession sealedSession'
    (hstate.trans hsession.symm) hsession'.symm .sealed
  exact congrArg (Except.mapError _) hfinish

end Execute

/-! ### Two traces with one snapshot -/

namespace SealedTrace

/-- What two traces, each of its own session, have in common at a plan. -/
structure SameSnapshot (session' : SessionId) (plan : SchedulePlan)
    (trace trace' : SealedTrace canon) : Prop where
  limits_eq : trace'.limits = trace.limits
  streams : trace'.streams.take plan.streamPrefixLen =
    (trace.streams.take plan.streamPrefixLen).map (StreamBlueprint.rebind session')
  prefixes : SamePrefix session' plan.prefixLen trace.sources trace'.sources trace.sourceStreams
    trace'.sourceStreams
  ok : PrefixOk plan trace.sources trace.sourceStreams trace.streams.length
  ok' : PrefixOk plan trace'.sources trace'.sourceStreams trace'.streams.length

section Snapshot

variable {session session' : SessionId} {limits limits' : Limits} {records records' : List Record}
  {plan : SchedulePlan} {trace trace' : SealedTrace canon}
  (h : SameSnapshot session' plan trace trace') (hin : SealedIn session limits records trace)
  (hin' : SealedIn session' limits' records' trace')

include h

theorem SameSnapshot.materialize (allocator : Allocator) {index index' : Nat}
    (hplan : trace.schedules[index]? = some plan) (hplan' : trace'.schedules[index']? = some plan) :
    trace'.materialize allocator index' =
      (trace.materialize allocator index).map (MaterializedSchedule.rebind session') := by
  unfold SealedTrace.materialize
  rw [hplan, hplan', h.limits_eq]
  exact materializeSchedule_rebind allocator trace.limits h.ok h.ok' h.prefixes

include hin hin'

theorem SameSnapshot.execute {mode : ExecutionMode} (allocator : Allocator) (scheduleId : String)
    {deliveries : List (Nat × PreparedEnvelope canon)}
    (hdeliveries : ∀ delivery ∈ deliveries, delivery.2.session = session) :
    trace'.execute allocator mode scheduleId plan.streamPrefixLen plan.prefixLen
        (deliveries.map (rebindRoute session')) =
      trace.execute allocator mode scheduleId plan.streamPrefixLen plan.prefixLen deliveries := by
  have hguard : ¬ (plan.streamPrefixLen > trace.streams.length ∨
      plan.prefixLen > trace.sources.length) :=
    not_or.mpr ⟨Nat.not_lt.mpr h.ok.streamPrefix, Nat.not_lt.mpr h.ok.sourcePrefix⟩
  have hguard' : ¬ (plan.streamPrefixLen > trace'.streams.length ∨
      plan.prefixLen > trace'.sources.length) :=
    not_or.mpr ⟨Nat.not_lt.mpr h.ok'.streamPrefix, Nat.not_lt.mpr h.ok'.sourcePrefix⟩
  have hstarts : trace'.startsOf plan.streamPrefixLen =
      (trace.startsOf plan.streamPrefixLen).map (StreamState.rebind session') := by
    unfold startsOf
    rw [h.streams, List.map_map, List.map_map]
    exact List.map_congr_left fun blueprint _ => StreamState.fromBlueprint_rebind blueprint
  have hall : AllIn session (trace.startsOf plan.streamPrefixLen) := by
    intro state hstate
    obtain ⟨blueprint, hblueprint, rfl⟩ := List.mem_map.mp hstate
    exact (hin.blueprints blueprint (List.mem_of_mem_take hblueprint)).1
  have hrouted := @foldlM_admitRouted_rebind canon session session' mode deliveries hdeliveries
    (trace.startsOf plan.streamPrefixLen, 0) hall
  have hfold : ∀ routed, deliveries.foldlM (admitRouted mode)
      (trace.startsOf plan.streamPrefixLen, 0) = .ok routed → AllIn session routed.1 :=
    fun routed hok => allIn_foldlM hdeliveries hall hok
  have hstarted : (trace.streams.take plan.streamPrefixLen).zipIdx.mapM
      (startStream trace.sealedSession mode) = .ok (trace.startsOf plan.streamPrefixLen) :=
    mapM_startStream hin plan.streamPrefixLen
  have hstarted' : (trace'.streams.take plan.streamPrefixLen).zipIdx.mapM
      (startStream trace'.sealedSession mode) =
        .ok ((trace.startsOf plan.streamPrefixLen).map (StreamState.rebind session')) :=
    (mapM_startStream hin' plan.streamPrefixLen).trans (congrArg Except.ok hstarts)
  unfold SealedTrace.execute
  rw [rejectIf_neg hguard, rejectIf_neg hguard', hstarted, hstarted']
  refine congrArg (Except.bind _) (funext fun _ => congrArg (Except.bind _) (funext fun _ => ?_))
  show ((deliveries.map (rebindRoute session')).foldlM (admitRouted mode)
      (rebindRouted session' (trace.startsOf plan.streamPrefixLen, 0)) >>= _) = _
  rw [hrouted]
  show _ = (deliveries.foldlM (admitRouted mode) (trace.startsOf plan.streamPrefixLen, 0) >>= _)
  cases hresult : deliveries.foldlM (admitRouted mode)
      (trace.startsOf plan.streamPrefixLen, 0) with
  | error failure => rfl
  | ok routed =>
      show (tryReserve _ _ _ _ >>= fun _ =>
        (routed.1.map (StreamState.rebind session')).zipIdx.mapM _ >>= _) =
          (tryReserve _ _ _ _ >>= fun _ => routed.1.zipIdx.mapM _ >>= _)
      rw [mapM_finishStream_rebind hin.sealedSession hin'.sealedSession (hfold routed hresult)]
      rfl

/-- The schedule means the same in both traces. -/
theorem SameSnapshot.compareSchedule (allocator : Allocator) {index index' : Nat}
    (hplan : trace.schedules[index]? = some plan) (hplan' : trace'.schedules[index']? = some plan) :
    trace'.compareSchedule allocator index' = trace.compareSchedule allocator index := by
  have hpristine : (trace'.sourceStreams.take plan.prefixLen).zip
      (trace'.sources.take plan.prefixLen) = ((trace.sourceStreams.take plan.prefixLen).zip
        (trace.sources.take plan.prefixLen)).map (rebindRoute session') := by
    rw [h.prefixes.sources, h.prefixes.sourceStreams, List.zip_map_right]
    rfl
  have hzip : ∀ delivery ∈ (trace.sourceStreams.take plan.prefixLen).zip
      (trace.sources.take plan.prefixLen), delivery.2.session = session :=
    fun delivery hmem => hin.prepared _ (List.mem_of_mem_take (List.of_mem_zip hmem).2)
  have hlengths : plan.prefixLen ≤ trace.sourceStreams.length :=
    h.ok.sourcePrefix.trans_eq h.ok.lengths
  have hlengths' : plan.prefixLen ≤ trace'.sourceStreams.length :=
    h.ok'.sourcePrefix.trans_eq h.ok'.lengths
  unfold SealedTrace.compareSchedule
  rw [hplan, hplan', h.materialize allocator hplan hplan']
  cases hmaterialized : trace.materialize allocator index with
  | error failure => rfl
  | ok materialized =>
      have hfaulted : (materialized.rebind session').deliveries.map
          (fun delivery => (delivery.streamIndex, delivery.source)) =
            (materialized.deliveries.map fun delivery =>
              (delivery.streamIndex, delivery.source)).map (rebindRoute session') := by
        unfold MaterializedSchedule.rebind
        rw [List.map_map, List.map_map]
        rfl
      have hsources : ∀ delivery ∈ materialized.deliveries.map (fun delivery =>
          (delivery.streamIndex, delivery.source)), delivery.2.session = session := by
        obtain ⟨_, -, hrun⟩ := bind_eq_ok.mp hmaterialized
        rw [List.forall_mem_map]
        exact fun delivery hmem => hin.prepared _ (source_of_materializeSchedule hrun delivery hmem)
      dsimp only [okOr, Except.map, Bind.bind, Except.bind]
      rw [sliceTo_total hlengths, sliceTo_total hlengths', sliceTo_total h.ok.sourcePrefix,
        sliceTo_total h.ok'.sourcePrefix]
      dsimp only
      rw [hpristine, h.execute hin hin' allocator plan.id hzip, hfaulted,
        h.execute hin hin' allocator plan.id hsources]

end Snapshot

end SealedTrace

/-! ### What an assembler gathers -/

/-- An input of an assembler, as far as a trace depends on it. -/
abbrev Entry := Record × Option BaselineAuthority

/-- The entries of a sequence of inputs. -/
def entriesOf (inputs : List (ValidatedRecord × Option BaselineAuthority)) : List Entry :=
  inputs.map fun input => (input.1.asRecord, input.2)

/-- The streams and envelopes among the entries, with the authorities. -/
def snapshotOf (entries : List Entry) : List Entry :=
  entries.filter fun entry => RecordRoute.ofRecord entry.1 != .other

/-- The blueprint of an entry that declares a stream. -/
def blueprintOf (session : SessionId) (limits : Limits) : Entry → Option StreamBlueprint
  | (.stream stream, some authority) =>
      if h : authority = .trustDeclaredEmpty → stream.baseline = .emptyAtEngineStart then
        some {
          session := session
          limits := limits
          registration := EnvelopeNormalizer.registrationOf stream authority h }
      else none
  | _ => none

theorem cursor_toNat_lt (envelope : EventEnvelope) : envelope.cursor.get.toNat < 2 ^ 64 :=
  envelope.cursor.get.toNat_lt

/-- Where the first clear of an envelope stands. -/
def EventEnvelope.firstClear (envelope : EventEnvelope) : Option Nat :=
  envelope.mutations.findIdx? Mutation.isClear

theorem firstClear_eq_findIdx (envelope : EventEnvelope) :
    envelope.firstClear = envelope.mutations.findIdx? Mutation.isClear := rfl

/-- The prepared source of an entry that is an envelope. -/
def sourceOf (canon : Canonical) (session : SessionId) : Entry → Option (PreparedEnvelope canon)
  | (.envelope envelope, _) => some {
      session := session
      envelopeId := envelope.envelopeId
      streamId := envelope.streamId
      cursor := envelope.cursor.get.toNat
      origin := envelope.origin
      mutations := envelope.mutations
      fingerprint := canon.fingerprint envelope.mutations
      canonicalBytes := (canon.text envelope.mutations).length
      firstClear := envelope.firstClear
      cursor_lt := cursor_toNat_lt envelope
      fingerprint_eq := rfl
      canonicalBytes_eq := rfl
      firstClear_eq := firstClear_eq_findIdx envelope }
  | _ => none

section Entries

variable {session session' : SessionId} {limits : Limits} {entry : Entry}

theorem blueprintOf_rebind : blueprintOf session' limits entry =
    (blueprintOf session limits entry).map (StreamBlueprint.rebind session') := by
  obtain ⟨record, authority⟩ := entry
  cases record with
  | stream stream =>
      cases authority with
      | none => rfl
      | some authority =>
          rw [blueprintOf, blueprintOf]
          by_cases h : authority = .trustDeclaredEmpty → stream.baseline = .emptyAtEngineStart
          · rw [dif_pos h, dif_pos h]
            rfl
          · rw [dif_neg h, dif_neg h]
            rfl
  | traceHeader header => rfl
  | envelope envelope => rfl
  | faultSchedule schedule => rfl

theorem sourceOf_rebind : sourceOf canon session' entry =
    (sourceOf canon session entry).map (PreparedEnvelope.rebind session') := by
  obtain ⟨record, authority⟩ := entry
  cases record <;> rfl

/-- Only streams and envelopes are gathered. -/
theorem filterMap_snapshotOf {α : Type*} {f : Entry → Option α}
    (hf : ∀ entry : Entry, RecordRoute.ofRecord entry.1 = .other → f entry = none)
    (entries : List Entry) : (snapshotOf entries).filterMap f = entries.filterMap f := by
  unfold snapshotOf
  rw [List.filterMap_filter]
  refine List.filterMap_congr fun entry _ => ?_
  by_cases hroute : RecordRoute.ofRecord entry.1 = .other
  · rw [hf entry hroute]
    exact ite_self none
  · rw [if_pos (bne_iff_ne.mpr hroute)]

theorem blueprintOf_other (h : RecordRoute.ofRecord entry.1 = .other) :
    blueprintOf session limits entry = none := by
  obtain ⟨record, authority⟩ := entry
  cases record with
  | stream stream => cases h
  | envelope envelope => cases h
  | traceHeader header => rfl
  | faultSchedule schedule => rfl

theorem sourceOf_other (h : RecordRoute.ofRecord entry.1 = .other) :
    sourceOf canon session entry = none := by
  obtain ⟨record, authority⟩ := entry
  cases record with
  | stream stream => cases h
  | envelope envelope => cases h
  | traceHeader header => rfl
  | faultSchedule schedule => rfl

end Entries

namespace EnvelopeNormalizer

variable {n n' : EnvelopeNormalizer} {record : ValidatedRecord}

theorem bindStream_session {registration registered : RegisteredStream}
    (h : n.bindStream registration = (.ok registered, n')) :
    n'.session = n.session ∧ n'.limits = n.limits := by
  unfold bindStream at h
  cases hinner : n.bindStreamInner registration with
  | error error =>
      rw [hinner] at h
      cases h
  | ok result =>
      rw [hinner] at h
      cases h
      unfold bindStreamInner at hinner
      split at hinner
      next =>
        split at hinner
        next => cases hinner; exact ⟨rfl, rfl⟩
        next => cases hinner
      next =>
        obtain ⟨_, -, hinner⟩ := bind_eq_ok.mp hinner
        obtain ⟨_, -, hinner⟩ := bind_eq_ok.mp hinner
        obtain ⟨_, -, hinner⟩ := bind_eq_ok.mp hinner
        obtain ⟨_, -, hinner⟩ := bind_eq_ok.mp hinner
        obtain ⟨_, -, hinner⟩ := bind_eq_ok.mp hinner
        obtain ⟨_, -, hinner⟩ := bind_eq_ok.mp hinner
        obtain ⟨_, -, hinner⟩ := bind_eq_ok.mp hinner
        obtain ⟨_, -, hinner⟩ := bind_eq_ok.mp hinner
        obtain ⟨_, -, hinner⟩ := bind_eq_ok.mp hinner
        obtain rfl := pure_eq_ok.mp hinner
        exact ⟨rfl, rfl⟩

/-- A registered stream is its blueprint, and the session goes on. -/
theorem registerStream_gathers {authority : BaselineAuthority} {blueprint : StreamBlueprint}
    (h : n.registerStream record authority = (.ok blueprint, n')) :
    blueprintOf n.session n.limits (record.asRecord, some authority) = some blueprint ∧
      n'.session = n.session ∧ n'.limits = n.limits := by
  unfold registerStream at h
  split at h
  next => cases h
  next =>
    split at h
    next => cases h
    next =>
      split at h
      next => cases h
      next =>
        split at h
        next stream hrecord =>
          unfold registerDeclaration at h
          split at h
          next hauthority =>
            split at h
            next registration n'' hbind =>
              cases h
              obtain rfl := bindStream_ok hbind
              obtain ⟨hsession, hlimits⟩ := bindStream_session hbind
              rw [hrecord, blueprintOf, dif_pos hauthority, hsession, hlimits]
              exact ⟨rfl, rfl, rfl⟩
            next => cases h
          next => cases h
        next => cases h

theorem prepareEnvelope_origin {envelope : EventEnvelope}
    {result : PreparedEnvelope canon × EnvelopeNormalizer}
    (h : n.prepareEnvelope canon envelope = .ok result) : result.1.origin = envelope.origin := by
  obtain ⟨_, -, h⟩ := bind_eq_ok.mp h
  obtain ⟨_, -, h⟩ := bind_eq_ok.mp h
  obtain ⟨_, -, h⟩ := bind_eq_ok.mp h
  obtain ⟨_, -, h⟩ := bind_eq_ok.mp h
  obtain ⟨_, -, h⟩ := bind_eq_ok.mp h
  obtain ⟨_, -, h⟩ := bind_eq_ok.mp h
  split at h
  next => cases h
  next =>
    obtain ⟨_, -, h⟩ := bind_eq_ok.mp h
    obtain ⟨_, -, h⟩ := bind_eq_ok.mp h
    obtain rfl := pure_eq_ok.mp h
    rfl

/-- A prepared envelope is its source, and the session goes on. -/
theorem prepare_gathers {source : PreparedEnvelope canon} {authority : Option BaselineAuthority}
    (h : n.prepare canon record = (.ok source, n')) :
    sourceOf canon n.session (record.asRecord, authority) = some source ∧
      n'.session = n.session ∧ n'.limits = n.limits := by
  obtain ⟨envelope, hrecord, hprepared⟩ := prepare_ok h
  unfold prepare at h
  split at h
  next => cases h
  next =>
    split at h
    next result n'' hinner =>
      cases h
      unfold prepareInner at hinner
      split at hinner
      next => cases hinner
      next =>
        rw [hrecord] at hinner
        have horigin := prepareEnvelope_origin hinner
        obtain ⟨hsession, bytes, hafter⟩ := prepareEnvelope_prepared hinner
        dsimp only at hsession hafter horigin
        rw [hrecord, hafter]
        refine ⟨congrArg some ?_, rfl, rfl⟩
        obtain ⟨session, envelopeId, streamId, cursor, origin, mutations, fingerprint, bytes,
          firstClear, hcursor, hfingerprint, hbytes, hclear⟩ := source
        obtain ⟨hid, hstream, hcursorEq, hmutations⟩ := hprepared
        dsimp only at hsession horigin hid hstream hcursorEq hmutations
        subst hsession horigin hid hstream hcursorEq hmutations hfingerprint hbytes hclear
        rfl
    next => cases h

end EnvelopeNormalizer

namespace TraceAssembler

/-- What an assembler holds is read off the entries it accepted. -/
structure Gathered (session : SessionId) (limits : Limits) (entries : List Entry)
    (a : TraceAssembler canon) : Prop where
  session_eq : a.normalizer.session = session
  limits_eq : a.normalizer.limits = limits
  streams : a.streams = entries.filterMap (blueprintOf session limits)
  sources : a.sources = entries.filterMap (sourceOf canon session)

variable {session : SessionId} {limits : Limits} {entries : List Entry}
  {a a' : TraceAssembler canon} {record : ValidatedRecord} {authority : Option BaselineAuthority}

theorem new_gathered (h : new session limits = .ok a) : Gathered session limits [] a := by
  obtain ⟨validator, -, h⟩ := bind_eq_ok.mp h
  obtain ⟨normalizer, hnormalizer, h⟩ := bind_eq_ok.mp h
  obtain rfl := pure_eq_ok.mp h
  rw [mapError_eq_ok] at hnormalizer
  obtain ⟨_, -, hnormalizer⟩ := bind_eq_ok.mp hnormalizer
  obtain rfl := pure_eq_ok.mp hnormalizer
  exact ⟨rfl, rfl, rfl, rfl⟩

/-- An entry that is not gathered. -/
theorem Gathered.skip (h : Gathered session limits entries a) {entry : Entry}
    (hroute : RecordRoute.ofRecord entry.1 = .other) :
    Gathered session limits (entries ++ [entry]) a where
  session_eq := h.session_eq
  limits_eq := h.limits_eq
  streams := by
    rw [List.filterMap_append, List.filterMap_cons, blueprintOf_other hroute]
    exact h.streams.trans (List.append_nil _).symm
  sources := by
    rw [List.filterMap_append, List.filterMap_cons, sourceOf_other hroute]
    exact h.sources.trans (List.append_nil _).symm

/-- An accepted input is gathered. -/
theorem Gathered.pushInner (h : Gathered session limits entries a)
    (hpush : a.pushInner record authority = .ok a') :
    Gathered session limits (entries ++ [(record.asRecord, authority)]) a' := by
  obtain ⟨authority', hauthority, hpush⟩ := bind_eq_ok.mp hpush
  obtain ⟨a₁, hvalidator, hpush⟩ := bind_eq_ok.mp hpush
  -- the validator does not touch what is gathered
  have h : Gathered session limits entries a₁ := by
    unfold pushValidator at hvalidator
    split at hvalidator
    next =>
      obtain rfl := Except.ok.inj hvalidator
      exact ⟨h.session_eq, h.limits_eq, h.streams, h.sources⟩
    next => cases hvalidator
  cases hrecord : record.asRecord with
  | traceHeader header =>
      rw [hrecord] at hpush
      obtain rfl := Except.ok.inj hpush
      exact h.skip rfl
  | faultSchedule schedule =>
      rw [hrecord] at hpush
      obtain rfl := Except.ok.inj hpush
      exact h.skip rfl
  | stream stream =>
      rw [hrecord] at hpush hauthority
      cases authority with
      | none => cases hauthority
      | some authority =>
          obtain rfl := Except.ok.inj hauthority
          change a₁.pushStream record authority = .ok a' at hpush
          unfold pushStream at hpush
          split at hpush
          next blueprint normalizer hregister =>
            obtain rfl := Except.ok.inj hpush
            obtain ⟨hblueprint, hsession, hlimits⟩ :=
              EnvelopeNormalizer.registerStream_gathers hregister
            rw [h.session_eq, h.limits_eq, hrecord] at hblueprint
            refine ⟨hsession.trans h.session_eq, hlimits.trans h.limits_eq, ?_, ?_⟩
            · rw [List.filterMap_append, List.filterMap_cons, hblueprint, ← h.streams]
              rfl
            · rw [List.filterMap_append, ← h.sources]
              exact (List.append_nil _).symm
          next => cases hpush
  | envelope envelope =>
      rw [hrecord] at hpush
      change a₁.pushEnvelope record = .ok a' at hpush
      unfold pushEnvelope at hpush
      split at hpush
      next source normalizer hprepare =>
        obtain rfl := Except.ok.inj hpush
        obtain ⟨hsource, hsession, hlimits⟩ :=
          @EnvelopeNormalizer.prepare_gathers _ _ _ _ _ authority hprepare
        rw [h.session_eq, hrecord] at hsource
        refine ⟨hsession.trans h.session_eq, hlimits.trans h.limits_eq, ?_, ?_⟩
        · rw [List.filterMap_append, ← h.streams]
          exact (List.append_nil _).symm
        · rw [List.filterMap_append, List.filterMap_cons, hsource, ← h.sources]
          rfl
      next => cases hpush

/-- An assembler that did not fail has gathered all it was given. -/
theorem Gathered.pushAll {inputs : List (ValidatedRecord × Option BaselineAuthority)} :
    ∀ {entries : List Entry} {a : TraceAssembler canon}, Gathered session limits entries a →
      a.failed = false → (a.pushAll inputs).failed = false →
        Gathered session limits (entries ++ entriesOf inputs) (a.pushAll inputs) := by
  induction inputs with
  | nil =>
      intro entries a h _ _
      rw [entriesOf, List.map_nil, List.append_nil]
      exact h
  | cons input inputs ih =>
      intro entries a h hlive hend
      change ((a.push input.1 input.2).2.pushAll inputs).failed = false at hend
      show Gathered session limits _ ((a.push input.1 input.2).2.pushAll inputs)
      cases hpush : a.pushInner input.1 input.2 with
      | error failure =>
          have hfailed : (a.push input.1 input.2).2.failed = true := by
            simp [push, hlive, hpush]
          rw [pushAll_failed hfailed] at hend
          cases hend
      | ok a' =>
          have hnext : (a.push input.1 input.2).2 = a' := by
            simp [push, hlive, hpush]
          rw [hnext] at hend ⊢
          have hlive' : a'.failed = false := (pushInner_failed hpush).trans hlive
          have hrest := ih (h.pushInner hpush) hlive' hend
          rw [List.append_assoc] at hrest
          exact hrest

end TraceAssembler

namespace SealedTrace

variable {session session' : SessionId} {limits : Limits} {trace trace' : SealedTrace canon}
  {a : TraceAssembler canon}

/-- A sealed trace holds what was gathered. -/
theorem gathered_of_finish {allocator : Allocator}
    {inputs : List (ValidatedRecord × Option BaselineAuthority)}
    (hnew : TraceAssembler.new session limits = .ok a)
    (hfinish : (a.pushAll inputs).finish allocator = .ok trace) :
    trace.streams = (entriesOf inputs).filterMap (blueprintOf session limits) ∧
      trace.sources = (entriesOf inputs).filterMap (sourceOf canon session) := by
  obtain ⟨_, hfailed, hfinish⟩ := bind_eq_ok.mp hfinish
  rw [rejectIf_eq_ok, Bool.not_eq_true] at hfailed
  have hend := (TraceAssembler.new_gathered hnew).pushAll (TraceAssembler.new_ok hnew).2 hfailed
  rw [List.nil_append] at hend
  obtain ⟨_, -, hfinish⟩ := bind_eq_ok.mp hfinish
  obtain ⟨_, -, hfinish⟩ := bind_eq_ok.mp hfinish
  obtain ⟨_, -, hfinish⟩ := bind_eq_ok.mp hfinish
  obtain ⟨_, -, hfinish⟩ := bind_eq_ok.mp hfinish
  obtain ⟨_, -, hfinish⟩ := bind_eq_ok.mp hfinish
  obtain rfl := pure_eq_ok.mp hfinish
  exact ⟨hend.streams, hend.sources⟩

/-- What the entries before a place contribute are the prefixes up to it. -/
theorem prefixes_of_finish {allocator : Allocator}
    {before rest : List (ValidatedRecord × Option BaselineAuthority)}
    (hnew : TraceAssembler.new session limits = .ok a)
    (hfinish : (a.pushAll (before ++ rest)).finish allocator = .ok trace) :
    trace.streams.take (streamIdsOf (TraceAssembler.recordsOf before)).length =
        (entriesOf before).filterMap (blueprintOf session limits) ∧
      trace.sources.take (envelopeIdsOf (TraceAssembler.recordsOf before)).length =
        (entriesOf before).filterMap (sourceOf canon session) := by
  obtain ⟨hstreams, hsources⟩ := gathered_of_finish hnew hfinish
  obtain ⟨hstart, hlive⟩ := TraceAssembler.new_ok hnew
  obtain ⟨_, hfailed, -⟩ := bind_eq_ok.mp hfinish
  rw [rejectIf_eq_ok, Bool.not_eq_true] at hfailed
  have hbefore : (a.pushAll before).failed = false := by
    rw [← Bool.not_eq_true]
    intro hbad
    have hsticky := TraceAssembler.pushAll_failed hbad rest
    have happend : a.pushAll (before ++ rest) = (a.pushAll before).pushAll rest := List.foldl_append
    rw [← happend, hfailed] at hsticky
    cases hsticky
  have hassembled := hstart.pushAll hlive hbefore
  have hgathered := (TraceAssembler.new_gathered hnew).pushAll hlive hbefore
  rw [List.nil_append] at hassembled hgathered
  have hstreamLength : (streamIdsOf (TraceAssembler.recordsOf before)).length =
      ((entriesOf before).filterMap (blueprintOf session limits)).length := by
    rw [← hgathered.streams, ← hassembled.streams.length_eq, streamIdsOf, List.length_map]
  have hsourceLength : (envelopeIdsOf (TraceAssembler.recordsOf before)).length =
      ((entriesOf before).filterMap (sourceOf canon session)).length := by
    rw [← hgathered.sources, ← hassembled.sources.length_eq, envelopeIdsOf, List.length_map]
  have hentries : entriesOf (before ++ rest) = entriesOf before ++ entriesOf rest := List.map_append
  rw [hstreams, hsources, hentries, List.filterMap_append, List.filterMap_append, hstreamLength,
    hsourceLength]
  exact ⟨List.take_left, List.take_left⟩

/-- The records before a place are read off its snapshot. -/
theorem ids_of_snapshot {before before' : List (ValidatedRecord × Option BaselineAuthority)}
    (h : snapshotOf (entriesOf before) = snapshotOf (entriesOf before')) :
    streamIdsOf (TraceAssembler.recordsOf before) = streamIdsOf (TraceAssembler.recordsOf before') ∧
      envelopeIdsOf (TraceAssembler.recordsOf before) =
        envelopeIdsOf (TraceAssembler.recordsOf before') := by
  have hrecords : ∀ {α : Type} (f : Record → Option α)
      (_ : ∀ record, RecordRoute.ofRecord record = .other → f record = none),
      (TraceAssembler.recordsOf before).filterMap f =
        (TraceAssembler.recordsOf before').filterMap f := by
    intro α f hf
    have hentries : ∀ inputs, (TraceAssembler.recordsOf inputs).filterMap f =
        (snapshotOf (entriesOf inputs)).filterMap fun entry => f entry.1 := by
      intro inputs
      rw [filterMap_snapshotOf fun entry hroute => hf entry.1 hroute, TraceAssembler.recordsOf,
        entriesOf, List.filterMap_map, List.filterMap_map]
      rfl
    rw [hentries, hentries, h]
  have hstreams := hrecords Record.stream? fun record hroute => by
    cases record with
    | stream stream => cases hroute
    | traceHeader header => rfl
    | envelope envelope => rfl
    | faultSchedule schedule => rfl
  have henvelopes := hrecords Record.envelope? fun record hroute => by
    cases record with
    | envelope envelope => cases hroute
    | traceHeader header => rfl
    | stream stream => rfl
    | faultSchedule schedule => rfl
  exact ⟨congrArg (List.map StreamDeclaration.streamId) hstreams,
    congrArg (List.map EventEnvelope.envelopeId) henvelopes⟩

/-- The route of a source in a prefix is the position of its stream in it. -/
theorem SealedFrom.route_eq {records before after : List Record}
    (h : SealedFrom limits records trace) (hrecords : records = before ++ after) {i ordinal : Nat}
    {source : PreparedEnvelope canon}
    (hi : i < (envelopeIdsOf before).length) (hordinal : trace.sourceStreams[i]? = some ordinal)
    (hsource : trace.sources[i]? = some source) :
    (streamIdsOf before)[ordinal]? = some source.streamId := by
  have hmem : ordinal ∈ trace.sourceStreams.take (envelopeIdsOf before).length := by
    apply List.mem_of_getElem? (i := i)
    rw [List.getElem?_take_of_lt hi, hordinal]
  have hlt := h.route_lt hrecords ordinal hmem
  obtain ⟨source', hsource', hid⟩ := getElem?_of_forall₂ h.sourceStreams hordinal
  obtain rfl := Option.some.inj (hsource'.symm.trans hsource)
  rw [hrecords, streamIdsOf_append, List.getElem?_append_left hlt] at hid
  exact hid

/-- The routes of a prefix are determined by its sources and its streams. -/
theorem routes_congr {before before' after after' : List Record} {records records' : List Record}
    {limits' : Limits} (h : SealedFrom limits records trace)
    (h' : SealedFrom limits' records' trace') (hrecords : records = before ++ after)
    (hrecords' : records' = before' ++ after') (hstreams : streamIdsOf before = streamIdsOf before')
    (henvelopes : envelopeIdsOf before = envelopeIdsOf before')
    (hsources : trace'.sources.take (envelopeIdsOf before).length =
      (trace.sources.take (envelopeIdsOf before).length).map (PreparedEnvelope.rebind session')) :
    trace'.sourceStreams.take (envelopeIdsOf before).length =
      trace.sourceStreams.take (envelopeIdsOf before).length := by
  have hnodup : (streamIdsOf before).Nodup := by
    subst hrecords
    exact h.wellFormed.of_append.streamIds
  have hlength := congrArg List.length hsources
  rw [List.length_map, List.length_take, List.length_take, h.sourceStreams.length_eq,
    h'.sourceStreams.length_eq, ← List.length_take, ← List.length_take] at hlength
  apply List.ext_getElem hlength
  intro i hi' hi
  rw [List.getElem_take, List.getElem_take]
  rw [List.length_take, lt_min_iff] at hi hi'
  -- both routes point at the stream that the source names
  obtain ⟨hlt, hroute⟩ := hi
  obtain ⟨-, hroute'⟩ := hi'
  have hget := List.getElem?_eq_getElem hroute
  have hget' := List.getElem?_eq_getElem hroute'
  obtain ⟨source, hsource, -⟩ := getElem?_of_forall₂ h.sourceStreams hget
  have hsource' : trace'.sources[i]? = some (source.rebind session') := by
    have htaken := congrArg (fun sources => sources[i]?) hsources
    rw [List.getElem?_map, List.getElem?_take_of_lt hlt, List.getElem?_take_of_lt hlt,
      hsource] at htaken
    exact htaken
  have hleft := h.route_eq hrecords hlt hget hsource
  have hright := h'.route_eq hrecords' (henvelopes ▸ hlt) hget' hsource'
  rw [← hstreams] at hright
  obtain ⟨hbound, -⟩ := List.getElem?_eq_some_iff.mp hright
  exact (List.getElem?_inj hbound hnodup).mp (hright.trans hleft.symm)

/-- Schedules are isolated from everything but the streams and envelopes
before them.  When two traces, each sealed from its own records in its own
session, hold one schedule behind the same streams and envelopes, it is
materialized and compared in the same way in both, errors included. -/
theorem snapshot_isolation {a a' : TraceAssembler canon} {sealing sealing' : Allocator}
    {before after before' after' : List (ValidatedRecord × Option BaselineAuthority)}
    {input input' : ValidatedRecord × Option BaselineAuthority} {schedule : FaultSchedule}
    (hnew : TraceAssembler.new session limits = .ok a)
    (hnew' : TraceAssembler.new session' limits = .ok a')
    (hinput : input.1.asRecord = .faultSchedule schedule)
    (hinput' : input'.1.asRecord = .faultSchedule schedule)
    (hfinish : (a.pushAll (before ++ input :: after)).finish sealing = .ok trace)
    (hfinish' : (a'.pushAll (before' ++ input' :: after')).finish sealing' = .ok trace')
    (hsnapshot : snapshotOf (entriesOf before) = snapshotOf (entriesOf before'))
    (allocator : Allocator) :
    trace'.materialize allocator (schedulesOf (TraceAssembler.recordsOf before')).length =
        (trace.materialize allocator (schedulesOf (TraceAssembler.recordsOf before)).length).map
          (MaterializedSchedule.rebind session') ∧
      trace'.compareSchedule allocator (schedulesOf (TraceAssembler.recordsOf before')).length =
        trace.compareSchedule allocator (schedulesOf (TraceAssembler.recordsOf before)).length := by
  have hin := finish_sealed hnew hfinish
  have hin' := finish_sealed hnew' hfinish'
  have hrecords : TraceAssembler.recordsOf (before ++ input :: after) =
      TraceAssembler.recordsOf before ++ .faultSchedule schedule ::
        TraceAssembler.recordsOf after := by
    rw [← hinput]
    exact List.map_append
  have hrecords' : TraceAssembler.recordsOf (before' ++ input' :: after') =
      TraceAssembler.recordsOf before' ++ .faultSchedule schedule ::
        TraceAssembler.recordsOf after' := by
    rw [← hinput']
    exact List.map_append
  obtain ⟨hstreamIds, henvelopeIds⟩ := ids_of_snapshot hsnapshot
  -- the schedule has one plan
  obtain ⟨plan, hplanOf⟩ : ∃ plan, planOf (TraceAssembler.recordsOf before)
      (.faultSchedule schedule) = some plan := ⟨_, rfl⟩
  have hplanOf' : planOf (TraceAssembler.recordsOf before') (.faultSchedule schedule) =
      some plan := by
    rw [← hplanOf, planOf, planOf, hstreamIds, henvelopeIds]
  have hplan := (hin.plan_at hrecords).trans hplanOf
  have hplan' := (hin'.plan_at hrecords').trans hplanOf'
  obtain ⟨hsourcePrefix, hstreamPrefix, hroutes⟩ := hin.prefix_ok hrecords hplanOf
  obtain ⟨hsourcePrefix', hstreamPrefix', hroutes'⟩ := hin'.prefix_ok hrecords' hplanOf'
  -- the prefixes hold what was gathered before the schedule
  obtain ⟨hstreams, hsources⟩ := prefixes_of_finish hnew hfinish
  obtain ⟨hstreams', hsources'⟩ := prefixes_of_finish hnew' hfinish'
  rw [← filterMap_snapshotOf (fun entry h => blueprintOf_other h), ← hsnapshot,
    filterMap_snapshotOf (fun entry h => blueprintOf_other h), ← hstreamIds,
    funext fun entry => @blueprintOf_rebind session session' limits entry,
    ← List.map_filterMap, ← hstreams] at hstreams'
  rw [← filterMap_snapshotOf (fun entry h => sourceOf_other h), ← hsnapshot,
    filterMap_snapshotOf (fun entry h => sourceOf_other h), ← henvelopeIds,
    funext fun entry => @sourceOf_rebind canon session session' entry,
    ← List.map_filterMap, ← hsources] at hsources'
  have hsame : SameSnapshot session' plan trace trace' := by
    obtain rfl := Option.some.inj hplanOf
    exact {
      limits_eq := hin'.limits_eq.trans hin.limits_eq.symm
      streams := hstreams'
      prefixes := ⟨hsources', routes_congr hin.toSealedFrom hin'.toSealedFrom hrecords hrecords'
        hstreamIds henvelopeIds hsources'⟩
      ok := ⟨hsourcePrefix, hin.sourceStreams.length_eq, hstreamPrefix, hroutes⟩
      ok' := ⟨hsourcePrefix', hin'.sourceStreams.length_eq, hstreamPrefix', hroutes'⟩ }
  exact ⟨hsame.materialize allocator hplan hplan',
    hsame.compareSchedule hin hin' allocator hplan hplan'⟩

end SealedTrace

/-! ### A longer sample trace -/

namespace Sample

/-- A schedule without faults. -/
def control : FaultSchedule := { scheduleId := "control", actions := [], extensions := [] }

theorem control_passes : ∃ limits, (Record.faultSchedule control).validate limits = .ok () :=
  ⟨forgetful, by decide +kernel⟩

theorem schedule_passes : ∃ limits, (Record.faultSchedule schedule).validate limits = .ok () :=
  ⟨forgetful, by decide +kernel⟩

/-- An envelope behind the schedules. -/
def third : EventEnvelope := envelope "third" 1 [store 3]

theorem third_passes : ∃ limits, (Record.envelope third).validate limits = .ok () :=
  ⟨forgetful, by decide +kernel⟩

/-- The inputs before the schedule, with another schedule behind them. -/
def longerBefore : List (ValidatedRecord × Option BaselineAuthority) :=
  inputs.take 4 ++ [(⟨.faultSchedule control, control_passes⟩, none)]

/-- The schedule, as an input. -/
def scheduleInput : ValidatedRecord × Option BaselineAuthority :=
  (⟨.faultSchedule schedule, schedule_passes⟩, none)

/-- The longer trace, sealed in another session. -/
def longerTrace : Except ScenarioFailure (SealedTrace canonical) := do
  let a ← TraceAssembler.new 1 forgetful
  (a.pushAll (longerBefore ++ scheduleInput ::
    [(⟨.envelope third, third_passes⟩, none)])).finish granting

end Sample

namespace SealedTrace

/-- The sample schedule, alone and in the longer trace. -/
theorem sample_snapshot_isolation :
    ∃ trace trace', Sample.sealedTrace = .ok trace ∧ Sample.longerTrace = .ok trace' ∧
      trace'.materialize Sample.granting 1 =
        (trace.materialize Sample.granting 0).map (MaterializedSchedule.rebind 1) ∧
      trace'.compareSchedule Sample.granting 1 = trace.compareSchedule Sample.granting 0 := by
  have hsealed : Sample.sealedTrace.toOption.isSome = true := by
    decide +kernel
  have hlonger : Sample.longerTrace.toOption.isSome = true := by
    decide +kernel
  cases htrace : Sample.sealedTrace with
  | error failure =>
      rw [htrace] at hsealed
      cases hsealed
  | ok trace =>
      cases htrace' : Sample.longerTrace with
      | error failure =>
          rw [htrace'] at hlonger
          cases hlonger
      | ok trace' =>
          obtain ⟨a, hnew, hfinish⟩ := bind_eq_ok.mp htrace
          obtain ⟨a', hnew', hfinish'⟩ := bind_eq_ok.mp htrace'
          have hisolated := @snapshot_isolation _ 0 1 _ trace trace' a a' Sample.granting
            Sample.granting (Sample.inputs.take 4) [] Sample.longerBefore _ Sample.scheduleInput
            Sample.scheduleInput _ hnew hnew' rfl rfl hfinish hfinish' rfl Sample.granting
          exact ⟨trace, trace', rfl, rfl, hisolated⟩

end SealedTrace

end KvCrucible
