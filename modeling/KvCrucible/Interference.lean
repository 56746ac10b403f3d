/-
KvCrucible/Interference.lean

Publisher streams do not interfere.

`execute` drives a vector of states from one interleaved sequence and stops at
the first failure of any of them.  It is described here without the
interleaving: it succeeds exactly when every stream takes what is routed to it
(`Interleaves`), so its result depends on the single subsequences only.  At
the level of schedules, a stream depends on the slice of the actions for it: an
action on another stream leaves its subsequence as it is unless a later action
of the slice is anchored at what it edits.
-/
import KvCrucible.Assembly
import KvCrucible.Batching
import KvCrucible.Convergence
import KvCrucible.Slice

namespace KvCrucible

open Basis Std StreamState

variable {canon : Canonical}

/-! ### What is routed to a stream -/

section Routed

variable {stream : Nat} {delivery : Nat × PreparedEnvelope canon}
  {deliveries deliveries' : List (Nat × PreparedEnvelope canon)}

theorem routedTo_cons : routedTo stream (delivery :: deliveries) =
    (if delivery.1 = stream then [delivery.2] else []) ++ routedTo stream deliveries := by
  unfold routedTo
  by_cases h : delivery.1 = stream
  · simp [h]
  · simp [h]

/-- Every delivery is routed to exactly one stream. -/
theorem length_eq_sum_routedTo {count : Nat} (h : ∀ delivery ∈ deliveries, delivery.1 < count) :
    deliveries.length = ∑ stream ∈ Finset.range count, (routedTo stream deliveries).length := by
  induction deliveries with
  | nil => simp [routedTo]
  | cons delivery deliveries ih =>
      rw [List.forall_mem_cons] at h
      have hone : ∑ stream ∈ Finset.range count,
          (if delivery.1 = stream then [delivery.2] else []).length = 1 := by
        have hlen : ∀ stream, (if delivery.1 = stream then [delivery.2] else []).length =
            if delivery.1 = stream then 1 else 0 := by
          intro stream
          split <;> rfl
        simp only [hlen, Finset.sum_ite_eq, Finset.mem_range, h.1, if_true]
      simp only [routedTo_cons, List.length_append, Finset.sum_add_distrib]
      rw [hone, ← ih h.2, List.length_cons, Nat.add_comm]

/-- Sequences that agree on every stream have the same length. -/
theorem length_eq_of_routedTo (h : ∀ stream, routedTo stream deliveries =
    routedTo stream deliveries') : deliveries.length = deliveries'.length := by
  obtain ⟨count, hcount⟩ : ∃ count, ∀ delivery ∈ deliveries, delivery.1 < count :=
    ⟨(deliveries.map Prod.fst).sum + 1, fun delivery hmem => Nat.lt_succ_of_le
      (List.single_le_sum (fun _ _ => Nat.zero_le _) _ (List.mem_map_of_mem hmem))⟩
  have hcount' : ∀ delivery ∈ deliveries', delivery.1 < count := by
    intro delivery hmem
    have hrouted : delivery.2 ∈ routedTo delivery.1 deliveries' := mem_routedTo.mpr hmem
    rw [← h] at hrouted
    exact hcount _ (mem_routedTo.mp hrouted)
  rw [length_eq_sum_routedTo hcount, length_eq_sum_routedTo hcount']
  simp only [h]

end Routed

/-! ### One stream at a time -/

/-- From `s` to `s'` every stream takes what is routed to it. -/
structure Interleaves (deliveries : List (Nat × PreparedEnvelope canon))
    (s s' : List (StreamState canon) × Nat) : Prop where
  count : s'.2 = s.2 + deliveries.length
  count_lt : s'.2 < 2 ^ 64
  known : ∀ delivery ∈ deliveries, delivery.1 < s.1.length
  length : s'.1.length = s.1.length
  streams : ∀ (stream : Nat) (state : StreamState canon), s.1[stream]? = some state →
    ∃ state', s'.1[stream]? = some state' ∧
      state.admitAll .sealed (routedTo stream deliveries) = .ok state'

theorem admitOne_eq_ok {s s' : StreamState canon} {status : SessionStatus}
    {e : PreparedEnvelope canon} :
    s.admitOne status e = .ok s' ↔ ∃ d, s.admitDelivery status e = (.ok d, s') := by
  unfold admitOne
  rcases s.admitDelivery status e with ⟨failure | d, s₁⟩
  · simp [Except.map]
  · simp [Except.map]

theorem admitRouted_eq_ok {mode : ExecutionMode} {s s' : List (StreamState canon) × Nat}
    {delivery : Nat × PreparedEnvelope canon} :
    admitRouted mode s delivery = .ok s' ↔
      ∃ state state', s.1[delivery.1]? = some state ∧
        state.admitOne .sealed delivery.2 = .ok state' ∧ s.2 + 1 < 2 ^ 64 ∧
        s' = (s.1.set delivery.1 state', s.2 + 1) := by
  constructor
  · intro h
    obtain ⟨state, hstate, h⟩ := bind_eq_ok.mp h
    rw [okOr_eq_ok] at hstate
    rcases hresult : state.admitDelivery .sealed delivery.2 with ⟨failure | d, state'⟩
    · simp only [hresult] at h
      cases h
    · simp only [hresult] at h
      obtain ⟨count, hcount, h⟩ := bind_eq_ok.mp h
      obtain ⟨rfl, hlt⟩ := checkedAdd_eq_some.mp (okOr_eq_ok.mp hcount)
      exact ⟨state, state', hstate, admitOne_eq_ok.mpr ⟨d, hresult⟩, hlt,
        (pure_eq_ok.mp h).symm⟩
  · rintro ⟨state, state', hstate, hone, hlt, rfl⟩
    obtain ⟨d, hresult⟩ := admitOne_eq_ok.mp hone
    apply bind_ok (okOr_eq_ok.mpr hstate)
    simp only [hresult]
    exact bind_ok (okOr_eq_ok.mpr (checkedAdd_eq_some.mpr ⟨rfl, hlt⟩)) rfl

/-- The loop of `execute` succeeds exactly when every stream takes what is
routed to it. -/
theorem foldlM_admitRouted_eq_ok {mode : ExecutionMode}
    {deliveries : List (Nat × PreparedEnvelope canon)} :
    ∀ {s s' : List (StreamState canon) × Nat}, s.2 < 2 ^ 64 →
      (deliveries.foldlM (admitRouted mode) s = .ok s' ↔ Interleaves deliveries s s') := by
  induction deliveries with
  | nil =>
      intro s s' hlt
      rw [List.foldlM_nil, pure_eq_ok]
      constructor
      · rintro rfl
        exact ⟨rfl, hlt, List.forall_mem_nil _, rfl, fun stream state h => ⟨state, h, rfl⟩⟩
      · intro h
        refine Prod.ext (List.ext_getElem? fun stream => ?_) h.count.symm
        cases hstate : s.1[stream]? with
        | none =>
            rw [List.getElem?_eq_none_iff] at hstate
            rw [eq_comm, List.getElem?_eq_none_iff, h.length]
            exact hstate
        | some state =>
            obtain ⟨state', hstate', hall⟩ := h.streams stream state hstate
            obtain rfl : state = state' := Except.ok.inj hall
            exact hstate'.symm
  | cons delivery deliveries ih =>
      intro s s' hlt
      rw [List.foldlM_cons, bind_eq_ok]
      constructor
      · rintro ⟨s₁, hone, hrest⟩
        obtain ⟨state, state', hstate, hadmit, hlt', rfl⟩ := admitRouted_eq_ok.mp hone
        have h := (ih hlt').mp hrest
        obtain ⟨hknown, -⟩ := List.getElem?_eq_some_iff.mp hstate
        have hlength : (s.1.set delivery.1 state').length = s.1.length := List.length_set
        refine
          { count := ?_
            count_lt := h.count_lt
            known := List.forall_mem_cons.mpr ⟨hknown, fun d hd => hlength ▸ h.known d hd⟩
            length := h.length.trans hlength
            streams := fun stream first hfirst => ?_ }
        · rw [h.count, List.length_cons]
          show s.2 + 1 + _ = _
          omega
        · rw [routedTo_cons]
          by_cases heq : delivery.1 = stream
          · subst heq
            obtain rfl := Option.some.inj (hstate.symm.trans hfirst)
            obtain ⟨last, hlast, hall⟩ := h.streams delivery.1 state' (by
              simp [hknown])
            refine ⟨last, hlast, ?_⟩
            rw [if_pos rfl, admitAll, List.singleton_append, List.foldlM_cons]
            exact bind_ok hadmit hall
          · obtain ⟨last, hlast, hall⟩ := h.streams stream first (by
              rw [List.getElem?_set_ne heq]
              exact hfirst)
            refine ⟨last, hlast, ?_⟩
            rw [if_neg heq, List.nil_append]
            exact hall
      · intro h
        have hknown := (List.forall_mem_cons.mp h.known).1
        obtain ⟨last, hlast, hall⟩ :=
          h.streams delivery.1 s.1[delivery.1] (List.getElem?_eq_getElem hknown)
        rw [routedTo_cons, if_pos rfl, List.singleton_append, admitAll, List.foldlM_cons] at hall
        obtain ⟨state', hadmit, hall⟩ := bind_eq_ok.mp hall
        have hcount := h.count
        rw [List.length_cons] at hcount
        have hlt' : s.2 + 1 < 2 ^ 64 := by
          have := h.count_lt
          omega
        refine ⟨_, admitRouted_eq_ok.mpr ⟨_, state', List.getElem?_eq_getElem hknown, hadmit, hlt',
          rfl⟩, (ih hlt').mpr ?_⟩
        have hlength : (s.1.set delivery.1 state').length = s.1.length := List.length_set
        refine
          { count := ?_
            count_lt := h.count_lt
            known := fun d hd => hlength ▸ (List.forall_mem_cons.mp h.known).2 d hd
            length := h.length.trans hlength.symm
            streams := fun stream first hfirst => ?_ }
        · show s'.2 = s.2 + 1 + _
          omega
        · by_cases heq : delivery.1 = stream
          · subst heq
            have hset : (s.1.set delivery.1 state')[delivery.1]? = some state' := by
              simp [hknown]
            obtain rfl := Option.some.inj (hset.symm.trans hfirst)
            exact ⟨last, hlast, hall⟩
          · have hold : s.1[stream]? = some first := by
              rw [← hfirst]
              exact (List.getElem?_set_ne heq).symm
            obtain ⟨last', hlast', hall'⟩ := h.streams stream first hold
            rw [routedTo_cons, if_neg heq, List.nil_append] at hall'
            exact ⟨last', hlast', hall'⟩

/-- Sequences that agree on every stream interleave the same runs. -/
theorem Interleaves.congr {deliveries deliveries' : List (Nat × PreparedEnvelope canon)}
    {s s' : List (StreamState canon) × Nat} (h : Interleaves deliveries s s')
    (hrouted : ∀ stream, routedTo stream deliveries = routedTo stream deliveries') :
    Interleaves deliveries' s s' where
  count := by rw [← length_eq_of_routedTo hrouted, h.count]
  count_lt := h.count_lt
  known := fun delivery hmem => by
    have hmem' : delivery.2 ∈ routedTo delivery.1 deliveries' := mem_routedTo.mpr hmem
    rw [← hrouted] at hmem'
    exact h.known _ (mem_routedTo.mp hmem')
  length := h.length
  streams := fun stream state hstate => hrouted stream ▸ h.streams stream state hstate

/-! ### Executions -/

/-- A fallible map has a result at a position exactly when the element there
does. -/
theorem getElem?_mapM_eq_some {ε α β : Type*} {f : α → Except ε β} {xs : List α} {ys : List β}
    (h : xs.mapM f = .ok ys) {i : Nat} {y : β} :
    ys[i]? = some y ↔ ∃ x, xs[i]? = some x ∧ f x = .ok y := by
  constructor
  · exact getElem?_of_mapM h
  · rintro ⟨x, hx, hf⟩
    obtain ⟨hlength, hget⟩ := List.forall₂_iff_get.mp (mapM_eq_ok.mp h)
    obtain ⟨hi, rfl⟩ := List.getElem?_eq_some_iff.mp hx
    have hi' : i < ys.length := by omega
    rw [List.getElem?_eq_getElem hi', Option.some.injEq]
    exact Except.ok.inj ((hget i hi hi').symm.trans hf)

theorem length_mapM {ε α β : Type*} {f : α → Except ε β} {xs : List α} {ys : List β}
    (h : xs.mapM f = .ok ys) : ys.length = xs.length :=
  (mapM_eq_ok.mp h).length_eq.symm

namespace SealedTrace

variable {trace : SealedTrace canon} {allocator : Allocator} {mode : ExecutionMode}
  {scheduleId : String} {streamPrefixLen sourcePrefixLen : Nat}
  {deliveries deliveries' : List (Nat × PreparedEnvelope canon)} {execution : ScenarioExecution}

/-- The summary of a stream is that of its own run over what was routed to
it. -/
theorem execute_summary
    (h : trace.execute allocator mode scheduleId streamPrefixLen sourcePrefixLen deliveries =
      .ok execution) {stream : Nat} {summary : StreamSummary} :
    execution.streams[stream]? = some summary ↔
      stream < streamPrefixLen ∧ ∃ blueprint, ∃ state : StreamState canon,
        trace.streams[stream]? = some blueprint ∧
        (fromBlueprint blueprint).admitAll .sealed (routedTo stream deliveries) = .ok state ∧
        state.finish .sealed trace.sealedSession = .ok summary := by
  obtain ⟨_, -, h⟩ := bind_eq_ok.mp h
  obtain ⟨_, -, h⟩ := bind_eq_ok.mp h
  obtain ⟨starts, hstarts, h⟩ := bind_eq_ok.mp h
  obtain ⟨routed, hrouted, h⟩ := bind_eq_ok.mp h
  obtain ⟨_, -, h⟩ := bind_eq_ok.mp h
  obtain ⟨summaries, hsummaries, h⟩ := bind_eq_ok.mp h
  obtain rfl := pure_eq_ok.mp h
  have hends := (foldlM_admitRouted_eq_ok (Nat.two_pow_pos 64)).mp hrouted
  have hstart : ∀ {state : StreamState canon}, starts[stream]? = some state ↔
      stream < streamPrefixLen ∧ ∃ blueprint, trace.streams[stream]? = some blueprint ∧
        startStream trace.sealedSession mode (blueprint, stream) = .ok state := by
    intro state
    rw [getElem?_mapM_eq_some hstarts]
    constructor
    · rintro ⟨⟨blueprint, ordinal⟩, hblueprint, hstarted⟩
      rw [List.getElem?_zipIdx, List.getElem?_take] at hblueprint
      obtain ⟨blueprint', hblueprint', heq⟩ := Option.map_eq_some_iff.mp hblueprint
      obtain ⟨rfl, rfl⟩ := Prod.mk.injEq .. ▸ heq
      split at hblueprint'
      next hlt =>
        rw [Nat.zero_add] at hstarted
        exact ⟨hlt, blueprint', hblueprint', hstarted⟩
      next => cases hblueprint'
    · rintro ⟨hlt, blueprint, hblueprint, hstarted⟩
      refine ⟨(blueprint, stream), ?_, hstarted⟩
      rw [List.getElem?_zipIdx, List.getElem?_take, if_pos hlt, hblueprint]
      simp
  rw [getElem?_mapM_eq_some hsummaries]
  constructor
  · rintro ⟨⟨state, ordinal⟩, hstate, hfinish⟩
    rw [List.getElem?_zipIdx] at hstate
    obtain ⟨state', hstate', heq⟩ := Option.map_eq_some_iff.mp hstate
    obtain ⟨rfl, -⟩ := Prod.mk.injEq .. ▸ heq
    have hlt : stream < starts.length := by
      obtain ⟨hlt, -⟩ := List.getElem?_eq_some_iff.mp hstate'
      rw [hends.length] at hlt
      exact hlt
    obtain ⟨hprefixes, blueprint, hblueprint, hstarted⟩ :=
      hstart.mp (List.getElem?_eq_getElem hlt)
    obtain ⟨last, hlast, hall⟩ := hends.streams stream _ (List.getElem?_eq_getElem hlt)
    obtain rfl := Option.some.inj (hstate'.symm.trans hlast)
    rw [start_ok (mapError_eq_ok.mp hstarted)] at hall
    exact ⟨hprefixes, blueprint, state', hblueprint, hall, mapError_eq_ok.mp hfinish⟩
  · rintro ⟨hprefixes, blueprint, state, hblueprint, hall, hfinish⟩
    have hlt : stream < starts.length := by
      obtain ⟨hlt, -⟩ := List.getElem?_eq_some_iff.mp hblueprint
      rw [length_mapM hstarts, List.length_zipIdx, List.length_take]
      omega
    obtain ⟨-, blueprint', hblueprint', hstarted⟩ :=
      hstart.mp (List.getElem?_eq_getElem hlt)
    obtain rfl := Option.some.inj (hblueprint.symm.trans hblueprint')
    obtain ⟨last, hlast, hall'⟩ := hends.streams stream _ (List.getElem?_eq_getElem hlt)
    rw [start_ok (mapError_eq_ok.mp hstarted), hall] at hall'
    obtain rfl := Except.ok.inj hall'
    refine ⟨(state, stream), ?_, mapError_eq_ok.mpr hfinish⟩
    rw [List.getElem?_zipIdx, hlast]
    simp

/-- An execution depends on the single subsequences only. -/
theorem execute_congr
    (hrouted : ∀ stream, routedTo stream deliveries = routedTo stream deliveries')
    (h : trace.execute allocator mode scheduleId streamPrefixLen sourcePrefixLen deliveries =
      .ok execution) :
    trace.execute allocator mode scheduleId streamPrefixLen sourcePrefixLen deliveries' =
      .ok execution := by
  obtain ⟨_, hprefixes, h⟩ := bind_eq_ok.mp h
  obtain ⟨_, hreserve, h⟩ := bind_eq_ok.mp h
  obtain ⟨starts, hstarts, h⟩ := bind_eq_ok.mp h
  obtain ⟨routed, hfold, h⟩ := bind_eq_ok.mp h
  have hends := (foldlM_admitRouted_eq_ok (Nat.two_pow_pos 64)).mp hfold
  have hfold' := (@foldlM_admitRouted_eq_ok canon mode deliveries' _ _
    (Nat.two_pow_pos 64)).mpr (hends.congr hrouted)
  exact bind_ok hprefixes (bind_ok hreserve (bind_ok hstarts (bind_ok hfold' h)))

/-! ### Schedules -/

/-- The deliveries of the pristine side. -/
def originals (trace : SealedTrace canon) (plan : SchedulePlan) :
    List (Nat × PreparedEnvelope canon) :=
  (trace.sourceStreams.take plan.prefixLen).zip (trace.sources.take plan.prefixLen)

end SealedTrace

/-- The deliveries of the faulted side. -/
def MaterializedSchedule.routes (materialized : MaterializedSchedule canon) :
    List (Nat × PreparedEnvelope canon) :=
  materialized.deliveries.map fun delivery => (delivery.streamIndex, delivery.source)

namespace SealedTrace

variable {trace : SealedTrace canon} {allocator : Allocator} {plan : SchedulePlan} {index : Nat}
  {comparison : ScheduleComparison}

/-- A comparison runs the prefix of its plan and the materialized schedule. -/
theorem compareSchedule_sides (hplan : trace.schedules[index]? = some plan)
    (h : trace.compareSchedule allocator index = .ok comparison) :
    ∃ materialized, trace.materialize allocator index = .ok materialized ∧
      trace.execute allocator .pristine plan.id plan.streamPrefixLen plan.prefixLen
        (trace.originals plan) = .ok comparison.pristine ∧
      trace.execute allocator .faulted plan.id plan.streamPrefixLen plan.prefixLen
        materialized.routes = .ok comparison.faulted ∧
      comparison.streams =
        comparison.pristine.streams.zipWith compareStreams comparison.faulted.streams := by
  obtain ⟨plan', hplan', h⟩ := bind_eq_ok.mp h
  obtain rfl := Option.some.inj (hplan.symm.trans (okOr_eq_ok.mp hplan'))
  obtain ⟨materialized, hmaterialized, h⟩ := bind_eq_ok.mp h
  obtain ⟨streams, hstreams, h⟩ := bind_eq_ok.mp h
  obtain ⟨sources, hsources, h⟩ := bind_eq_ok.mp h
  obtain ⟨pristine, hpristine, h⟩ := bind_eq_ok.mp h
  obtain ⟨faulted, hfaulted, h⟩ := bind_eq_ok.mp h
  obtain ⟨_, -, h⟩ := bind_eq_ok.mp h
  obtain ⟨_, -, h⟩ := bind_eq_ok.mp h
  obtain rfl := pure_eq_ok.mp h
  rw [sliceTo_ok hstreams, sliceTo_ok hsources] at hpristine
  exact ⟨materialized, hmaterialized, hpristine, hfaulted, rfl⟩

/-- Two executions with the same subsequence for a stream summarize it
alike. -/
theorem execute_stream_congr {mode mode' : ExecutionMode} {id id' : String} {m n n' stream : Nat}
    {deliveries deliveries' : List (Nat × PreparedEnvelope canon)}
    {execution execution' : ScenarioExecution}
    (h : trace.execute allocator mode id m n deliveries = .ok execution)
    (h' : trace.execute allocator mode' id' m n' deliveries' = .ok execution')
    (hrouted : routedTo stream deliveries = routedTo stream deliveries') :
    execution.streams[stream]? = execution'.streams[stream]? := by
  apply Option.ext
  intro summary
  rw [execute_summary h, execute_summary h', hrouted]

/-- Two comparisons over one prefix that deliver the same to a stream say the
same about it. -/
theorem compareSchedule_stream_congr {index' stream : Nat} {plan' : SchedulePlan}
    {comparison' : ScheduleComparison} {materialized materialized' : MaterializedSchedule canon}
    (hplan : trace.schedules[index]? = some plan) (hplan' : trace.schedules[index']? = some plan')
    (hstreams : plan.streamPrefixLen = plan'.streamPrefixLen)
    (hprefixes : plan.prefixLen = plan'.prefixLen)
    (hmaterialized : trace.materialize allocator index = .ok materialized)
    (hmaterialized' : trace.materialize allocator index' = .ok materialized')
    (hrouted : routedTo stream materialized.routes = routedTo stream materialized'.routes)
    (h : trace.compareSchedule allocator index = .ok comparison)
    (h' : trace.compareSchedule allocator index' = .ok comparison') :
    comparison.streams[stream]? = comparison'.streams[stream]? := by
  obtain ⟨m, hm, hpristine, hfaulted, hverdicts⟩ := compareSchedule_sides hplan h
  obtain ⟨m', hm', hpristine', hfaulted', hverdicts'⟩ := compareSchedule_sides hplan' h'
  obtain rfl := Except.ok.inj (hmaterialized.symm.trans hm)
  obtain rfl := Except.ok.inj (hmaterialized'.symm.trans hm')
  rw [← hstreams] at hpristine' hfaulted'
  have horiginals : trace.originals plan = trace.originals plan' := by
    unfold originals
    rw [hprefixes]
  have hleft := execute_stream_congr hpristine hpristine'
    (congrArg (routedTo stream) horiginals)
  have hright := execute_stream_congr hfaulted hfaulted' hrouted
  rw [hverdicts, hverdicts', List.getElem?_zipWith, List.getElem?_zipWith, hleft, hright]

end SealedTrace

/-! ### Actions on other streams -/

/-- What a materialized schedule routes to a stream stems from the occurrences
of its sources. -/
theorem routedTo_routes {sources : List (PreparedEnvelope canon)} {sourceStreams : List Nat}
    {live : List DeliveryKey} {deliveries : List (ScheduledDelivery canon)}
    (h : List.Forall₂ (Delivers sources sourceStreams) live deliveries) (stream : Nat) :
    routedTo stream (deliveries.map fun delivery => (delivery.streamIndex, delivery.source)) =
      (live.filter fun key => decide (sourceStreams[key.source]? = some stream)).filterMap
        fun key => sources[key.source]? := by
  induction h with
  | nil => rfl
  | @cons key delivery live deliveries hdelivers _ ih =>
      rw [List.map_cons, routedTo_cons, ih, List.filter_cons, hdelivers.streamIndex]
      by_cases heq : delivery.streamIndex = stream
      · subst heq
        simp [hdelivers.source]
      · simp [heq]

/-- An allocator that never refuses. -/
def grantAll : Allocator := fun _ _ => true

theorem tryReserve_grantAll {reservation : Reservation} {n : Nat} {error : ScenarioError} :
    tryReserve grantAll reservation n error = .ok () := rfl

/-- A materialization that succeeds does not depend on the allocator. -/
theorem materializeSchedule_grantAll {allocator : Allocator} {plan : SchedulePlan}
    {sources : List (PreparedEnvelope canon)} {sourceStreams : List Nat} {streamCount : Nat}
    {limits : Limits} {materialized : MaterializedSchedule canon}
    (h : materializeSchedule allocator plan sources sourceStreams streamCount limits =
      .ok materialized) :
    materializeSchedule grantAll plan sources sourceStreams streamCount limits =
      .ok materialized := by
  obtain ⟨_, hshape, h⟩ := bind_eq_ok.mp h
  obtain ⟨allocated, hallocated, h⟩ := bind_eq_ok.mp h
  obtain ⟨_, hlimit, h⟩ := bind_eq_ok.mp h
  obtain ⟨arena, hnew, h⟩ := bind_eq_ok.mp h
  obtain ⟨arena', hexecuted, h⟩ := bind_eq_ok.mp h
  obtain ⟨deliveries, hdeliveries, h⟩ := bind_eq_ok.mp h
  obtain ⟨_, -, hnew⟩ := bind_eq_ok.mp hnew
  obtain ⟨_, -, hdeliveries⟩ := bind_eq_ok.mp hdeliveries
  exact bind_ok hshape <| bind_ok hallocated <| bind_ok hlimit <|
    bind_ok (bind_ok tryReserve_grantAll hnew) <| bind_ok hexecuted <|
    bind_ok (bind_ok tryReserve_grantAll hdeliveries) h

namespace SealedTrace

variable {trace : SealedTrace canon} {allocator : Allocator} {limits : Limits}
  {records before after before' after' : List Record} {schedule schedule' : FaultSchedule}

/-- The plan of the schedule record behind `before`. -/
theorem SealedFrom.plan_at (h : SealedFrom limits records trace)
    (hrecords : records = before ++ .faultSchedule schedule :: after) :
    trace.schedules[(schedulesOf before).length]? = planOf before (.faultSchedule schedule) := by
  have hsplit : records = (before ++ [.faultSchedule schedule]) ++ after := by
    rw [hrecords, List.append_assoc]
    rfl
  rw [h.schedules, plansOf, hsplit, filterMapBefore_append, filterMapBefore_snoc,
    ← length_plansOf]
  show ((plansOf before ++ _) ++ _)[(plansOf before).length]? = _
  simp

/-- The sources of a stream. -/
def ofStream (trace : SealedTrace canon) (stream source : Nat) : Bool :=
  decide (trace.sourceStreams[source]? = some stream)

/-- A materialized schedule delivers what its replay leaves live. -/
theorem SealedFrom.delivers (hsealed : SealedFrom limits records trace)
    (hrecords : records = before ++ .faultSchedule schedule :: after)
    {materialized : MaterializedSchedule canon}
    (hmaterialized :
      trace.materialize allocator (schedulesOf before).length = .ok materialized) :
    List.Forall₂ (Delivers trace.sources trace.sourceStreams)
      ((Replay.start (envelopeIdsOf before).length).run (envelopeIdsOf before)
        schedule.actions).live materialized.deliveries := by
  obtain ⟨plan, hplan, hmaterialized⟩ := bind_eq_ok.mp hmaterialized
  rw [okOr_eq_ok, hsealed.plan_at hrecords] at hplan
  obtain ⟨materialized', hgranted, hdeliveries⟩ :=
    @SealedFrom.materialize_ok canon limits records trace hsealed before after schedule plan
      hrecords hplan grantAll fun _ _ => rfl
  obtain rfl := Except.ok.inj (hgranted.symm.trans (materializeSchedule_grantAll hmaterialized))
  exact hdeliveries

/-- Schedules over one prefix whose slices for a stream are the same say the
same about it. -/
theorem SealedFrom.slice_congr (hsealed : SealedFrom limits records trace) {stream : Nat}
    (hrecords : records = before ++ .faultSchedule schedule :: after)
    (hrecords' : records = before' ++ .faultSchedule schedule' :: after')
    (hstreams : streamIdsOf before = streamIdsOf before')
    (hids : envelopeIdsOf before = envelopeIdsOf before')
    (hslice : (Replay.slice (envelopeIdsOf before) (trace.ofStream stream) schedule.actions).1 =
      (Replay.slice (envelopeIdsOf before) (trace.ofStream stream) schedule'.actions).1)
    {comparison comparison' : ScheduleComparison}
    (h : trace.compareSchedule allocator (schedulesOf before).length = .ok comparison)
    (h' : trace.compareSchedule allocator (schedulesOf before').length = .ok comparison') :
    comparison.streams[stream]? = comparison'.streams[stream]? := by
  have hplan := hsealed.plan_at hrecords
  have hplan' := hsealed.plan_at hrecords'
  obtain ⟨m, hm, -⟩ := compareSchedule_sides hplan h
  obtain ⟨m', hm', -⟩ := compareSchedule_sides hplan' h'
  refine compareSchedule_stream_congr hplan hplan' (congrArg List.length hstreams)
    (congrArg List.length hids) hm hm' ?_ h h'
  -- what is routed to the stream stems from the replays of both schedules
  have hleft := routedTo_routes (hsealed.delivers hrecords hm) stream
  have hright := routedTo_routes (hsealed.delivers hrecords' hm') stream
  rw [← hids] at hright
  have hfilter := @Replay.filter_run _ _ _ _ (envelopeIdsOf before).length hslice
  exact hleft.trans ((congrArg (List.filterMap _) hfilter).trans hright.symm)

/-- Publisher streams do not interfere.  The summary of a stream only depends
on what is routed to it; a whole execution only depends on what is routed to
every stream; so schedules over one prefix that deliver the same to a stream
say the same about it, as they do when they have one slice for the stream.
Edits at which nothing later in the slice is anchored leave the slice as it
is, wherever they stand. -/
theorem streams_do_not_interfere (trace : SealedTrace canon) (allocator : Allocator) :
    (∀ mode mode' id id' streamPrefixLen sourcePrefixLen stream
      (deliveries deliveries' : List (Nat × PreparedEnvelope canon)) execution execution',
      trace.execute allocator mode id streamPrefixLen sourcePrefixLen deliveries =
        .ok execution →
      trace.execute allocator mode' id' streamPrefixLen sourcePrefixLen deliveries' =
        .ok execution' →
      routedTo stream deliveries = routedTo stream deliveries' →
      execution.streams[stream]? = execution'.streams[stream]?) ∧
    (∀ mode id streamPrefixLen sourcePrefixLen
      (deliveries deliveries' : List (Nat × PreparedEnvelope canon)),
      (∀ stream, routedTo stream deliveries = routedTo stream deliveries') →
      ∀ execution, trace.execute allocator mode id streamPrefixLen sourcePrefixLen deliveries =
          .ok execution ↔
        trace.execute allocator mode id streamPrefixLen sourcePrefixLen deliveries' =
          .ok execution) ∧
    (∀ index index' plan plan' stream (materialized materialized' : MaterializedSchedule canon)
      comparison comparison', trace.schedules[index]? = some plan →
      trace.schedules[index']? = some plan' →
      plan.streamPrefixLen = plan'.streamPrefixLen → plan.prefixLen = plan'.prefixLen →
      trace.materialize allocator index = .ok materialized →
      trace.materialize allocator index' = .ok materialized' →
      routedTo stream materialized.routes = routedTo stream materialized'.routes →
      trace.compareSchedule allocator index = .ok comparison →
      trace.compareSchedule allocator index' = .ok comparison' →
      comparison.streams[stream]? = comparison'.streams[stream]?) ∧
    (∀ session limits inputs (a : TraceAssembler canon), TraceAssembler.new session limits = .ok a →
      (a.pushAll inputs).finish allocator = .ok trace →
      ∀ before after before' after' schedule schedule' stream comparison comparison',
        TraceAssembler.recordsOf inputs = before ++ .faultSchedule schedule :: after →
        TraceAssembler.recordsOf inputs = before' ++ .faultSchedule schedule' :: after' →
        streamIdsOf before = streamIdsOf before' → envelopeIdsOf before = envelopeIdsOf before' →
        (Replay.slice (envelopeIdsOf before) (trace.ofStream stream) schedule.actions).1 =
          (Replay.slice (envelopeIdsOf before) (trace.ofStream stream) schedule'.actions).1 →
        trace.compareSchedule allocator (schedulesOf before).length = .ok comparison →
        trace.compareSchedule allocator (schedulesOf before').length = .ok comparison' →
        comparison.streams[stream]? = comparison'.streams[stream]?) ∧
    ∀ ids stream (before edits after : List FaultAction),
      (∀ edit ∈ edits, Replay.concerns ids (trace.ofStream stream)
        (Replay.slice ids (trace.ofStream stream) after).2 edit = false) →
      Replay.slice ids (trace.ofStream stream) (before ++ edits ++ after) =
        Replay.slice ids (trace.ofStream stream) (before ++ after) := by
  refine ⟨?_, ?_, ?_, ?_, ?_⟩
  · intro mode mode' id id' m n stream deliveries deliveries' execution execution' h h' hrouted
    exact execute_stream_congr h h' hrouted
  · intro mode id m n deliveries deliveries' hrouted execution
    exact ⟨execute_congr hrouted, execute_congr fun stream => (hrouted stream).symm⟩
  · intro index index' plan plan' stream m m' comparison comparison' hplan hplan' hstreams hlength
      hm hm' hrouted h h'
    exact compareSchedule_stream_congr hplan hplan' hstreams hlength hm hm' hrouted h h'
  · intro session limits inputs a hnew hfinish before after before' after' schedule schedule'
      stream comparison comparison' hrecords hrecords' hstreams hids hslice h h'
    exact (finish_ok hnew hfinish).slice_congr hrecords hrecords' hstreams hids hslice h h'
  · intro ids stream before edits after hedits
    exact Replay.slice_edits hedits

end SealedTrace

/-! ### Anchored edits -/

namespace Sample

/-- A second publisher. -/
def otherStream : StreamDeclaration := { stream with streamId := "other", publisher := "other" }

/-- A store of the second publisher. -/
def otherEnvelope : EventEnvelope := { envelope "third" 0 [store 3] with streamId := "other" }

/-- A schedule without extensions. -/
def scheduled (scheduleId : String) (actions : List FaultAction) : FaultSchedule where
  scheduleId := scheduleId
  actions := actions
  extensions := []

/-- A move of an envelope of the first stream before the one of the second. -/
def acrossAction : FaultAction := .moveBefore ⟨"first", 0⟩ ⟨"third", 0⟩

/-- A move of the envelope of the second stream. -/
def anchorEdit : FaultAction := .moveBefore ⟨"third", 0⟩ ⟨"first", 0⟩

/-- A move within the first stream. -/
def withinAction : FaultAction := .moveBefore ⟨"second", 0⟩ ⟨"first", 0⟩

/-- A move and a drop of the envelope of the second stream. -/
def otherEdits : List FaultAction := [.moveBefore ⟨"third", 0⟩ ⟨"second", 0⟩, .drop ⟨"third", 0⟩]

/-- The move across streams, behind the anchored edit and without it. -/
def acrossSchedule : FaultSchedule := scheduled "across" [acrossAction]
def anchoredSchedule : FaultSchedule := scheduled "anchored" [anchorEdit, acrossAction]

/-- Two moves of the first stream, with the edits between them and without. -/
def plainSchedule : FaultSchedule := scheduled "plain" [acrossAction, withinAction]
def editedSchedule : FaultSchedule :=
  scheduled "edited" ([acrossAction] ++ otherEdits ++ [withinAction])

theorem otherStream_valid : (Record.stream otherStream).validate forgetful = .ok () := by
  decide +kernel

theorem otherEnvelope_valid : (Record.envelope otherEnvelope).validate forgetful = .ok () := by
  decide +kernel

theorem acrossSchedule_valid :
    (Record.faultSchedule acrossSchedule).validate forgetful = .ok () := by
  decide +kernel

theorem anchoredSchedule_valid :
    (Record.faultSchedule anchoredSchedule).validate forgetful = .ok () := by
  decide +kernel

theorem plainSchedule_valid :
    (Record.faultSchedule plainSchedule).validate forgetful = .ok () := by
  decide +kernel

theorem editedSchedule_valid :
    (Record.faultSchedule editedSchedule).validate forgetful = .ok () := by
  decide +kernel

/-- The sample records with the second publisher and the two contradicting
envelopes the other way round. -/
def acrossPrefix : List ValidatedRecord :=
  records.take 2 ++ [⟨.stream otherStream, forgetful, otherStream_valid⟩,
    ⟨.envelope otherEnvelope, forgetful, otherEnvelope_valid⟩] ++ ((records.drop 2).take 2).reverse

/-- These records under trusted baselines, and the schedules. -/
def acrossInputs : List (ValidatedRecord × Option BaselineAuthority) :=
  acrossPrefix.zip [none, some .trustDeclaredEmpty, some .trustDeclaredEmpty, none, none, none] ++
    [(⟨.faultSchedule acrossSchedule, forgetful, acrossSchedule_valid⟩, none),
      (⟨.faultSchedule anchoredSchedule, forgetful, anchoredSchedule_valid⟩, none),
      (⟨.faultSchedule plainSchedule, forgetful, plainSchedule_valid⟩, none),
      (⟨.faultSchedule editedSchedule, forgetful, editedSchedule_valid⟩, none)]

/-- Their sealed trace. -/
def acrossTrace : Except ScenarioFailure (SealedTrace canonical) := do
  let a ← assembler
  (a.pushAll acrossInputs).finish granting

/-- The records of the trace before a schedule. -/
def acrossBefore (index : Nat) : List Record :=
  (TraceAssembler.recordsOf acrossInputs).take (6 + index)

end Sample

namespace SealedTrace

/-- An edit at which a later action on a stream is anchored does change the
verdict of the stream: the schedules differ in a move of the envelope of the
second stream, and the first stream diverges under the one and converges under
the other. -/
theorem anchored_move_interferes : ∃ trace comparison comparison',
    Sample.acrossTrace = .ok trace ∧
      Sample.anchoredSchedule.actions = Sample.anchorEdit :: Sample.acrossSchedule.actions ∧
      trace.ofStream 0 (Replay.keyOf (envelopeIdsOf (Sample.acrossBefore 0)) ⟨"third", 0⟩).source =
        false ∧
      trace.compareSchedule Sample.granting 0 = .ok comparison ∧
      trace.compareSchedule Sample.granting 1 = .ok comparison' ∧
      (comparison.streams[0]?).map StreamComparison.verdict = some .diverged ∧
      (comparison'.streams[0]?).map StreamComparison.verdict = some .converged := by
  have hseen : Sample.acrossTrace.toOption.any (fun trace =>
      !trace.ofStream 0
          (Replay.keyOf (envelopeIdsOf (Sample.acrossBefore 0)) ⟨"third", 0⟩).source &&
        (trace.compareSchedule Sample.granting 0).toOption.any (fun comparison =>
          (comparison.streams[0]?).map StreamComparison.verdict = some .diverged) &&
        (trace.compareSchedule Sample.granting 1).toOption.any fun comparison =>
          (comparison.streams[0]?).map StreamComparison.verdict = some .converged) = true := by
    decide +kernel
  obtain ⟨trace, htrace, hseen⟩ := toOption_any.mp hseen
  simp only [Bool.and_eq_true, Bool.not_eq_true'] at hseen
  obtain ⟨⟨hother, hleft⟩, hright⟩ := hseen
  obtain ⟨comparison, hcomparison, hdiverged⟩ := toOption_any.mp hleft
  obtain ⟨comparison', hcomparison', hconverged⟩ := toOption_any.mp hright
  exact ⟨trace, comparison, comparison', htrace, rfl, hother, hcomparison, hcomparison',
    of_decide_eq_true hdiverged, of_decide_eq_true hconverged⟩

/-- Behind the move across the streams, edits of the second stream change
nothing for the first one. -/
theorem sample_streams_do_not_interfere : ∃ trace comparison comparison',
    Sample.acrossTrace = .ok trace ∧
      Sample.plainSchedule.actions = [Sample.acrossAction] ++ [Sample.withinAction] ∧
      Sample.editedSchedule.actions =
        [Sample.acrossAction] ++ Sample.otherEdits ++ [Sample.withinAction] ∧
      trace.compareSchedule Sample.granting 2 = .ok comparison ∧
      trace.compareSchedule Sample.granting 3 = .ok comparison' ∧
      comparison.streams[0]? = comparison'.streams[0]? := by
  have hseen : Sample.acrossTrace.toOption.any (fun trace =>
      decide (trace.sourceStreams = [1, 0, 0]) &&
        (trace.compareSchedule Sample.granting 2).toOption.any (fun _ => true) &&
        (trace.compareSchedule Sample.granting 3).toOption.any fun _ => true) = true := by
    decide +kernel
  obtain ⟨trace, htrace, hseen⟩ := toOption_any.mp hseen
  simp only [Bool.and_eq_true, decide_eq_true_eq] at hseen
  obtain ⟨⟨hsources, hleft⟩, hright⟩ := hseen
  obtain ⟨comparison, hcomparison, -⟩ := toOption_any.mp hleft
  obtain ⟨comparison', hcomparison', -⟩ := toOption_any.mp hright
  obtain ⟨a, hnew, hfinish⟩ := bind_eq_ok.mp htrace
  obtain ⟨-, -, -, hverdicts, hedits⟩ := streams_do_not_interfere trace Sample.granting
  -- nothing behind the edits is anchored at the second stream
  have hofStream : trace.ofStream 0 = fun source => decide ([1, 0, 0][source]? = some 0) := by
    funext source
    rw [ofStream, hsources]
  have hslice := hedits (envelopeIdsOf (Sample.acrossBefore 2)) 0 [Sample.acrossAction]
    Sample.otherEdits [Sample.withinAction] (by
      rw [hofStream]
      decide +kernel)
  exact ⟨trace, comparison, comparison', htrace, rfl, rfl, hcomparison, hcomparison',
    hverdicts 0 Sample.forgetful Sample.acrossInputs a hnew hfinish (Sample.acrossBefore 2)
      [.faultSchedule Sample.editedSchedule] (Sample.acrossBefore 3) [] Sample.plainSchedule
      Sample.editedSchedule 0 comparison comparison' rfl rfl rfl rfl
      (congrArg Prod.fst hslice).symm hcomparison hcomparison'⟩

end SealedTrace

end KvCrucible
