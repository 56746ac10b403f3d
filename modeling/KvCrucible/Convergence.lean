/-
KvCrucible/Convergence.lean

Executing and comparing a schedule.

An execution is a bundle of independent runs, one for each visible stream,
over what was routed to it (`execute_ok`).  Both sides of a comparison only
ever route envelopes of the schedule's prefix.  If the envelopes of one stream
do not contradict each other there, one assignment of payloads explains both
runs, so eligible sides at the same frontier show the same view.
-/
import KvCrucible.Scenario
import KvCrucible.StateSafety
import KvCrucible.ViewFold

namespace KvCrucible

open Basis Std

variable {canon : Canonical}

/-! ### Finalized states -/

namespace StreamState

variable {s : StreamState canon} {blueprint : StreamBlueprint} {history : History canon}

/-- An eligible summary finalizes a state with a known baseline. -/
theorem finish_eligible (hs : s.Invariant) {status : SessionStatus}
    {sealedSession : SealedSession} {summary : StreamSummary}
    (h : s.finish status sealedSession = .ok summary) (heligible : eligibleSummary summary = true) :
    s.baselineUnknown = false ∧ summary.frontier = s.frontier ∧ summary.view = s.view := by
  have hexact : summary.certainty = .exact := by
    simp only [eligibleSummary, Bool.and_eq_true, decide_eq_true_eq] at heligible
    exact heligible.1.1.1.1
  obtain ⟨_, -, h⟩ := bind_eq_ok.mp h
  obtain ⟨_, -, h⟩ := bind_eq_ok.mp h
  obtain ⟨_, -, h⟩ := bind_eq_ok.mp h
  cases hempty : s.pending.isEmpty with
  | false =>
      simp only [hempty, Bool.not_false, if_true] at h
      obtain rfl := pure_eq_ok.mp h
      cases hexact
  | true =>
      simp only [hempty, Bool.not_true, Bool.false_eq_true, if_false] at h
      obtain rfl := pure_eq_ok.mp h
      have hc : s.certainty = .exact := hexact
      rw [hs.certainty] at hc
      exact ⟨(hs.toCore.of_exact hc).1, rfl, rfl⟩

/-- Only envelopes of the stream are ever admitted. -/
theorem streamId_of_run (hr : RunFrom (fromBlueprint blueprint) history s) :
    ∀ x ∈ history, x.1.streamId = blueprint.registration.streamId := by
  induction hr with
  | nil =>
      intro x hx
      cases hx
  | @snoc h₀ s₀ e d s' hr h ih =>
      intro x hx
      rcases List.mem_append.mp hx with hx | hx
      · exact ih x hx
      · rw [List.mem_singleton.mp hx]
        exact (Admits.accepts h).streamId.trans (same_run hr).streamId

end StreamState

/-! ### Execution -/

open StreamState

/-- The envelopes that `deliveries` routes to one stream, in order. -/
def routedTo (stream : Nat) (deliveries : List (Nat × PreparedEnvelope canon)) :
    List (PreparedEnvelope canon) :=
  (deliveries.filter fun delivery => decide (delivery.1 = stream)).map Prod.snd

theorem routedTo_snoc {stream : Nat} {deliveries : List (Nat × PreparedEnvelope canon)}
    {delivery : Nat × PreparedEnvelope canon} :
    routedTo stream (deliveries ++ [delivery]) =
      routedTo stream deliveries ++ if delivery.1 = stream then [delivery.2] else [] := by
  unfold routedTo
  rw [List.filter_append, List.map_append]
  by_cases h : delivery.1 = stream
  · simp [h]
  · simp [h]

theorem mem_routedTo {stream : Nat} {deliveries : List (Nat × PreparedEnvelope canon)}
    {source : PreparedEnvelope canon} :
    source ∈ routedTo stream deliveries ↔ (stream, source) ∈ deliveries := by
  simp only [routedTo, List.mem_map, List.mem_filter, decide_eq_true_eq, Prod.exists]
  constructor
  · rintro ⟨i, e, ⟨hmem, rfl⟩, rfl⟩
    exact hmem
  · exact fun hmem => ⟨stream, source, ⟨hmem, rfl⟩, rfl⟩

/-- Every state has run over what was routed to it. -/
def Routed (starts : List (StreamState canon)) (done : List (Nat × PreparedEnvelope canon))
    (s : List (StreamState canon) × Nat) : Prop :=
  ∀ stream state, s.1[stream]? = some state → ∃ start history, starts[stream]? = some start ∧
    RunFrom start history state ∧ history.map Prod.fst = routedTo stream done

theorem admitRouted_ok {mode : ExecutionMode} {s s' : List (StreamState canon) × Nat}
    {delivery : Nat × PreparedEnvelope canon} (h : admitRouted mode s delivery = .ok s') :
    ∃ state d state', s.1[delivery.1]? = some state ∧ state.Admits delivery.2 d state' ∧
      s'.1 = s.1.set delivery.1 state' := by
  obtain ⟨state, hstate, h⟩ := bind_eq_ok.mp h
  rw [okOr_eq_ok] at hstate
  rcases hresult : state.admitDelivery .sealed delivery.2 with ⟨failure | d, state'⟩
  · simp only [hresult] at h
    cases h
  · simp only [hresult] at h
    obtain ⟨count, -, h⟩ := bind_eq_ok.mp h
    obtain rfl := pure_eq_ok.mp h
    exact ⟨state, d, state', hstate, ⟨.sealed, hresult⟩, rfl⟩

/-- One delivery extends the run of its own stream and no other. -/
theorem Routed.step {mode : ExecutionMode} {starts : List (StreamState canon)}
    {done : List (Nat × PreparedEnvelope canon)} {s s' : List (StreamState canon) × Nat}
    {delivery : Nat × PreparedEnvelope canon} (hrouted : Routed starts done s)
    (h : admitRouted mode s delivery = .ok s') : Routed starts (done ++ [delivery]) s' := by
  obtain ⟨state, d, state', hstate, hadmits, hset⟩ := admitRouted_ok h
  intro stream last hlast
  rw [hset, List.getElem?_set] at hlast
  by_cases heq : delivery.1 = stream
  · obtain ⟨hlt, -⟩ := List.getElem?_eq_some_iff.mp hstate
    rw [if_pos heq, if_pos (by omega)] at hlast
    obtain rfl := Option.some.inj hlast
    obtain ⟨start, history, hstart, hr, hhistory⟩ := hrouted delivery.1 state hstate
    refine ⟨start, history ++ [(delivery.2, d)], heq ▸ hstart, hr.snoc hadmits, ?_⟩
    rw [routedTo_snoc, if_pos heq, List.map_append, hhistory, heq]
    rfl
  · rw [if_neg heq] at hlast
    obtain ⟨start, history, hstart, hr, hhistory⟩ := hrouted stream last hlast
    refine ⟨start, history, hstart, hr, ?_⟩
    rw [routedTo_snoc, if_neg heq, List.append_nil]
    exact hhistory

theorem start_ok {blueprint : StreamBlueprint} {status : SessionStatus}
    {sealedSession : SealedSession} {state : StreamState canon}
    (h : StreamState.start blueprint status sealedSession = .ok state) :
    state = fromBlueprint blueprint := by
  obtain ⟨_, -, h⟩ := bind_eq_ok.mp h
  obtain ⟨_, -, h⟩ := bind_eq_ok.mp h
  exact (pure_eq_ok.mp h).symm

namespace SealedTrace

variable {trace : SealedTrace canon} {allocator : Allocator}

/-- Every summary of an execution finalizes a run of its stream over what was
routed to it. -/
theorem execute_ok {mode : ExecutionMode} {scheduleId : String}
    {streamPrefixLen sourcePrefixLen : Nat} {deliveries : List (Nat × PreparedEnvelope canon)}
    {execution : ScenarioExecution}
    (h : trace.execute allocator mode scheduleId streamPrefixLen sourcePrefixLen deliveries =
      .ok execution) {stream : Nat} {summary : StreamSummary}
    (hsummary : execution.streams[stream]? = some summary) :
    ∃ blueprint history, ∃ state : StreamState canon, trace.streams[stream]? = some blueprint ∧
      RunFrom (fromBlueprint blueprint) history state ∧
      history.map Prod.fst = routedTo stream deliveries ∧
      state.finish .sealed trace.sealedSession = .ok summary := by
  obtain ⟨_, -, h⟩ := bind_eq_ok.mp h
  obtain ⟨_, -, h⟩ := bind_eq_ok.mp h
  obtain ⟨starts, hstarts, h⟩ := bind_eq_ok.mp h
  obtain ⟨routed, hrouted, h⟩ := bind_eq_ok.mp h
  obtain ⟨_, -, h⟩ := bind_eq_ok.mp h
  obtain ⟨summaries, hsummaries, h⟩ := bind_eq_ok.mp h
  obtain rfl := pure_eq_ok.mp h
  obtain ⟨⟨state, index⟩, hstate, hfinish⟩ := getElem?_of_mapM hsummaries hsummary
  rw [List.getElem?_zipIdx] at hstate
  obtain ⟨state', hstate', heq⟩ := Option.map_eq_some_iff.mp hstate
  obtain ⟨rfl, -⟩ := Prod.mk.injEq .. ▸ heq
  have hbegin : Routed starts [] (starts, 0) :=
    fun stream start hstart => ⟨start, [], hstart, .nil, rfl⟩
  have hend := foldlM_consumed (Routed starts) Routed.step hbegin hrouted
  obtain ⟨start, history, hstart, hr, hhistory⟩ := hend stream state' hstate'
  obtain ⟨⟨blueprint, ordinal⟩, hblueprint, hstarted⟩ := getElem?_of_mapM hstarts hstart
  rw [List.getElem?_zipIdx] at hblueprint
  obtain ⟨blueprint', hblueprint', heq⟩ := Option.map_eq_some_iff.mp hblueprint
  obtain ⟨rfl, -⟩ := Prod.mk.injEq .. ▸ heq
  obtain rfl := start_ok (mapError_eq_ok.mp hstarted)
  refine ⟨blueprint', history, state', ?_, hr, hhistory, mapError_eq_ok.mp hfinish⟩
  rw [List.getElem?_take] at hblueprint'
  split at hblueprint'
  · exact hblueprint'
  · cases hblueprint'

/-- Whatever an arena materializes was in the prefix, with its stream. -/
theorem walk_mem {arena : DeliveryArena} {sources : List (PreparedEnvelope canon)}
    {sourceStreams : List Nat} {prefixLen room : Nat} :
    ∀ {cursor : Option Nat} {deliveries : List (ScheduledDelivery canon)},
      arena.walk sources sourceStreams prefixLen room cursor = .ok deliveries →
      ∀ delivery ∈ deliveries, ∃ i < prefixLen, sources[i]? = some delivery.source ∧
        sourceStreams[i]? = some delivery.streamIndex := by
  induction room with
  | zero =>
      intro cursor deliveries h delivery hmem
      cases cursor with
      | none =>
          obtain rfl := Except.ok.inj h
          cases hmem
      | some index => cases h
  | succ room ih =>
      intro cursor deliveries h delivery hmem
      cases cursor with
      | none =>
          obtain rfl := Except.ok.inj h
          cases hmem
      | some index =>
          obtain ⟨node, -, h⟩ := bind_eq_ok.mp h
          obtain ⟨first, hfirst, h⟩ := bind_eq_ok.mp h
          obtain ⟨rest, hrest, h⟩ := bind_eq_ok.mp h
          obtain rfl := pure_eq_ok.mp h
          rcases List.mem_cons.mp hmem with rfl | hmem
          · obtain ⟨_, hlive, hfirst⟩ := bind_eq_ok.mp hfirst
            obtain ⟨source, hsource, hfirst⟩ := bind_eq_ok.mp hfirst
            obtain ⟨streamIndex, hstream, hfirst⟩ := bind_eq_ok.mp hfirst
            obtain rfl := pure_eq_ok.mp hfirst
            rw [rejectIf_eq_ok, not_or] at hlive
            exact ⟨node.key.source, Nat.lt_of_not_le hlive.2, okOr_eq_ok.mp hsource,
              okOr_eq_ok.mp hstream⟩
          · exact ih hrest delivery hmem

theorem materialize_mem {index : Nat} {materialized : MaterializedSchedule canon}
    {plan : SchedulePlan} (hplan : trace.schedules[index]? = some plan)
    (h : trace.materialize allocator index = .ok materialized) :
    ∀ delivery ∈ materialized.deliveries,
      delivery.source ∈ trace.sources.take plan.prefixLen := by
  obtain ⟨plan', hplan', h⟩ := bind_eq_ok.mp h
  obtain rfl := Option.some.inj (hplan.symm.trans (okOr_eq_ok.mp hplan'))
  obtain ⟨_, -, h⟩ := bind_eq_ok.mp h
  obtain ⟨_, -, h⟩ := bind_eq_ok.mp h
  obtain ⟨_, -, h⟩ := bind_eq_ok.mp h
  obtain ⟨_, -, h⟩ := bind_eq_ok.mp h
  obtain ⟨_, -, h⟩ := bind_eq_ok.mp h
  obtain ⟨deliveries, hdeliveries, h⟩ := bind_eq_ok.mp h
  obtain rfl := pure_eq_ok.mp h
  obtain ⟨_, -, h⟩ := bind_eq_ok.mp hdeliveries
  obtain ⟨walked, hwalk, h⟩ := bind_eq_ok.mp h
  obtain ⟨_, -, h⟩ := bind_eq_ok.mp h
  obtain rfl := pure_eq_ok.mp h
  intro delivery hmem
  obtain ⟨i, hi, hsource, -⟩ := walk_mem hwalk delivery hmem
  refine List.mem_of_getElem? (i := i) ?_
  rw [List.getElem?_take, if_pos hi, hsource]

/-! ### Divergence -/

/-- The payload that an uncontradicted prefix assigns to a cursor of one
stream. -/
def payloadAt (sources : List (PreparedEnvelope canon)) (streamId : String) (cursor : Nat) :
    List Mutation :=
  (sources.find? fun source => decide (source.streamId = streamId ∧ source.cursor = cursor)).elim
    [] fun source => source.mutations

/-- Two envelopes of one stream at one cursor with different mutations. -/
def Contradicts (streamId : String) (x y : PreparedEnvelope canon) : Prop :=
  x.streamId = streamId ∧ y.streamId = streamId ∧ x.cursor = y.cursor ∧ x.mutations ≠ y.mutations

/-- An uncontradicted prefix assigns every run over it its first payloads. -/
theorem agrees_payloadAt {sources : List (PreparedEnvelope canon)} {streamId : String}
    {history : History canon}
    (hone : ∀ x ∈ sources, ∀ y ∈ sources, ¬ Contradicts streamId x y)
    (hhistory : ∀ x ∈ history, x.1 ∈ sources ∧ x.1.streamId = streamId) :
    Agrees (payloadAt sources streamId) history := by
  intro cursor first hfirst
  obtain ⟨hcursor, d, hmem⟩ := firstAt_mem hfirst
  obtain ⟨hsource, hstream⟩ := hhistory (first, d) hmem
  unfold payloadAt
  cases hfind : sources.find? fun source =>
      decide (source.streamId = streamId ∧ source.cursor = cursor) with
  | none =>
      have hnone := List.find?_eq_none.mp hfind first hsource
      rw [decide_eq_true_eq] at hnone
      exact absurd ⟨hstream, hcursor⟩ hnone
  | some source =>
      obtain ⟨hstream', hcursor'⟩ : source.streamId = streamId ∧ source.cursor = cursor := by
        simpa using List.find?_some hfind
      by_contra hne
      exact hone source (List.mem_of_find?_eq_some hfind) first hsource
        ⟨hstream', hstream, hcursor'.trans hcursor.symm, hne⟩

theorem sliceTo_ok {α : Type} {values slice : List α} {end_ : Nat}
    (h : sliceTo values end_ = .ok slice) : slice = values.take end_ := by
  unfold sliceTo at h
  split at h
  · exact (Except.ok.inj h).symm
  · cases h

/-- A comparison executes the same plan twice, over envelopes of its prefix,
and compares stream by stream. -/
theorem compareSchedule_ok {index : Nat} {comparison : ScheduleComparison}
    (h : trace.compareSchedule allocator index = .ok comparison) :
    ∃ plan originals delivered, trace.schedules[index]? = some plan ∧
      (∀ x ∈ originals, x.2 ∈ trace.sources.take plan.prefixLen) ∧
      (∀ x ∈ delivered, x.2 ∈ trace.sources.take plan.prefixLen) ∧
      trace.execute allocator .pristine plan.id plan.streamPrefixLen plan.prefixLen originals =
        .ok comparison.pristine ∧
      trace.execute allocator .faulted plan.id plan.streamPrefixLen plan.prefixLen delivered =
        .ok comparison.faulted ∧
      comparison.streams =
        comparison.pristine.streams.zipWith compareStreams comparison.faulted.streams := by
  obtain ⟨plan, hplan, h⟩ := bind_eq_ok.mp h
  obtain ⟨materialized, hmaterialized, h⟩ := bind_eq_ok.mp h
  obtain ⟨streams, hstreams, h⟩ := bind_eq_ok.mp h
  obtain ⟨sources, hsources, h⟩ := bind_eq_ok.mp h
  obtain ⟨pristine, hpristine, h⟩ := bind_eq_ok.mp h
  obtain ⟨faulted, hfaulted, h⟩ := bind_eq_ok.mp h
  obtain ⟨_, -, h⟩ := bind_eq_ok.mp h
  obtain ⟨_, -, h⟩ := bind_eq_ok.mp h
  obtain rfl := pure_eq_ok.mp h
  have hsliced : sources = trace.sources.take plan.prefixLen := sliceTo_ok hsources
  refine ⟨plan, _, _, okOr_eq_ok.mp hplan, fun x hx => ?_, fun x hx => ?_, hpristine, hfaulted,
    rfl⟩
  · rw [← hsliced]
    exact (List.of_mem_zip hx).2
  · obtain ⟨delivery, hdelivery, rfl⟩ := List.mem_map.mp hx
    exact materialize_mem (okOr_eq_ok.mp hplan) hmaterialized delivery hdelivery

/-- One side of a comparison over an uncontradicted prefix. -/
theorem side_agrees {blueprint : StreamBlueprint} {history : History canon}
    {state : StreamState canon} {sources : List (PreparedEnvelope canon)}
    {deliveries : List (Nat × PreparedEnvelope canon)} {stream : Nat}
    (hr : RunFrom (fromBlueprint blueprint) history state)
    (hhistory : history.map Prod.fst = routedTo stream deliveries)
    (hdeliveries : ∀ x ∈ deliveries, x.2 ∈ sources)
    (hone : ∀ x ∈ sources, ∀ y ∈ sources, ¬ Contradicts blueprint.registration.streamId x y) :
    Agrees (payloadAt sources blueprint.registration.streamId) history := by
  refine agrees_payloadAt hone fun x hx => ⟨?_, streamId_of_run hr x hx⟩
  have hrouted : x.1 ∈ routedTo stream deliveries := by
    rw [← hhistory]
    exact List.mem_map_of_mem hx
  exact hdeliveries (stream, x.1) (mem_routedTo.mp hrouted)

/-- A divergence needs two envelopes of the stream in the schedule's prefix
that contradict each other at one cursor. -/
theorem no_false_divergence {index stream : Nat} {comparison : ScheduleComparison}
    (h : trace.compareSchedule allocator index = .ok comparison)
    (hdiverged : (comparison.streams[stream]?).map StreamComparison.verdict = some .diverged) :
    ∃ plan blueprint, trace.schedules[index]? = some plan ∧
      trace.streams[stream]? = some blueprint ∧
      ∃ x ∈ trace.sources.take plan.prefixLen, ∃ y ∈ trace.sources.take plan.prefixLen,
        x.streamId = blueprint.registration.streamId ∧
        y.streamId = blueprint.registration.streamId ∧
        x.cursor = y.cursor ∧ x.mutations ≠ y.mutations := by
  obtain ⟨plan, originals, delivered, hplan, horiginals, hdelivered, hpristine, hfaulted,
    hstreams⟩ := compareSchedule_ok h
  obtain ⟨verdict, hverdict, hdiv⟩ := Option.map_eq_some_iff.mp hdiverged
  rw [hstreams, List.getElem?_zipWith_eq_some] at hverdict
  obtain ⟨left, right, hleft, hright, rfl⟩ := hverdict
  obtain ⟨heligible, heligible', hfrontier, hview⟩ := compareStreams_diverged.mp hdiv
  obtain ⟨blueprint, history, state, hblueprint, hr, hhistory, hfinish⟩ :=
    execute_ok hpristine hleft
  obtain ⟨blueprint', history', state', hblueprint', hr', hhistory', hfinish'⟩ :=
    execute_ok hfaulted hright
  obtain rfl := Option.some.inj (hblueprint.symm.trans hblueprint')
  refine ⟨plan, blueprint, hplan, hblueprint, ?_⟩
  -- otherwise one assignment explains both sides
  by_contra hnone
  have hone : ∀ x ∈ trace.sources.take plan.prefixLen,
      ∀ y ∈ trace.sources.take plan.prefixLen,
        ¬ Contradicts blueprint.registration.streamId x y :=
    fun x hx y hy hxy => hnone ⟨x, hx, y, hy, hxy⟩
  obtain ⟨hknown, hf, hv⟩ := finish_eligible (invariant_run hr) hfinish heligible
  obtain ⟨hknown', hf', hv'⟩ := finish_eligible (invariant_run hr') hfinish' heligible'
  refine hview ?_
  rw [hv, hv']
  exact view_congr hr hr' (side_agrees hr hhistory horiginals hone)
    (side_agrees hr' hhistory' hdelivered hone) hknown hknown'
    (hf.symm.trans (hfrontier.trans hf'))

/-- The sample trace diverges, and its two envelopes contradict each other. -/
theorem sample_divergence_has_cause :
    ∃ trace comparison, Sample.sealedTrace = .ok trace ∧
      trace.compareSchedule Sample.granting 0 = .ok comparison ∧
      ∃ plan blueprint, trace.schedules[0]? = some plan ∧ trace.streams[0]? = some blueprint ∧
        ∃ x ∈ trace.sources.take plan.prefixLen, ∃ y ∈ trace.sources.take plan.prefixLen,
          x.streamId = blueprint.registration.streamId ∧
          y.streamId = blueprint.registration.streamId ∧
          x.cursor = y.cursor ∧ x.mutations ≠ y.mutations := by
  have hdiverged : Sample.comparison.toOption.bind (fun comparison =>
      (comparison.streams[0]?).map StreamComparison.verdict) = some .diverged := by
    decide +kernel
  cases hcomparison : Sample.comparison with
  | error failure =>
      rw [hcomparison] at hdiverged
      cases hdiverged
  | ok comparison =>
      rw [hcomparison] at hdiverged
      obtain ⟨trace, htrace, hcompare⟩ := bind_eq_ok.mp hcomparison
      exact ⟨trace, comparison, htrace, hcompare, no_false_divergence hcompare hdiverged⟩

end SealedTrace

end KvCrucible
