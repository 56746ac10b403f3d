/-
KvCrucible/Stepping.lean

Streams that are driven by hand.

A sealed trace starts the state of a stream and finishes it, and what is
delivered in between is left to the caller.  A caller who delivers what a
schedule delivers gets the summaries of the comparison.  A caller who goes on
after a delivery was refused gets none: the state stays failed, and neither its
own trace nor any other one finishes it.
-/
import KvCrucible.PlainSides

namespace KvCrucible

open Basis StreamState

variable {canon : Canonical}

/-! ### Starting and finishing -/

/-- How the two end without a result.  Of `ScenarioError` they report nothing
else. -/
inductive StreamFailure where
  | streamIndexOutOfRange (count actual : Nat)
  | state (error : StateError)
  deriving DecidableEq

namespace SealedTrace

variable (trace : SealedTrace canon)

/-- `start_stream`. -/
def startStream (index : Nat) : Except StreamFailure (StreamState canon) := do
  let blueprint ← okOr trace.streams[index]? (.streamIndexOutOfRange trace.streams.length index)
  (StreamState.start blueprint .sealed trace.sealedSession).mapError .state

/-- `finish_stream`.  A state that is not refused belongs to the sealed session
and has its status. -/
def finishStream (state : StreamState canon) : Except StreamFailure StreamSummary :=
  (state.finish .sealed trace.sealedSession).mapError .state

end SealedTrace

namespace StreamState

variable {s t : StreamState canon} {e : PreparedEnvelope canon}
  {deliveries : List (PreparedEnvelope canon)}

/-- Admit deliveries one after another, whether they are refused or not. -/
def drive (s : StreamState canon) (deliveries : List (PreparedEnvelope canon)) :
    StreamState canon :=
  deliveries.foldl (fun s e => (s.admitDelivery .sealed e).2) s

theorem drive_snoc : s.drive (deliveries ++ [e]) =
    ((s.drive deliveries).admitDelivery .sealed e).2 := by
  unfold drive
  rw [List.foldl_append]
  rfl

/-- A refused delivery leaves a state failed, and a failed state refuses. -/
theorem admitDelivery_live (h : (s.admitDelivery .sealed e).2.failed = false) :
    s.failed = false ∧ ∃ d, (s.admitDelivery .sealed e).1 = .ok d := by
  cases hresult : (s.admitDelivery .sealed e).1 with
  | ok d => exact ⟨(admits_of_result hresult).ok.1, d, rfl⟩
  | error failure =>
      unfold admitDelivery at h hresult
      cases hfailed : s.failed with
      | true =>
          rw [hfailed, if_pos rfl, hfailed] at h
          cases h
      | false =>
          rw [hfailed, if_neg Bool.false_ne_true, if_neg (fun hstatus => by cases hstatus)]
            at h hresult
          cases hinner : s.admitInner e with
          | error failure =>
              rw [hinner] at h
              cases h
          | ok result =>
              rw [hinner] at hresult
              cases hresult

/-- One delivery is admitted when it has a result. -/
theorem admitOne_eq_ok : s.admitOne .sealed e = .ok t ↔
    (∃ d, (s.admitDelivery .sealed e).1 = .ok d) ∧ (s.admitDelivery .sealed e).2 = t := by
  unfold admitOne
  cases (s.admitDelivery .sealed e).1 with
  | ok d =>
      constructor
      · intro h
        exact ⟨⟨d, rfl⟩, Except.ok.inj h⟩
      · rintro ⟨-, rfl⟩
        rfl
  | error failure =>
      constructor
      · intro h
        cases h
      · rintro ⟨⟨d, h⟩, -⟩
        cases h

/-- A state that is driven and did not fail went through a run that delivered
everything, and accepted it. -/
theorem run_of_live (h : (s.drive deliveries).failed = false) :
    ∃ history, RunFrom s history (s.drive deliveries) ∧ history.map Prod.fst = deliveries ∧
      ∀ e ∈ deliveries, s.Accepts e := by
  induction deliveries using List.reverseRecOn with
  | nil => exact ⟨[], .nil, rfl, fun e he => by cases he⟩
  | append_singleton deliveries e ih =>
      rw [drive_snoc] at h ⊢
      obtain ⟨hlive, d, hresult⟩ := admitDelivery_live h
      have hadmits := admits_of_result hresult
      obtain ⟨history, hr, hhistory, haccepts⟩ := ih hlive
      refine ⟨history ++ [(e, d)], hr.snoc hadmits, ?_, ?_⟩
      · rw [List.map_append, hhistory]
        rfl
      · intro e' he'
        rcases List.mem_append.mp he' with he' | he'
        · exact haccepts e' he'
        · -- the state in between is one of the same stream
          obtain rfl := List.mem_singleton.mp he'
          have hsame := same_run hr
          exact ⟨hadmits.accepts.session.trans hsame.session,
            hadmits.accepts.streamId.trans hsame.streamId,
            hsame.initialCursor ▸ hadmits.accepts.initialCursor⟩

/-- A state is driven without a failure when every delivery is admitted. -/
theorem admitAll_eq_ok (hopen : s.failed = false) :
    s.admitAll .sealed deliveries = .ok t ↔
      (s.drive deliveries).failed = false ∧ s.drive deliveries = t := by
  induction deliveries using List.reverseRecOn generalizing t with
  | nil =>
      show Except.ok s = .ok t ↔ s.failed = false ∧ s = t
      rw [Except.ok.injEq, hopen]
      exact (and_iff_right rfl).symm
  | append_singleton deliveries e ih =>
      have hsplit : s.admitAll .sealed (deliveries ++ [e]) =
          (s.admitAll .sealed deliveries).bind fun u => u.admitOne .sealed e := by
        unfold admitAll
        rw [List.foldlM_append]
        congr 1
        funext u
        exact bind_pure _
      rw [hsplit, drive_snoc]
      constructor
      · intro h
        obtain ⟨u, hu, hone⟩ := bind_eq_ok.mp h
        obtain ⟨-, rfl⟩ := ih.mp hu
        obtain ⟨⟨d, hresult⟩, rfl⟩ := admitOne_eq_ok.mp hone
        have hadmits := admits_of_result hresult
        exact ⟨hadmits.step.same.failed.trans hadmits.ok.1, rfl⟩
      · rintro ⟨hlive, rfl⟩
        obtain ⟨hbefore, hresult⟩ := admitDelivery_live hlive
        exact bind_ok (ih.mpr ⟨hbefore, rfl⟩) (admitOne_eq_ok.mpr ⟨hresult, rfl⟩)

/-- A state is finished when it did not fail and the session is its own. -/
theorem finish_total {sealedSession : SealedSession} :
    (∃ summary, s.finish .sealed sealedSession = .ok summary) ↔
      s.failed = false ∧ s.session = sealedSession.session := by
  constructor
  · rintro ⟨summary, h⟩
    obtain ⟨_, hfailed, h⟩ := bind_eq_ok.mp h
    obtain ⟨_, hsession, -⟩ := bind_eq_ok.mp h
    exact ⟨Bool.not_eq_true _ ▸ rejectIf_eq_ok.mp hfailed,
      not_not.mp (rejectIf_eq_ok.mp hsession)⟩
  · rintro ⟨hfailed, hsession⟩
    refine ⟨_, bind_ok (rejectIf_neg (by rw [hfailed]; exact Bool.false_ne_true))
      (bind_ok (rejectIf_neg (not_not.mpr hsession)) (bind_ok (rejectIf_neg (by simp)) rfl))⟩

end StreamState

namespace SealedTrace

variable {trace trace' : SealedTrace canon} {allocator allocator' : Allocator}
  {session session' : SessionId} {limits limits' : Limits} {records records' : List Record}
  {stream index : Nat} {s₀ : StreamState canon} {summary : StreamSummary}

/-- A started state is the fresh one of its blueprint. -/
theorem SealedIn.startStream_eq_ok (h : SealedIn session limits records trace) :
    trace.startStream stream = .ok s₀ ↔ ∃ blueprint, trace.streams[stream]? = some blueprint ∧
      s₀ = fromBlueprint blueprint := by
  constructor
  · intro hstart
    obtain ⟨blueprint, hblueprint, hstart⟩ := bind_eq_ok.mp hstart
    exact ⟨blueprint, okOr_eq_ok.mp hblueprint, start_ok (mapError_eq_ok.mp hstart)⟩
  · rintro ⟨blueprint, hblueprint, rfl⟩
    have hsession : blueprint.session = trace.sealedSession.session := by
      rw [(h.blueprints blueprint (List.mem_of_getElem? hblueprint)).1, h.sealedSession]
    apply bind_ok (okOr_eq_ok.mpr hblueprint)
    apply mapError_eq_ok.mpr
    exact bind_ok (rejectIf_neg (not_not.mpr hsession)) (bind_ok (rejectIf_neg (by simp)) rfl)

/-- The summaries of an execution are those of the streams, each driven by hand
with what is routed to it. -/
theorem SealedIn.execute_driven (h : SealedIn session limits records trace) {mode : ExecutionMode}
    {scheduleId : String} {streamPrefixLen sourcePrefixLen : Nat}
    {deliveries : List (Nat × PreparedEnvelope canon)} {execution : ScenarioExecution}
    (hexecute : trace.execute allocator mode scheduleId streamPrefixLen sourcePrefixLen deliveries =
      .ok execution) : execution.streams[stream]? = some summary ↔ stream < streamPrefixLen ∧
        ∃ s₀, trace.startStream stream = .ok s₀ ∧
          trace.finishStream (s₀.drive (routedTo stream deliveries)) = .ok summary := by
  rw [execute_summary hexecute]
  apply and_congr_right
  intro hvisible
  constructor
  · rintro ⟨blueprint, s, hblueprint, hall, hfinish⟩
    obtain ⟨-, rfl⟩ := (admitAll_eq_ok rfl).mp hall
    exact ⟨_, h.startStream_eq_ok.mpr ⟨blueprint, hblueprint, rfl⟩, mapError_eq_ok.mpr hfinish⟩
  · rintro ⟨s₀, hstart, hfinish⟩
    obtain ⟨blueprint, hblueprint, rfl⟩ := h.startStream_eq_ok.mp hstart
    have hfinish := mapError_eq_ok.mp hfinish
    obtain ⟨hlive, -⟩ := finish_total.mp ⟨summary, hfinish⟩
    exact ⟨blueprint, _, hblueprint, (admitAll_eq_ok rfl).mpr ⟨hlive, rfl⟩, hfinish⟩

/-- Streams that are driven by hand agree with a comparison.  Whoever starts a
stream, delivers what a schedule delivers to it, recorded or faulted, and
finishes it, gets the summary of that side. -/
theorem driven_streams_agree {sealing : Allocator} {a : TraceAssembler canon}
    {inputs : List (ValidatedRecord × Option BaselineAuthority)}
    (hnew : TraceAssembler.new session limits = .ok a)
    (hfinish : (a.pushAll inputs).finish sealing = .ok trace) {plan : SchedulePlan}
    (hplan : trace.schedules[index]? = some plan) {comparison : ScheduleComparison}
    (hcompare : trace.compareSchedule allocator index = .ok comparison)
    {materialized : MaterializedSchedule canon}
    (hmaterialized : trace.materialize allocator' index = .ok materialized) :
    (comparison.pristine.streams[stream]? = some summary ↔ stream < plan.streamPrefixLen ∧
      ∃ s₀, trace.startStream stream = .ok s₀ ∧
        trace.finishStream (s₀.drive (routedTo stream (trace.originals plan))) = .ok summary) ∧
    (comparison.faulted.streams[stream]? = some summary ↔ stream < plan.streamPrefixLen ∧
      ∃ s₀, trace.startStream stream = .ok s₀ ∧
        trace.finishStream (s₀.drive (routedTo stream materialized.routes)) = .ok summary) := by
  have hsealed := finish_sealed hnew hfinish
  obtain ⟨materialized', hmaterialized', hleft, hright, -⟩ := compareSchedule_sides hplan hcompare
  -- a materialization does not depend on the allocator
  obtain rfl : materialized' = materialized := by
    obtain ⟨plan₁, hplan₁, hgranted⟩ := bind_eq_ok.mp hmaterialized
    obtain ⟨plan₂, hplan₂, hgranted'⟩ := bind_eq_ok.mp hmaterialized'
    obtain rfl := Option.some.inj ((okOr_eq_ok.mp hplan₁).symm.trans (okOr_eq_ok.mp hplan₂))
    exact Except.ok.inj ((materializeSchedule_grantAll hgranted').symm.trans
      (materializeSchedule_grantAll hgranted))
  exact ⟨hsealed.execute_driven hleft, hsealed.execute_driven hright⟩

/-- The faulted side of the sample, driven by hand. -/
theorem sample_driven_streams_agree : ∃ trace comparison faulted s₀,
    ∃ materialized : MaterializedSchedule Sample.canonical,
      Sample.comparedUnder 0 Sample.forgetful = .ok (trace, comparison) ∧
        trace.materialize Sample.granting 0 = .ok materialized ∧
        comparison.faulted.streams[0]? = some faulted ∧ trace.startStream 0 = .ok s₀ ∧
        trace.finishStream (s₀.drive (routedTo 0 materialized.routes)) = .ok faulted := by
  have hseen : (Sample.comparedUnder 0 Sample.forgetful).toOption.any (fun result =>
      result.2.faulted.streams[0]?.isSome) = true := by
    decide +kernel
  cases hcomparison : Sample.comparedUnder 0 Sample.forgetful with
  | error failure =>
      rw [hcomparison] at hseen
      cases hseen
  | ok result =>
      rw [hcomparison] at hseen
      obtain ⟨faulted, hfaulted⟩ := Option.isSome_iff_exists.mp hseen
      obtain ⟨a, hnew, hrest⟩ := bind_eq_ok.mp hcomparison
      obtain ⟨trace, hfinish, hrest⟩ := bind_eq_ok.mp hrest
      obtain ⟨comparison, hcompare, hrest⟩ := bind_eq_ok.mp hrest
      obtain rfl := pure_eq_ok.mp hrest
      obtain ⟨plan, hplan, hrest⟩ := bind_eq_ok.mp hcompare
      obtain ⟨materialized, hmaterialized, -⟩ := bind_eq_ok.mp hrest
      obtain ⟨-, hdriven⟩ := @driven_streams_agree _ _ _ _ _ _ 0 0 faulted _ _ _ hnew hfinish plan
        (okOr_eq_ok.mp hplan) comparison hcompare materialized hmaterialized
      obtain ⟨-, s₀, hstart, hfinished⟩ := hdriven.mp hfaulted
      exact ⟨trace, comparison, faulted, s₀, materialized, rfl, hmaterialized, hfaulted, hstart,
        hfinished⟩

/-- Streams that are driven by hand fail closed.  Whatever is delivered, a
stream is finished exactly when every delivery was admitted; then each of them
was prepared in the session of the trace, for the stream, and not below its
first cursor.  A trace that is sealed in another session never finishes it. -/
theorem driven_streams_fail_closed {sealing sealing' : Allocator} {a a' : TraceAssembler canon}
    {inputs inputs' : List (ValidatedRecord × Option BaselineAuthority)}
    (hnew : TraceAssembler.new session limits = .ok a)
    (hfinish : (a.pushAll inputs).finish sealing = .ok trace)
    (hnew' : TraceAssembler.new session' limits' = .ok a')
    (hfinish' : (a'.pushAll inputs').finish sealing' = .ok trace')
    (hstart : trace.startStream stream = .ok s₀) (deliveries : List (PreparedEnvelope canon)) :
    ((∃ summary, trace.finishStream (s₀.drive deliveries) = .ok summary) ↔
        ∃ s, s₀.admitAll .sealed deliveries = .ok s) ∧
      ((∃ summary, trace.finishStream (s₀.drive deliveries) = .ok summary) →
        ∀ e ∈ deliveries, e.session = session ∧ e.streamId = s₀.streamId ∧
          s₀.initialCursor ≤ e.cursor) ∧
      ((∃ summary, trace'.finishStream (s₀.drive deliveries) = .ok summary) →
        session' = session) := by
  have hsealed := finish_sealed hnew hfinish
  have hsealed' := finish_sealed hnew' hfinish'
  obtain ⟨blueprint, hblueprint, rfl⟩ := hsealed.startStream_eq_ok.mp hstart
  have hsession : blueprint.session = session :=
    (hsealed.blueprints blueprint (List.mem_of_getElem? hblueprint)).1
  -- a finished state did not fail, so that it went through a run
  have hfinished : ∀ {other : SealedTrace canon},
      (∃ summary, other.finishStream ((fromBlueprint blueprint).drive deliveries) = .ok summary) ↔
        ((fromBlueprint blueprint : StreamState canon).drive deliveries).failed = false ∧
          ((fromBlueprint blueprint : StreamState canon).drive deliveries).session =
            other.sealedSession.session := by
    intro other
    rw [← finish_total]
    exact exists_congr fun summary => mapError_eq_ok
  have hdriven : ((fromBlueprint blueprint : StreamState canon).drive deliveries).failed = false →
      ((fromBlueprint blueprint : StreamState canon).drive deliveries).session = session ∧
        ∀ e ∈ deliveries, (fromBlueprint blueprint : StreamState canon).Accepts e := by
    intro hlive
    obtain ⟨history, hr, -, haccepts⟩ := run_of_live hlive
    exact ⟨(same_run hr).session.trans hsession, haccepts⟩
  refine ⟨?_, ?_, ?_⟩
  · rw [hfinished]
    constructor
    · rintro ⟨hlive, -⟩
      exact ⟨_, (admitAll_eq_ok rfl).mpr ⟨hlive, rfl⟩⟩
    · rintro ⟨s, hall⟩
      obtain ⟨hlive, -⟩ := (admitAll_eq_ok rfl).mp hall
      exact ⟨hlive, (hdriven hlive).1.trans hsealed.sealedSession.symm⟩
  · intro h e he
    have haccepts := (hdriven (hfinished.mp h).1).2 e he
    exact ⟨haccepts.session.trans hsession, haccepts.streamId, haccepts.initialCursor⟩
  · intro h
    obtain ⟨hlive, hother⟩ := hfinished.mp h
    rw [← hsealed'.sealedSession, ← hother]
    exact (hdriven hlive).1

/-- The sample stream takes nothing of another session, and is not finished by
one. -/
theorem sample_driven_streams_fail_closed : ∃ trace trace' s₀,
    Sample.sealedTrace = .ok trace ∧ Sample.longerTrace = .ok trace' ∧
      trace.startStream 0 = .ok s₀ ∧
      (∀ e, e.session = 1 → ∀ summary, trace.finishStream (s₀.drive [e]) ≠ .ok summary) ∧
      ∀ deliveries summary, trace'.finishStream (s₀.drive deliveries) ≠ .ok summary := by
  have hsealed : Sample.sealedTrace.toOption.any (fun trace =>
      (trace.startStream 0).toOption.isSome) = true := by
    decide +kernel
  have hlonger : Sample.longerTrace.toOption.isSome = true := by
    decide +kernel
  cases htrace : Sample.sealedTrace with
  | error failure =>
      rw [htrace] at hsealed
      cases hsealed
  | ok trace =>
      rw [htrace] at hsealed
      cases htrace' : Sample.longerTrace with
      | error failure =>
          rw [htrace'] at hlonger
          cases hlonger
      | ok trace' =>
          cases hstart : trace.startStream 0 with
          | error failure =>
              rw [Except.toOption, Option.any_some, hstart] at hsealed
              cases hsealed
          | ok s₀ =>
              obtain ⟨a, hnew, hfinish⟩ := bind_eq_ok.mp htrace
              obtain ⟨a', hnew', hfinish'⟩ := bind_eq_ok.mp htrace'
              have hclosed := @driven_streams_fail_closed _ trace trace' 0 1 _ _ 0 s₀ _ _ _ _ _ _
                hnew hfinish hnew' hfinish' hstart
              refine ⟨trace, trace', s₀, rfl, rfl, hstart, ?_, ?_⟩
              · intro e hsession summary hdriven
                obtain ⟨heq, -⟩ := (hclosed [e]).2.1 ⟨summary, hdriven⟩ e List.mem_cons_self
                rw [hsession] at heq
                exact absurd heq (by decide)
              · intro deliveries summary hdriven
                exact absurd ((hclosed deliveries).2.2 ⟨summary, hdriven⟩) (by decide)

end SealedTrace

end KvCrucible
