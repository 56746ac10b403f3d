/-
KvCrucible/PlainSides.lean

What a comparison reports, read off the records.

A side of a stream is a run over the envelopes of the stream, the recorded ones
or those that a schedule leaves live, so that what it folds is what the machine
without evidence makes of them.  The limits on evidence, on diagnostics and on
the cache decide whether a trace is compared and what is certain of it.  What is
folded they do not decide.
-/
import KvCrucible.PlainFold
import KvCrucible.Certificate

namespace KvCrucible

open Basis Std StreamState

variable {canon : Canonical}

/-! ### Summaries -/

/-- A summary shows a stream without evidence.  Of the reasons only the
equivocation comes from the evidence. -/
structure StreamSummary.Shows (canon : Canonical) (scope : CacheScope) (p : PlainFold)
    (summary : StreamSummary) : Prop where
  frontier : summary.frontier = p.frontier
  view : summary.view = ⟨scope, p.keys, keyBytes p.keys⟩
  pendingEnvelopes : summary.pendingEnvelopes = p.pending.size
  pendingCanonicalBytes : summary.pendingCanonicalBytes = p.pendingBytes canon
  reasons : ∃ equivocation, summary.reasons =
    (UnknownReasons.active p.baselineUnknown equivocation p.lost.isSome).withUnclosedGap
      (!p.pending.isEmpty)

/-- Two summaries of one fold. -/
structure SameFold (summary summary' : StreamSummary) : Prop where
  frontier : summary.frontier = summary'.frontier
  view : summary.view = summary'.view
  pendingEnvelopes : summary.pendingEnvelopes = summary'.pendingEnvelopes
  pendingCanonicalBytes : summary.pendingCanonicalBytes = summary'.pendingCanonicalBytes
  reasons : summary.reasons.bits ||| UnknownReasons.equivocationBit =
    summary'.reasons.bits ||| UnknownReasons.equivocationBit

/-- The reasons without the equivocation do not tell one evidence from another. -/
theorem active_equivocation (baseline equivocation equivocation' unavailable unclosed : Bool) :
    ((UnknownReasons.active baseline equivocation unavailable).withUnclosedGap unclosed).bits |||
        UnknownReasons.equivocationBit =
      ((UnknownReasons.active baseline equivocation' unavailable).withUnclosedGap unclosed).bits |||
        UnknownReasons.equivocationBit := by
  revert baseline equivocation equivocation' unavailable unclosed
  decide

theorem StreamSummary.Shows.same {scope : CacheScope} {p : PlainFold}
    {summary summary' : StreamSummary} (h : summary.Shows canon scope p)
    (h' : summary'.Shows canon scope p) : SameFold summary summary' where
  frontier := h.frontier.trans h'.frontier.symm
  view := h.view.trans h'.view.symm
  pendingEnvelopes := h.pendingEnvelopes.trans h'.pendingEnvelopes.symm
  pendingCanonicalBytes := h.pendingCanonicalBytes.trans h'.pendingCanonicalBytes.symm
  reasons := by
    obtain ⟨equivocation, hreasons⟩ := h.reasons
    obtain ⟨equivocation', hreasons'⟩ := h'.reasons
    rw [hreasons, hreasons']
    apply active_equivocation

/-- An eligible verdict is one on the views. -/
theorem compareStreams_eligible {pristine faulted : StreamSummary}
    (h : (compareStreams pristine faulted).verdict ≠ .ineligible) :
    (compareStreams pristine faulted).verdict =
      if pristine.view = faulted.view then .converged else .diverged := by
  rw [compareStreams_verdict] at h ⊢
  by_cases heligible : eligibleSummary pristine = true ∧ eligibleSummary faulted = true ∧
      pristine.frontier = faulted.frontier
  · rw [if_pos heligible]
  · rw [if_neg heligible] at h
    exact absurd rfl h

/-- A verdict on two eligible pairs of the same folds is the same. -/
theorem SameFold.verdict {pristine pristine' faulted faulted' : StreamSummary}
    (h : SameFold pristine pristine') (h' : SameFold faulted faulted')
    (helig : (compareStreams pristine faulted).verdict ≠ .ineligible)
    (helig' : (compareStreams pristine' faulted').verdict ≠ .ineligible) :
    (compareStreams pristine faulted).verdict = (compareStreams pristine' faulted').verdict := by
  rw [compareStreams_eligible helig, compareStreams_eligible helig', h.view, h'.view]

namespace StreamState

variable {s : StreamState canon} {blueprint : StreamBlueprint} {history : History canon}

/-- A finished state is summarized as the machine. -/
theorem shows_of_finish (hr : RunFrom (fromBlueprint blueprint) history s)
    {status : SessionStatus} {sealedSession : SealedSession} {summary : StreamSummary}
    (hfinish : s.finish status sealedSession = .ok summary) :
    summary.Shows canon blueprint.registration.scope s.plain := by
  have hs := invariant_run hr
  have hview : s.view = ⟨blueprint.registration.scope, s.view.keys, keyBytes s.view.keys⟩ :=
    CacheView.ext (same_run hr).scope rfl hs.view.identityBytes
  have hsize : s.pending.size = s.plain.pending.size := ExtTreeMap.size_map.symm
  have hempty : s.plain.pending.isEmpty = s.pending.isEmpty := isEmpty_map s.pending
  have hlost : s.plain.lost.isSome = s.unavailableFloor.isSome := by
    rw [Bool.eq_iff_iff, Option.isSome_iff_ne_none, Option.isSome_iff_ne_none]
    exact not_congr (plain_lost_none hs.toCore)
  have hreasons : ∃ equivocation, s.unknownReasons.withUnclosedGap (!s.pending.isEmpty) =
      (UnknownReasons.active s.plain.baselineUnknown equivocation
        s.plain.lost.isSome).withUnclosedGap (!s.plain.pending.isEmpty) := by
    refine ⟨s.equivocationCeiling.isSome, ?_⟩
    rw [hempty, hlost]
    rfl
  obtain ⟨-, -, hfinish⟩ := bind_eq_ok.mp hfinish
  obtain ⟨-, -, hfinish⟩ := bind_eq_ok.mp hfinish
  obtain ⟨-, -, hfinish⟩ := bind_eq_ok.mp hfinish
  cases hclosed : s.pending.isEmpty with
  | true =>
      rw [hclosed] at hfinish hreasons
      obtain rfl := pure_eq_ok.mp hfinish
      exact ⟨rfl, hview, hsize, (plain_pendingBytes hs.accounted).symm, hreasons⟩
  | false =>
      rw [hclosed] at hfinish hreasons
      obtain rfl := pure_eq_ok.mp hfinish
      exact ⟨rfl, hview, hsize, (plain_pendingBytes hs.accounted).symm, hreasons⟩

end StreamState

/-! ### Envelopes of a stream -/

/-- An envelope without its evidence. -/
def EventEnvelope.plain (envelope : EventEnvelope) : Nat × List Mutation :=
  (envelope.cursor.get.toNat, envelope.mutations)

/-- What the envelopes deliver to a stream. -/
def deliveriesOf (streamId : String) (envelopes : List EventEnvelope) :
    List (Nat × List Mutation) :=
  (envelopes.filter fun envelope => envelope.streamId = streamId).map EventEnvelope.plain

/-- The machine over the envelopes of a stream. -/
def PlainFold.ofEnvelopes (canon : Canonical) (limits : Limits) (registration : RegisteredStream)
    (envelopes : List EventEnvelope) : PlainFold :=
  (PlainFold.start registration).run canon limits.gaps
    (deliveriesOf registration.streamId envelopes)

/-- The envelopes that a schedule leaves live, in its order. -/
def liveEnvelopes (before : List Record) (schedule : FaultSchedule) : List EventEnvelope :=
  ((Replay.start (envelopeIdsOf before).length).run (envelopeIdsOf before)
    schedule.actions).live.filterMap fun key => (envelopesOf before)[key.source]?

/-- A delivery stands for an envelope, and is one of the stream if that is. -/
structure StandsFor (stream : Nat) (streamId : String) (envelope : EventEnvelope)
    (delivery : Nat × PreparedEnvelope canon) : Prop where
  prepared : Prepared envelope delivery.2
  routed : delivery.1 = stream ↔ envelope.streamId = streamId

/-- What is routed to a stream is what its envelopes deliver. -/
theorem plain_routedTo {stream : Nat} {streamId : String} {envelopes : List EventEnvelope}
    {deliveries : List (Nat × PreparedEnvelope canon)}
    (h : List.Forall₂ (StandsFor stream streamId) envelopes deliveries) :
    (routedTo stream deliveries).map PreparedEnvelope.plain =
      deliveriesOf streamId envelopes := by
  induction h with
  | nil => rfl
  | @cons envelope delivery envelopes deliveries hstands _ ih =>
      have hplain : delivery.2.plain = envelope.plain :=
        Prod.ext hstands.prepared.cursor hstands.prepared.mutations
      rw [routedTo_cons, List.map_append, ih]
      unfold deliveriesOf
      rw [List.filter_cons]
      by_cases heq : delivery.1 = stream
      · rw [if_pos heq, if_pos (decide_eq_true (hstands.routed.mp heq)), List.map_cons,
          List.map_cons, hplain]
        rfl
      · rw [if_neg heq, if_neg fun hsame => heq (hstands.routed.mpr (of_decide_eq_true hsame))]
        rfl

/-- Related lists stay related when each element on the left finds its own. -/
theorem forall₂_filterMap {α β γ δ : Type*} {R : α → β → Prop} {S : γ → δ → Prop}
    {f : α → Option γ} {g : β → δ} {left : List α} {right : List β} (h : List.Forall₂ R left right)
    (hf : ∀ a ∈ left, ∀ b, R a b → ∃ c, f a = some c ∧ S c (g b)) :
    List.Forall₂ S (left.filterMap f) (right.map g) := by
  induction h with
  | nil => exact .nil
  | @cons a b left right hab _ ih =>
      obtain ⟨c, hc, hS⟩ := hf a List.mem_cons_self b hab
      rw [List.filterMap_cons_some hc, List.map_cons]
      exact .cons hS (ih fun a ha => hf a (List.mem_cons_of_mem _ ha))

/-- The registration of an entry depends on nothing else. -/
theorem registration_blueprintOf {session session' : SessionId} {limits limits' : Limits}
    {entry : Entry} : (blueprintOf session limits entry).map StreamBlueprint.registration =
      (blueprintOf session' limits' entry).map StreamBlueprint.registration := by
  obtain ⟨record, authority⟩ := entry
  cases record with
  | stream stream =>
      cases authority with
      | none => rfl
      | some authority =>
          rw [blueprintOf, blueprintOf]
          by_cases h : authority = .trustDeclaredEmpty → stream.baseline = .emptyAtEngineStart
          · rw [dif_pos h, dif_pos h]
            rfl
          · rw [dif_neg h, dif_neg h]
  | traceHeader header => rfl
  | envelope envelope => rfl
  | faultSchedule schedule => rfl

namespace SealedTrace

variable {trace trace' : SealedTrace canon} {allocator allocator' : Allocator}
  {limits limits' : Limits} {records before after : List Record} {schedule : FaultSchedule}
  {stream : Nat} {source : PreparedEnvelope canon} {blueprint : StreamBlueprint}
  {session session' : SessionId} {a a' : TraceAssembler canon} {sealing sealing' : Allocator}
  {comparison comparison' : ScheduleComparison}

/-- What stands at a place before a schedule stands for the envelope there. -/
theorem SealedFrom.standsFor (h : SealedFrom limits records trace)
    (hrecords : records = before ++ after) (hblueprint : trace.streams[stream]? = some blueprint)
    {i ordinal : Nat} (hi : i < (envelopesOf before).length)
    (hordinal : trace.sourceStreams[i]? = some ordinal)
    (hsource : trace.sources[i]? = some source) :
    ∃ envelope, (envelopesOf before)[i]? = some envelope ∧
      StandsFor stream blueprint.registration.streamId envelope (ordinal, source) := by
  obtain ⟨envelope, henvelope, hprepared⟩ := getElem?_of_forall₂ h.sources hsource
  rw [hrecords, envelopesOf_append, List.getElem?_append_left hi] at henvelope
  have hid : (streamIdsOf records)[stream]? = some blueprint.registration.streamId := by
    rw [streamIdsOf, ← map_streamId h.streams, List.getElem?_map, hblueprint]
    rfl
  obtain ⟨source', hsource', hroute⟩ := getElem?_of_forall₂ h.sourceStreams hordinal
  obtain rfl := Option.some.inj (hsource.symm.trans hsource')
  have hroute : (streamIdsOf records)[ordinal]? = some source.streamId := hroute
  refine ⟨envelope, henvelope, hprepared, ?_⟩
  rw [← hprepared.streamId]
  constructor
  · rintro rfl
    exact Option.some.inj (hroute.symm.trans hid)
  · intro heq
    obtain ⟨hbound, -⟩ := List.getElem?_eq_some_iff.mp hroute
    apply (List.getElem?_inj hbound h.wellFormed.streamIds).mp
    rw [hroute, hid, heq]

/-- The pristine side stands for the recorded envelopes. -/
theorem SealedFrom.standsFor_originals (h : SealedFrom limits records trace)
    (hrecords : records = before ++ .faultSchedule schedule :: after)
    (hblueprint : trace.streams[stream]? = some blueprint) {plan : SchedulePlan}
    (hplan : planOf before (.faultSchedule schedule) = some plan) :
    List.Forall₂ (StandsFor stream blueprint.registration.streamId) (envelopesOf before)
      (trace.originals plan) := by
  have hplanned : plan.prefixLen = (envelopesOf before).length := by
    obtain rfl := Option.some.inj hplan
    exact List.length_map _
  have hsources : (envelopesOf before).length ≤ trace.sources.length := by
    rw [← h.sources.length_eq, hrecords, envelopesOf_append, List.length_append]
    exact Nat.le_add_right _ _
  have hroutes : trace.sourceStreams.length = trace.sources.length :=
    h.sourceStreams.length_eq.symm
  unfold originals
  rw [hplanned]
  apply List.forall₂_iff_get.mpr
  refine ⟨?_, ?_⟩
  · rw [List.length_zip, List.length_take, List.length_take, hroutes, Nat.min_self,
      Nat.min_eq_left hsources]
  · intro i hi hi'
    obtain ⟨⟨ordinal, source⟩, hdelivery⟩ : ∃ delivery, List.get _ ⟨i, hi'⟩ = delivery := ⟨_, rfl⟩
    obtain ⟨hordinal, hsource⟩ :=
      List.getElem?_zip_eq_some.mp (List.getElem?_eq_some_iff.mpr ⟨hi', hdelivery⟩)
    rw [List.getElem?_take_of_lt hi] at hordinal hsource
    obtain ⟨envelope, henvelope, hstands⟩ :=
      h.standsFor hrecords hblueprint hi hordinal hsource
    obtain ⟨_, rfl⟩ := List.getElem?_eq_some_iff.mp henvelope
    rw [hdelivery]
    exact hstands

/-- The faulted side stands for the live envelopes. -/
theorem SealedFrom.standsFor_routes (h : SealedFrom limits records trace)
    (hrecords : records = before ++ .faultSchedule schedule :: after)
    (hblueprint : trace.streams[stream]? = some blueprint)
    {materialized : MaterializedSchedule canon}
    (hmaterialized :
      trace.materialize allocator (schedulesOf before).length = .ok materialized) :
    List.Forall₂ (StandsFor stream blueprint.registration.streamId)
      (liveEnvelopes before schedule) materialized.routes := by
  obtain ⟨-, hall, -⟩ := h.wellFormed.inPlace before _ after hrecords
  obtain ⟨hnumbered, -⟩ := (Replay.numbered_start _).run hall
  apply forall₂_filterMap (h.delivers hrecords hmaterialized)
  intro key hkey delivery hdelivers
  have hlt : key.source < (envelopesOf before).length := by
    have hknown := hnumbered.known key hkey
    rwa [envelopeIdsOf, List.length_map] at hknown
  exact h.standsFor hrecords hblueprint hlt hdelivers.streamIndex hdelivers.source

/-- A side of a stream is summarized as the machine over its deliveries. -/
theorem shows_of_execute {mode : ExecutionMode} {scheduleId : String}
    {streamPrefixLen sourcePrefixLen : Nat} {deliveries : List (Nat × PreparedEnvelope canon)}
    {execution : ScenarioExecution} {summary : StreamSummary}
    {envelopes : List EventEnvelope}
    (hexecute : trace.execute allocator mode scheduleId streamPrefixLen sourcePrefixLen deliveries =
      .ok execution) (hblueprint : trace.streams[stream]? = some blueprint)
    (hsummary : execution.streams[stream]? = some summary)
    (hstands : List.Forall₂ (StandsFor stream blueprint.registration.streamId) envelopes
      deliveries) :
    summary.Shows canon blueprint.registration.scope
      (.ofEnvelopes canon blueprint.limits blueprint.registration envelopes) := by
  obtain ⟨blueprint', history, s, hblueprint', hr, hhistory, hfinish⟩ :=
    execute_ok hexecute hsummary
  obtain rfl := Option.some.inj (hblueprint.symm.trans hblueprint')
  have hplain : (history.map fun x => x.1.plain) =
      deliveriesOf blueprint.registration.streamId envelopes := by
    rw [← plain_routedTo hstands, ← hhistory, List.map_map]
    rfl
  rw [PlainFold.ofEnvelopes, ← hplain, ← plain_run hr]
  exact shows_of_finish hr hfinish

/-- Both sides of a comparison are summarized as the machine. -/
theorem sides_show {inputs : List (ValidatedRecord × Option BaselineAuthority)}
    (hnew : TraceAssembler.new session limits = .ok a)
    (hfinish : (a.pushAll inputs).finish sealing = .ok trace)
    (hrecords : TraceAssembler.recordsOf inputs = before ++ .faultSchedule schedule :: after)
    (hcompare : trace.compareSchedule allocator (schedulesOf before).length = .ok comparison)
    (hblueprint : trace.streams[stream]? = some blueprint) {pristine faulted : StreamSummary}
    (hpristine : comparison.pristine.streams[stream]? = some pristine)
    (hfaulted : comparison.faulted.streams[stream]? = some faulted) :
    pristine.Shows canon blueprint.registration.scope
        (.ofEnvelopes canon limits blueprint.registration (envelopesOf before)) ∧
      faulted.Shows canon blueprint.registration.scope
        (.ofEnvelopes canon limits blueprint.registration (liveEnvelopes before schedule)) ∧
      comparison.streams[stream]? = some (compareStreams pristine faulted) := by
  have hsealed := finish_sealed hnew hfinish
  obtain ⟨plan, hplanOf⟩ : ∃ plan, planOf before (.faultSchedule schedule) = some plan := ⟨_, rfl⟩
  have hplan := (hsealed.plan_at hrecords).trans hplanOf
  obtain ⟨materialized, hmaterialized, hleft, hright, hverdicts⟩ :=
    compareSchedule_sides hplan hcompare
  obtain rfl : blueprint.limits = limits :=
    (hsealed.blueprints blueprint (List.mem_of_getElem? hblueprint)).2
  have hshows := shows_of_execute hleft hblueprint hpristine
    (hsealed.standsFor_originals hrecords hblueprint hplanOf)
  have hshows' := shows_of_execute hright hblueprint hfaulted
    (hsealed.standsFor_routes hrecords hblueprint hmaterialized)
  refine ⟨hshows, hshows', ?_⟩
  rw [hverdicts, List.getElem?_zipWith, hpristine, hfaulted]

/-- What a comparison folds is read off the records, without any evidence.  Each
side of a stream is summarized as the machine over the envelopes of the stream,
recorded or live, and an eligible verdict says whether the machine ends with the
same keys on both sides. -/
theorem sides_are_plain {inputs : List (ValidatedRecord × Option BaselineAuthority)}
    (hnew : TraceAssembler.new session limits = .ok a)
    (hfinish : (a.pushAll inputs).finish sealing = .ok trace)
    (hrecords : TraceAssembler.recordsOf inputs = before ++ .faultSchedule schedule :: after)
    (hcompare : trace.compareSchedule allocator (schedulesOf before).length = .ok comparison)
    (hblueprint : trace.streams[stream]? = some blueprint) {pristine faulted : StreamSummary}
    (hpristine : comparison.pristine.streams[stream]? = some pristine)
    (hfaulted : comparison.faulted.streams[stream]? = some faulted) :
    pristine.Shows canon blueprint.registration.scope
        (.ofEnvelopes canon limits blueprint.registration (envelopesOf before)) ∧
      faulted.Shows canon blueprint.registration.scope
        (.ofEnvelopes canon limits blueprint.registration (liveEnvelopes before schedule)) ∧
      ∃ result, comparison.streams[stream]? = some result ∧
        (result.verdict ≠ .ineligible → (result.verdict = .converged ↔
          (PlainFold.ofEnvelopes canon limits blueprint.registration (envelopesOf before)).keys =
            (PlainFold.ofEnvelopes canon limits blueprint.registration
              (liveEnvelopes before schedule)).keys)) := by
  obtain ⟨hshows, hshows', hresult⟩ :=
    sides_show hnew hfinish hrecords hcompare hblueprint hpristine hfaulted
  refine ⟨hshows, hshows', _, hresult, ?_⟩
  intro hverdict
  -- the views are those of the machine, and have one scope
  rw [compareStreams_eligible hverdict, hshows.view, hshows'.view]
  by_cases hkeys : (PlainFold.ofEnvelopes canon limits blueprint.registration
      (envelopesOf before)).keys = (PlainFold.ofEnvelopes canon limits
        blueprint.registration (liveEnvelopes before schedule)).keys
  · rw [hkeys, if_pos rfl]
    exact iff_of_true rfl rfl
  · rw [if_neg fun hview => hkeys (congrArg CacheView.keys hview)]
    exact iff_of_false (fun h => by cases h) hkeys

/-- The shuffled sample, read off its records. -/
theorem sample_sides_are_plain : ∃ trace comparison blueprint pristine faulted,
    Sample.shuffledComparison = .ok (trace, comparison) ∧
      trace.streams[0]? = some blueprint ∧ comparison.pristine.streams[0]? = some pristine ∧
      comparison.faulted.streams[0]? = some faulted ∧
      pristine.Shows Sample.canonical blueprint.registration.scope
        (.ofEnvelopes Sample.canonical Sample.forgetful blueprint.registration
          (envelopesOf Sample.shuffledBefore)) ∧
      faulted.Shows Sample.canonical blueprint.registration.scope
        (.ofEnvelopes Sample.canonical Sample.forgetful blueprint.registration
          (liveEnvelopes Sample.shuffledBefore Sample.shuffle)) := by
  have hseen : Sample.shuffledComparison.toOption.any (fun result =>
      result.1.streams[0]?.isSome && result.2.pristine.streams[0]?.isSome &&
        result.2.faulted.streams[0]?.isSome) = true := by
    decide +kernel
  cases hcomparison : Sample.shuffledComparison with
  | error failure =>
      rw [hcomparison] at hseen
      cases hseen
  | ok result =>
      obtain ⟨trace, comparison⟩ := result
      rw [hcomparison] at hseen
      obtain ⟨_, hresult, hseen⟩ := (Option.any_eq_true _ _).mp hseen
      obtain rfl := Option.some.inj hresult
      simp only [Bool.and_eq_true, Option.isSome_iff_exists] at hseen
      obtain ⟨⟨⟨blueprint, hblueprint⟩, ⟨pristine, hpristine⟩⟩, ⟨faulted, hfaulted⟩⟩ := hseen
      obtain ⟨a, hnew, hrest⟩ := bind_eq_ok.mp hcomparison
      obtain ⟨trace', hfinish, hrest⟩ := bind_eq_ok.mp hrest
      obtain ⟨comparison', hcompare, hrest⟩ := bind_eq_ok.mp hrest
      obtain ⟨rfl, rfl⟩ := Prod.mk.inj (pure_eq_ok.mp hrest)
      obtain ⟨hshows, hshows', -⟩ := @sides_are_plain _ _ _ _ Sample.shuffledBefore []
        Sample.shuffle 0 _ _ _ _ _ _ hnew hfinish rfl hcompare hblueprint _ _ hpristine hfaulted
      exact ⟨trace', comparison', blueprint, pristine, faulted, rfl, hblueprint, hpristine,
        hfaulted, hshows, hshows'⟩

/-- Registrations depend on neither the session nor its limits. -/
theorem registrations_eq {inputs : List (ValidatedRecord × Option BaselineAuthority)}
    (hnew : TraceAssembler.new session limits = .ok a)
    (hnew' : TraceAssembler.new session' limits' = .ok a')
    (hfinish : (a.pushAll inputs).finish sealing = .ok trace)
    (hfinish' : (a'.pushAll inputs).finish sealing' = .ok trace') :
    trace.streams.map StreamBlueprint.registration =
      trace'.streams.map StreamBlueprint.registration := by
  rw [(gathered_of_finish hnew hfinish).1, (gathered_of_finish hnew' hfinish').1,
    List.map_filterMap, List.map_filterMap]
  congr 1
  funext entry
  apply registration_blueprintOf

/-- Limits on evidence fold nothing.  When the same inputs are sealed in two
sessions, under limits that agree on what is kept behind a gap, the sides of a
schedule fold the same in both, whatever the other limits are.  So two eligible
verdicts are the same. -/
theorem evidence_limits_fold_nothing {inputs : List (ValidatedRecord × Option BaselineAuthority)}
    (hnew : TraceAssembler.new session limits = .ok a)
    (hnew' : TraceAssembler.new session' limits' = .ok a')
    (hfinish : (a.pushAll inputs).finish sealing = .ok trace)
    (hfinish' : (a'.pushAll inputs).finish sealing' = .ok trace')
    (hgaps : limits.gaps = limits'.gaps)
    (hrecords : TraceAssembler.recordsOf inputs = before ++ .faultSchedule schedule :: after)
    (hcompare : trace.compareSchedule allocator (schedulesOf before).length = .ok comparison)
    (hcompare' : trace'.compareSchedule allocator' (schedulesOf before).length = .ok comparison')
    {pristine pristine' faulted faulted' : StreamSummary}
    (hpristine : comparison.pristine.streams[stream]? = some pristine)
    (hfaulted : comparison.faulted.streams[stream]? = some faulted)
    (hpristine' : comparison'.pristine.streams[stream]? = some pristine')
    (hfaulted' : comparison'.faulted.streams[stream]? = some faulted') :
    SameFold pristine pristine' ∧ SameFold faulted faulted' ∧
      ∃ result result', comparison.streams[stream]? = some result ∧
        comparison'.streams[stream]? = some result' ∧
        (result.verdict ≠ .ineligible → result'.verdict ≠ .ineligible →
          result.verdict = result'.verdict) := by
  obtain ⟨plan, hplanOf⟩ : ∃ plan, planOf before (.faultSchedule schedule) = some plan := ⟨_, rfl⟩
  obtain ⟨_, -, hleft, -⟩ :=
    compareSchedule_sides (((finish_sealed hnew hfinish).plan_at hrecords).trans hplanOf) hcompare
  obtain ⟨_, -, hleft', -⟩ :=
    compareSchedule_sides (((finish_sealed hnew' hfinish').plan_at hrecords).trans hplanOf)
      hcompare'
  obtain ⟨blueprint, _, _, hblueprint, -⟩ := execute_ok hleft hpristine
  obtain ⟨blueprint', _, _, hblueprint', -⟩ := execute_ok hleft' hpristine'
  -- the two blueprints of the stream have one registration
  have hregistration : blueprint'.registration = blueprint.registration := by
    have hat := congrArg (fun registrations => registrations[stream]?)
      (registrations_eq hnew hnew' hfinish hfinish')
    rw [List.getElem?_map, List.getElem?_map, hblueprint, hblueprint'] at hat
    exact (Option.some.inj hat).symm
  obtain ⟨hshows, hshows₂, hresult⟩ :=
    sides_show hnew hfinish hrecords hcompare hblueprint hpristine hfaulted
  obtain ⟨hshows', hshows₂', hresult'⟩ :=
    sides_show hnew' hfinish' hrecords hcompare' hblueprint' hpristine' hfaulted'
  have hmachine : ∀ envelopes,
      PlainFold.ofEnvelopes canon limits' blueprint'.registration envelopes =
        .ofEnvelopes canon limits blueprint.registration envelopes := by
    intro envelopes
    rw [PlainFold.ofEnvelopes, PlainFold.ofEnvelopes, hregistration, hgaps]
  rw [hmachine, hregistration] at hshows' hshows₂'
  exact ⟨hshows.same hshows', hshows₂.same hshows₂', _, _, hresult, hresult',
    (hshows.same hshows').verdict (hshows₂.same hshows₂')⟩

end SealedTrace

namespace Sample

/-- The sample comparison under some limits. -/
def comparedUnder (session : SessionId) (limits : Limits) :
    Except ScenarioFailure (SealedTrace canonical × ScheduleComparison) := do
  let a ← TraceAssembler.new session limits
  let trace ← (a.pushAll inputs).finish granting
  let comparison ← trace.compareSchedule granting 0
  return (trace, comparison)

/-- Whether the two sides of the first stream are eligible. -/
def eligibleSides (comparison : ScheduleComparison) : Option (Bool × Bool) :=
  comparison.pristine.streams[0]?.bind fun pristine =>
    comparison.faulted.streams[0]?.map fun faulted =>
      (eligibleSummary pristine, eligibleSummary faulted)

end Sample

namespace SealedTrace

/-- Without a window the sample is eligible on both sides.  With one the pristine
side is not, since it knows of the contradiction, but it folds the same. -/
theorem sample_evidence_limits : ∃ forgetful forgetting remembering remembered pristine pristine',
    Sample.comparedUnder 0 Sample.forgetful = .ok (forgetful, forgetting) ∧
      Sample.comparedUnder 1 Limits.default = .ok (remembering, remembered) ∧
      Sample.eligibleSides forgetting = some (true, true) ∧
      Sample.eligibleSides remembered = some (false, true) ∧
      forgetting.pristine.streams[0]? = some pristine ∧
      remembered.pristine.streams[0]? = some pristine' ∧ SameFold pristine pristine' := by
  have hseen : (Sample.comparedUnder 0 Sample.forgetful).toOption.any (fun result =>
      Sample.eligibleSides result.2 = some (true, true)) = true := by
    decide +kernel
  have hseen' : (Sample.comparedUnder 1 Limits.default).toOption.any (fun result =>
      Sample.eligibleSides result.2 = some (false, true)) = true := by
    decide +kernel
  cases hcomparison : Sample.comparedUnder 0 Sample.forgetful with
  | error failure =>
      rw [hcomparison] at hseen
      cases hseen
  | ok result =>
      cases hcomparison' : Sample.comparedUnder 1 Limits.default with
      | error failure =>
          rw [hcomparison'] at hseen'
          cases hseen'
      | ok result' =>
          rw [hcomparison] at hseen
          rw [hcomparison'] at hseen'
          have hsides := of_decide_eq_true hseen
          have hsides' := of_decide_eq_true hseen'
          obtain ⟨pristine, hpristine, hrest⟩ := Option.bind_eq_some_iff.mp hsides
          obtain ⟨faulted, hfaulted, -⟩ := Option.map_eq_some_iff.mp hrest
          obtain ⟨pristine', hpristine', hrest⟩ := Option.bind_eq_some_iff.mp hsides'
          obtain ⟨faulted', hfaulted', -⟩ := Option.map_eq_some_iff.mp hrest
          obtain ⟨a, hnew, hrest⟩ := bind_eq_ok.mp hcomparison
          obtain ⟨trace, hfinish, hrest⟩ := bind_eq_ok.mp hrest
          obtain ⟨comparison, hcompare, hrest⟩ := bind_eq_ok.mp hrest
          obtain rfl := pure_eq_ok.mp hrest
          obtain ⟨a', hnew', hrest⟩ := bind_eq_ok.mp hcomparison'
          obtain ⟨trace', hfinish', hrest⟩ := bind_eq_ok.mp hrest
          obtain ⟨comparison', hcompare', hrest⟩ := bind_eq_ok.mp hrest
          obtain rfl := pure_eq_ok.mp hrest
          obtain ⟨hsame, -⟩ := @evidence_limits_fold_nothing _ trace trace' _ _ _ _
            (TraceAssembler.recordsOf (Sample.inputs.take 4)) [] Sample.schedule 0 _ _ _ _ _ _
            comparison comparison' Sample.inputs hnew hnew' hfinish hfinish' rfl rfl hcompare
            hcompare' _ _ _ _ hpristine hfaulted hpristine' hfaulted'
          exact ⟨trace, comparison, trace', comparison', pristine, pristine', rfl, rfl, hsides,
            hsides', hpristine, hpristine', hsame⟩

end SealedTrace

end KvCrucible
