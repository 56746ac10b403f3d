/-
KvCrucible/Certificate.lean

What an eligible verdict certifies.

A stream that ends exact has lost nothing: its frontier is the last cursor that
was delivered to it (`lastOf_exact`).  The pristine side delivers every recorded
envelope and the faulted side every live one, so a verdict that both sides are
eligible for puts the last recorded cursor at the frontier of both.  The view
there is the engine-order fold of the records.
-/
import KvCrucible.Lossless

namespace KvCrucible

open Basis Std StreamState

variable {canon : Canonical}

/-! ### The last cursor -/

/-- The last of some cursors, if there are any. -/
def LastOf (cursors : Set Nat) : Option Nat → Prop
  | none => cursors = ∅
  | some last => IsGreatest cursors last

/-- The cursors of a history. -/
def cursorsOf (history : History canon) : Set Nat :=
  {cursor | ∃ x ∈ history, x.1.cursor = cursor}

namespace StreamState

variable {blueprint : StreamBlueprint} {history : History canon} {s : StreamState canon}

/-- A longer history has more cursors. -/
theorem cursorsOf_snoc {x : PreparedEnvelope canon × Disposition} :
    cursorsOf history ⊆ cursorsOf (history ++ [x]) := by
  rintro cursor ⟨y, hy, rfl⟩
  exact ⟨y, List.mem_append_left _ hy, rfl⟩

/-- Nothing is delivered before the initial cursor. -/
theorem initialCursor_le_of_run (hr : RunFrom (fromBlueprint blueprint) history s) :
    ∀ cursor ∈ cursorsOf history, s.initialCursor ≤ cursor := by
  induction hr with
  | nil =>
      rintro cursor ⟨x, hx, -⟩
      cases hx
  | @snoc h₀ s₀ e d s' hr h ih =>
      rw [(Step.same (Admits.step h)).initialCursor]
      rintro cursor ⟨x, hx, rfl⟩
      rcases List.mem_append.mp hx with hx | hx
      · exact ih _ ⟨x, hx, rfl⟩
      · rw [List.mem_singleton.mp hx]
        exact (Admits.accepts h).initialCursor

/-- The frontier was delivered. -/
theorem frontier_delivered (hr : RunFrom (fromBlueprint blueprint) history s) :
    ∀ f, s.frontier = some f → f ∈ cursorsOf history := by
  induction hr with
  | nil =>
      intro f hf
      cases hf
  | @snoc h₀ s₀ e d s' hr h ih =>
      intro f hf
      rcases (Admits.step h).quiet_or_folds with
        ⟨-, -, hquiet⟩ | ⟨barrier, sources, cache, -, hreaches, happ⟩
      · rw [hquiet.frontier] at hf
        exact cursorsOf_snoc (ih f hf)
      · rw [happ.frontier] at hf
        obtain rfl := Option.some.inj hf
        -- the last drained candidate was delivered before, or nothing was drained
        rcases Nat.eq_zero_or_pos sources.length with hnone | hpos
        · rw [hnone, Nat.add_zero]
          exact ⟨(e, d), List.mem_append_right _ (List.mem_singleton_self _), rfl⟩
        · obtain ⟨hs, hd⟩ := delivered_run hr
          have hlt : sources.length - 1 < sources.length := by omega
          obtain ⟨-, hfirst, -⟩ := hd.drained_first hs happ hlt
          obtain ⟨hcursor, d', hmem⟩ := firstAt_mem hfirst
          apply cursorsOf_snoc
          refine ⟨_, hmem, hcursor.trans ?_⟩
          omega

/-- An exact state lost nothing that was delivered to it. -/
theorem lastOf_exact (hr : RunFrom (fromBlueprint blueprint) history s)
    (hexact : s.certainty = .exact) : LastOf (cursorsOf history) s.frontier := by
  obtain ⟨hs, hd⟩ := delivered_run hr
  rw [hs.certainty] at hexact
  obtain ⟨-, -, hfloor, -, hpending⟩ := hs.toCore.of_exact hexact
  -- nothing is pending or unavailable, so every delivery is behind the frontier
  have hpast : ∀ cursor ∈ cursorsOf history, cursor < s.next := by
    rintro cursor ⟨x, hx, rfl⟩
    rcases hd.placed x hx with hlt | hslot | ⟨lo, hi, hlo, -⟩
    · exact hlt
    · rw [hpending] at hslot
      exact absurd ExtTreeMap.getElem?_empty hslot
    · rw [hfloor] at hlo
      cases hlo
  cases hf : s.frontier with
  | none =>
      apply Set.eq_empty_of_forall_notMem
      rintro cursor hcursor
      have hlt := hpast cursor hcursor
      rw [next_of_none hf] at hlt
      have hle := initialCursor_le_of_run hr cursor hcursor
      omega
  | some f =>
      refine ⟨frontier_delivered hr f hf, ?_⟩
      intro cursor hcursor
      have hlt := hpast cursor hcursor
      rw [next_of_some hf] at hlt
      omega

/-- An eligible summary finalizes an exact state. -/
theorem exact_of_eligible {status : SessionStatus}
    {sealedSession : SealedSession} {summary : StreamSummary}
    (h : s.finish status sealedSession = .ok summary) (heligible : eligibleSummary summary = true) :
    summary.certainty = .exact ∧ s.certainty = .exact := by
  have hexact : summary.certainty = .exact := by
    simp only [eligibleSummary, Bool.and_eq_true, decide_eq_true_eq] at heligible
    exact heligible.1.1.1.1
  refine ⟨hexact, ?_⟩
  obtain ⟨_, -, h⟩ := bind_eq_ok.mp h
  obtain ⟨_, -, h⟩ := bind_eq_ok.mp h
  obtain ⟨_, -, h⟩ := bind_eq_ok.mp h
  cases hclosed : s.pending.isEmpty with
  | true =>
      rw [hclosed] at h
      obtain rfl := pure_eq_ok.mp h
      exact hexact
  | false =>
      -- an open gap is unknown at the end
      rw [hclosed] at h
      obtain rfl := pure_eq_ok.mp h
      cases hexact

end StreamState

/-! ### What was recorded and what is live -/

/-- The recorded cursors of a stream. -/
def recordedCursors (before : List Record) (streamId : String) : Set Nat :=
  {cursor | ∃ envelope ∈ envelopesOf before,
    envelope.streamId = streamId ∧ envelope.cursor.get.toNat = cursor}

/-- The cursors of a stream that a schedule leaves live. -/
def liveCursors (before : List Record) (schedule : FaultSchedule) (streamId : String) : Set Nat :=
  {cursor | ∃ key ∈ ((Replay.start (envelopeIdsOf before).length).run (envelopeIdsOf before)
    schedule.actions).live, ∃ envelope, (envelopesOf before)[key.source]? = some envelope ∧
      envelope.streamId = streamId ∧ envelope.cursor.get.toNat = cursor}

/-- An assignment of mutations to cursors that says what was recorded. -/
def Recorded (before : List Record) (streamId : String) (P : Nat → List Mutation) : Prop :=
  ∀ envelope ∈ envelopesOf before, envelope.streamId = streamId →
    P envelope.cursor.get.toNat = envelope.mutations

/-- A verdict on the views needs two eligible sides at one frontier. -/
theorem compareStreams_verdict {pristine faulted : StreamSummary} :
    (compareStreams pristine faulted).verdict =
      if eligibleSummary pristine = true ∧ eligibleSummary faulted = true ∧
          pristine.frontier = faulted.frontier then
        if pristine.view = faulted.view then .converged else .diverged
      else .ineligible := by
  show (if (!(ineligibilityOf pristine faulted).isEmpty) = true then _ else _) = _
  cases hempty : (ineligibilityOf pristine faulted).isEmpty with
  | true =>
      rw [if_pos (ineligibilityOf_isEmpty.mp hempty)]
      rfl
  | false =>
      have hne : ¬ (ineligibilityOf pristine faulted).isEmpty = true := by simp [hempty]
      rw [ineligibilityOf_isEmpty] at hne
      rw [if_neg hne]
      rfl

namespace SealedTrace

variable {trace : SealedTrace canon} {allocator : Allocator} {limits : Limits}
  {records before after : List Record} {schedule : FaultSchedule} {stream : Nat}
  {source : PreparedEnvelope canon} {blueprint : StreamBlueprint}

/-- An envelope of the stream before the schedule stands in the prefix. -/
theorem SealedFrom.stands_at (h : SealedFrom limits records trace)
    (hrecords : records = before ++ after) (hblueprint : trace.streams[stream]? = some blueprint)
    {i : Nat} {envelope : EventEnvelope} (henvelope : (envelopesOf before)[i]? = some envelope)
    (hstream : envelope.streamId = blueprint.registration.streamId) :
    i < (envelopeIdsOf before).length ∧
      ∃ source, trace.StandsAt stream i source ∧ Prepared envelope source := by
  obtain ⟨hlt, -⟩ := List.getElem?_eq_some_iff.mp henvelope
  have hall : (envelopesOf records)[i]? = some envelope := by
    rw [hrecords, envelopesOf_append, List.getElem?_append_left hlt, henvelope]
  refine ⟨by rwa [envelopeIdsOf, List.length_map], ?_⟩
  obtain ⟨source, hsource, hprepared⟩ := getElem?_of_forall₂ h.sources.flip hall
  obtain ⟨ordinal, hordinal, hroute⟩ := getElem?_of_forall₂ h.sourceStreams.flip hsource
  have hprepared : Prepared envelope source := hprepared
  have hroute : (streamIdsOf records)[ordinal]? = some source.streamId := hroute
  refine ⟨source, ⟨?_, hsource⟩, hprepared⟩
  -- the source is routed to the position of its stream, which is `stream`
  have hid : (streamIdsOf records)[stream]? = some source.streamId := by
    rw [streamIdsOf, ← map_streamId h.streams, List.getElem?_map, hblueprint, hprepared.streamId,
      hstream]
    rfl
  obtain ⟨hbound, -⟩ := List.getElem?_eq_some_iff.mp hroute
  rw [hordinal, (List.getElem?_inj hbound h.wellFormed.streamIds).mp (hroute.trans hid.symm)]

/-- What stands for a stream has the cursor and mutations of its envelope. -/
theorem SealedFrom.stands_iff (h : SealedFrom limits records trace)
    (hrecords : records = before ++ after) (hblueprint : trace.streams[stream]? = some blueprint)
    {i cursor : Nat} (hi : i < (envelopeIdsOf before).length) :
    (∃ source, trace.StandsAt stream i source ∧ source.cursor = cursor) ↔
      ∃ envelope, (envelopesOf before)[i]? = some envelope ∧
        envelope.streamId = blueprint.registration.streamId ∧
        envelope.cursor.get.toNat = cursor := by
  constructor
  · rintro ⟨source, hstands, rfl⟩
    obtain ⟨envelope, henvelope, hprepared, hstream⟩ :=
      h.prepared_at hrecords hi hstands hblueprint
    exact ⟨envelope, henvelope, hstream, hprepared.cursor.symm⟩
  · rintro ⟨envelope, henvelope, hstream, rfl⟩
    obtain ⟨-, source, hstands, hprepared⟩ :=
      h.stands_at hrecords hblueprint henvelope hstream
    exact ⟨source, hstands, hprepared.cursor⟩

/-- The cursors of a run are those of what was routed to it. -/
theorem cursorsOf_routed {history : History canon}
    {deliveries : List (Nat × PreparedEnvelope canon)}
    (h : history.map Prod.fst = routedTo stream deliveries) :
    cursorsOf history = {cursor | ∃ source, (stream, source) ∈ deliveries ∧
      source.cursor = cursor} := by
  ext cursor
  constructor
  · rintro ⟨x, hx, rfl⟩
    refine ⟨x.1, ?_, rfl⟩
    rw [← mem_routedTo, ← h]
    exact List.mem_map_of_mem hx
  · rintro ⟨source, hsource, rfl⟩
    rw [← mem_routedTo, ← h, List.mem_map] at hsource
    obtain ⟨x, hx, rfl⟩ := hsource
    exact ⟨x, hx, rfl⟩

/-- The pristine side of a stream has the recorded cursors. -/
theorem SealedFrom.cursorsOf_pristine (h : SealedFrom limits records trace)
    (hrecords : records = before ++ .faultSchedule schedule :: after)
    (hblueprint : trace.streams[stream]? = some blueprint) {plan : SchedulePlan}
    (hplan : planOf before (.faultSchedule schedule) = some plan) {history : History canon}
    (hhistory : history.map Prod.fst = routedTo stream (trace.originals plan)) :
    cursorsOf history = recordedCursors before blueprint.registration.streamId := by
  obtain rfl := Option.some.inj hplan
  rw [cursorsOf_routed hhistory]
  ext cursor
  constructor
  · rintro ⟨source, hsource, hcursor⟩
    obtain ⟨i, hi, hstands⟩ := mem_originals.mp hsource
    obtain ⟨envelope, henvelope, hstream, hrecorded⟩ :=
      (h.stands_iff hrecords hblueprint hi).mp ⟨source, hstands, hcursor⟩
    exact ⟨envelope, List.mem_of_getElem? henvelope, hstream, hrecorded⟩
  · rintro ⟨envelope, hmem, hstream, hrecorded⟩
    obtain ⟨i, henvelope⟩ := List.getElem?_of_mem hmem
    obtain ⟨hi, -⟩ := h.stands_at hrecords hblueprint henvelope hstream
    obtain ⟨source, hstands, hcursor⟩ :=
      (h.stands_iff hrecords hblueprint hi).mpr ⟨envelope, henvelope, hstream, hrecorded⟩
    exact ⟨source, mem_originals.mpr ⟨i, hi, hstands⟩, hcursor⟩

/-- The faulted side of a stream has the live cursors. -/
theorem SealedFrom.cursorsOf_faulted (h : SealedFrom limits records trace)
    (hrecords : records = before ++ .faultSchedule schedule :: after)
    (hblueprint : trace.streams[stream]? = some blueprint)
    {materialized : MaterializedSchedule canon}
    (hmaterialized :
      trace.materialize allocator (schedulesOf before).length = .ok materialized)
    {history : History canon}
    (hhistory : history.map Prod.fst = routedTo stream materialized.routes) :
    cursorsOf history = liveCursors before schedule blueprint.registration.streamId := by
  rw [cursorsOf_routed hhistory]
  -- a live key is an occurrence of an envelope before the schedule
  obtain ⟨-, hall, -⟩ := h.wellFormed.inPlace before _ after hrecords
  obtain ⟨hnumbered, -⟩ := (Replay.numbered_start _).run hall
  ext cursor
  constructor
  · rintro ⟨source, hsource, hcursor⟩
    obtain ⟨key, hkey, hstands⟩ := (mem_routes (h.delivers hrecords hmaterialized)).mp hsource
    exact ⟨key, hkey, (h.stands_iff hrecords hblueprint (hnumbered.known key hkey)).mp
      ⟨source, hstands, hcursor⟩⟩
  · rintro ⟨key, hkey, hrecorded⟩
    obtain ⟨source, hstands, hcursor⟩ :=
      (h.stands_iff hrecords hblueprint (hnumbered.known key hkey)).mpr hrecorded
    exact ⟨source, (mem_routes (h.delivers hrecords hmaterialized)).mpr ⟨key, hkey, hstands⟩,
      hcursor⟩

/-- A run over prepared envelopes of a stream folds what was recorded. -/
theorem SealedFrom.agrees (h : SealedFrom limits records trace)
    (hrecords : records = before ++ after) (hblueprint : trace.streams[stream]? = some blueprint)
    {P : Nat → List Mutation} (hP : Recorded before blueprint.registration.streamId P)
    {history : History canon} {deliveries : List (Nat × PreparedEnvelope canon)}
    (hhistory : history.map Prod.fst = routedTo stream deliveries)
    (hstands : ∀ source, (stream, source) ∈ deliveries →
      ∃ i < (envelopeIdsOf before).length, trace.StandsAt stream i source) :
    Agrees P history := by
  intro cursor source hfirst
  obtain ⟨rfl, d, hmem⟩ := firstAt_mem hfirst
  have hrouted : (stream, source) ∈ deliveries := by
    rw [← mem_routedTo, ← hhistory]
    exact List.mem_map_of_mem hmem
  obtain ⟨i, hi, hstands⟩ := hstands source hrouted
  obtain ⟨envelope, henvelope, hprepared, hstream⟩ := h.prepared_at hrecords hi hstands hblueprint
  rw [hprepared.cursor, hprepared.mutations]
  exact hP envelope (List.mem_of_getElem? henvelope) hstream

/-- A verdict other than ineligible certifies both sides.  They end exact at the
last cursor of the stream before the schedule, and the schedule left it live.
If the envelopes of the stream do not contradict each other the verdict is that
they converge, and the faulted view is the engine-order fold of what they say:
from nothing under a trusted baseline, from anything under an unknown one. -/
theorem eligible_verdict_certifies {session : SessionId} {a : TraceAssembler canon}
    {sealing : Allocator} {inputs : List (ValidatedRecord × Option BaselineAuthority)}
    (hnew : TraceAssembler.new session limits = .ok a)
    (hfinish : (a.pushAll inputs).finish sealing = .ok trace)
    (hrecords : TraceAssembler.recordsOf inputs = before ++ .faultSchedule schedule :: after)
    (hblueprint : trace.streams[stream]? = some blueprint) {comparison : ScheduleComparison}
    (hcompare : trace.compareSchedule allocator (schedulesOf before).length = .ok comparison)
    {result : StreamComparison} (hresult : comparison.streams[stream]? = some result)
    (hverdict : result.verdict ≠ .ineligible) :
    ∃ pristine faulted, comparison.pristine.streams[stream]? = some pristine ∧
      comparison.faulted.streams[stream]? = some faulted ∧
      pristine.certainty = .exact ∧ faulted.certainty = .exact ∧
      pristine.frontier = faulted.frontier ∧
      LastOf (recordedCursors before blueprint.registration.streamId) faulted.frontier ∧
      LastOf (liveCursors before schedule blueprint.registration.streamId) faulted.frontier ∧
      ∀ P, Recorded before blueprint.registration.streamId P →
        result.verdict = .converged ∧
        ∀ keys, (blueprint.registration.authority = .trustDeclaredEmpty → keys = ∅) →
          faulted.view.keys =
            foldThrough P blueprint.registration.initialCursor faulted.frontier keys := by
  have hsealed := finish_ok hnew hfinish
  obtain ⟨plan, hplanOf⟩ : ∃ plan, planOf before (.faultSchedule schedule) = some plan := ⟨_, rfl⟩
  have hplan := (hsealed.plan_at hrecords).trans hplanOf
  obtain ⟨materialized, hmaterialized, hleft, hright, hverdicts⟩ :=
    compareSchedule_sides hplan hcompare
  rw [hverdicts, List.getElem?_zipWith_eq_some] at hresult
  obtain ⟨pristine, faulted, hpristine, hfaulted, rfl⟩ := hresult
  rw [compareStreams_verdict] at hverdict
  obtain ⟨⟨heligible, heligible', hfrontier⟩, -⟩ := ite_ne_right_iff.mp hverdict
  obtain ⟨blueprint₁, h₁, s₁, hblueprint₁, hr₁, hhistory₁, hfinish₁⟩ := execute_ok hleft hpristine
  obtain ⟨blueprint₂, h₂, s₂, hblueprint₂, hr₂, hhistory₂, hfinish₂⟩ := execute_ok hright hfaulted
  obtain rfl := Option.some.inj (hblueprint.symm.trans hblueprint₁)
  obtain rfl := Option.some.inj (hblueprint.symm.trans hblueprint₂)
  -- both runs end exact, so that their frontiers are the last cursors
  obtain ⟨hexact₁, hs₁⟩ := exact_of_eligible hfinish₁ heligible
  obtain ⟨hexact₂, hs₂⟩ := exact_of_eligible hfinish₂ heligible'
  obtain ⟨hknown₁, hf₁, hview₁⟩ := finish_eligible (invariant_run hr₁) hfinish₁ heligible
  obtain ⟨hknown₂, hf₂, hview₂⟩ := finish_eligible (invariant_run hr₂) hfinish₂ heligible'
  have hlast₁ := lastOf_exact hr₁ hs₁
  have hlast₂ := lastOf_exact hr₂ hs₂
  rw [hsealed.cursorsOf_pristine hrecords hblueprint hplanOf hhistory₁, ← hf₁, hfrontier] at hlast₁
  rw [hsealed.cursorsOf_faulted hrecords hblueprint hmaterialized hhistory₂, ← hf₂] at hlast₂
  refine ⟨pristine, faulted, hpristine, hfaulted, hexact₁, hexact₂, hfrontier, hlast₁, hlast₂,
    fun P hP => ?_⟩
  obtain rfl := Option.some.inj hplanOf
  have hP₁ := hsealed.agrees hrecords hblueprint hP hhistory₁ fun source hsource =>
    mem_originals.mp hsource
  have hP₂ := hsealed.agrees hrecords hblueprint hP hhistory₂ fun source hsource => by
    obtain ⟨key, hkey, hstands⟩ := (mem_routes (hsealed.delivers hrecords hmaterialized)).mp hsource
    obtain ⟨-, hall, -⟩ := hsealed.wellFormed.inPlace before _ after hrecords
    obtain ⟨hnumbered, -⟩ := (Replay.numbered_start _).run hall
    exact ⟨key.source, hnumbered.known key hkey, hstands⟩
  constructor
  · have hview : pristine.view = faulted.view := by
      rw [hview₁, hview₂]
      exact view_congr hr₁ hr₂ hP₁ hP₂ hknown₁ hknown₂ (hf₁.symm.trans (hfrontier.trans hf₂))
    rw [compareStreams_verdict, if_pos ⟨heligible, heligible', hfrontier⟩, if_pos hview]
  · intro keys hkeys
    have hinit := (same_run hr₂).initialCursor
    have hfolded := (folded_run hr₂ hP₂).view hknown₂ keys fun htrust =>
      hkeys (by simpa using htrust)
    rw [engineFold_next] at hfolded
    rw [hview₂, hf₂, hfolded]
    exact congrArg (foldThrough P · s₂.frontier keys) hinit

end SealedTrace

namespace Sample

/-- What the envelopes of the shuffled sample say. -/
theorem recorded_shuffled (streamId : String) : Recorded shuffledBefore streamId
    fun cursor => if cursor = 0 then [store 1] else [store 2] := by
  have henvelopes : envelopesOf shuffledBefore = [envelope "first" 0 [store 1], next] := rfl
  intro x hx _
  rw [henvelopes] at hx
  rcases List.mem_pair.mp hx with rfl | rfl
  · rfl
  · rfl

end Sample

namespace SealedTrace

/-- The certificate of the shuffled sample: two stores, folded in engine
order. -/
theorem sample_verdict_certifies : ∃ trace comparison blueprint faulted,
    Sample.shuffledComparison = .ok (trace, comparison) ∧
      trace.streams[0]? = some blueprint ∧ comparison.faulted.streams[0]? = some faulted ∧
      LastOf (recordedCursors Sample.shuffledBefore blueprint.registration.streamId)
        faulted.frontier ∧
      faulted.view.keys = foldThrough
        (fun cursor => if cursor = 0 then [Sample.store 1] else [Sample.store 2])
        blueprint.registration.initialCursor faulted.frontier ∅ := by
  have hseen : Sample.shuffledComparison.toOption.any (fun result =>
      result.1.streams[0]?.isSome && result.2.pristine.streams[0]?.any fun pristine =>
        result.2.faulted.streams[0]?.any fun faulted =>
          eligibleSummary pristine && eligibleSummary faulted &&
            pristine.frontier = faulted.frontier) = true := by
    decide +kernel
  cases hcomparison : Sample.shuffledComparison with
  | error failure =>
      rw [hcomparison] at hseen
      cases hseen
  | ok result =>
      obtain ⟨trace, comparison⟩ := result
      rw [hcomparison] at hseen
      obtain ⟨_, hresult, hseen⟩ := (Option.any_eq_true _ _).mp hseen
      obtain rfl := Option.some.inj hresult
      rw [Bool.and_eq_true] at hseen
      obtain ⟨blueprint, hblueprint⟩ := Option.isSome_iff_exists.mp hseen.1
      obtain ⟨pristine, hpristine, hseen⟩ := (Option.any_eq_true _ _).mp hseen.2
      obtain ⟨faulted, hfaulted, hseen⟩ := (Option.any_eq_true _ _).mp hseen
      simp only [Bool.and_eq_true, decide_eq_true_eq] at hseen
      obtain ⟨⟨heligible, heligible'⟩, hfrontier⟩ := hseen
      have hverdict : (compareStreams pristine faulted).verdict ≠ .ineligible := by
        rw [compareStreams_verdict, if_pos ⟨heligible, heligible', hfrontier⟩]
        split
        · exact fun h => by cases h
        · exact fun h => by cases h
      obtain ⟨a, hnew, hrest⟩ := bind_eq_ok.mp hcomparison
      obtain ⟨trace', hfinish, hrest⟩ := bind_eq_ok.mp hrest
      obtain ⟨comparison', hcompare, hrest⟩ := bind_eq_ok.mp hrest
      obtain ⟨rfl, rfl⟩ := Prod.mk.inj (pure_eq_ok.mp hrest)
      obtain ⟨_, _, _, -, -, -, -, -, hstreams⟩ := compareSchedule_ok hcompare
      have hresult : comparison'.streams[0]? = some (compareStreams pristine faulted) := by
        rw [hstreams, List.getElem?_zipWith, hpristine, hfaulted]
      obtain ⟨_, faulted', -, hfaulted', -, -, -, hlast, -, hfolds⟩ :=
        @eligible_verdict_certifies _ _ _ _ Sample.shuffledBefore [] Sample.shuffle 0 _ _ _ _ _
          hnew hfinish rfl hblueprint _ hcompare _ hresult hverdict
      obtain ⟨-, hkeys⟩ := hfolds _ (Sample.recorded_shuffled _)
      exact ⟨trace', comparison', blueprint, faulted', rfl, hblueprint, hfaulted', hlast,
        hkeys ∅ fun _ => rfl⟩

end SealedTrace

end KvCrucible
