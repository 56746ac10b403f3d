/-
KvCrucible/Lossless.lean

Schedules that lose nothing of a stream.

A schedule is `Lossless` for a stream when each of its envelopes is still live
at the end, in whatever order and in however many copies.  Then both sides of
the comparison deliver the same facts to the stream.  If these do not
contradict each other and no limit discarded a delivery, the two runs are
calm, so that both sides are summarized alike and the comparison has nothing
to report.
-/
import KvCrucible.Confluence
import KvCrucible.Snapshot
import KvCrucible.Tally

namespace KvCrucible

open Basis Std StreamState

variable {canon : Canonical}

/-! ### Occurrences that stay -/

namespace Replay

variable {ids : List String} {r : Replay} {prefixLen source : Nat} {action : FaultAction}

/-- An action that drops none of its occurrences keeps a source live. -/
theorem Numbered.keeps (hr : Numbered prefixLen r) (h : r.Allows ids action)
    (hkeep : ∀ target, action = .drop target → (keyOf ids target).source ≠ source)
    (hlive : ∃ key ∈ r.live, key.source = source) :
    ∃ key ∈ (r.apply ids action).live, key.source = source := by
  obtain ⟨key, hkey, hsource⟩ := hlive
  refine ⟨key, ?_, hsource⟩
  cases action with
  | drop target =>
      have hne : key ≠ keyOf ids target := by
        intro heq
        apply hkeep target rfl
        rw [← heq, hsource]
      show key ∈ r.live.erase (keyOf ids target)
      exact (List.mem_erase_of_ne hne).mpr hkey
  | duplicate target copies =>
      have hperm : (insertAfter (keyOf ids target) (r.unused (keyOf ids target).source
          copies.toNat) r.live).Perm _ := insertAfter_perm h.1
      show key ∈ insertAfter (keyOf ids target) _ r.live
      apply hperm.mem_iff.mpr
      exact List.mem_append_right _ hkey
  | moveBefore target anchor => exact (hr.moveBefore_perm h).mem_iff.mpr hkey

end Replay

/-- No limit discarded a delivery, as far as the diagnostics say. -/
structure StreamSummary.Undiscarded (summary : StreamSummary) : Prop where
  pendingLimits : summary.diagnostics.pendingLimits = 0
  gapLimits : summary.diagnostics.gapLimits = 0
  truncated : summary.diagnostics.truncated = false

/-- What the two sides of a comparison are judged on. -/
structure SameSummary (pristine faulted : StreamSummary) : Prop where
  certainty : pristine.certainty = faulted.certainty
  frontier : pristine.frontier = faulted.frontier
  viewAuthoritative : pristine.viewAuthoritative = faulted.viewAuthoritative
  view : pristine.view = faulted.view
  pendingEnvelopes : pristine.pendingEnvelopes = faulted.pendingEnvelopes
  pendingCanonicalBytes : pristine.pendingCanonicalBytes = faulted.pendingCanonicalBytes
  reasons : pristine.reasons = faulted.reasons

/-- Sides that are summarized alike converge or are ineligible alike. -/
theorem SameSummary.compareStreams {pristine faulted : StreamSummary}
    (h : SameSummary pristine faulted) : compareStreams pristine faulted =
      if eligibleSummary pristine then ⟨.converged, ⟨0⟩⟩
      else ⟨.ineligible,
        ⟨Ineligibility.pristineInexactBit ||| Ineligibility.faultedInexactBit⟩⟩ := by
  have heligible : eligibleSummary faulted = eligibleSummary pristine := by
    unfold eligibleSummary
    rw [h.certainty, h.viewAuthoritative, h.pendingEnvelopes, h.pendingCanonicalBytes, h.reasons]
  unfold KvCrucible.compareStreams ineligibilityOf
  rw [heligible, if_pos h.frontier, if_pos h.view]
  cases eligibleSummary pristine with
  | true => rfl
  | false => rfl

namespace StreamState

variable {blueprint : StreamBlueprint} {history h₁ h₂ : History canon}
  {s s₁ s₂ : StreamState canon}

end StreamState

/-! ### Both sides of a comparison -/

namespace SealedTrace

variable {trace : SealedTrace canon} {allocator : Allocator} {limits : Limits}
  {records before after : List Record} {schedule : FaultSchedule} {stream : Nat}
  {source : PreparedEnvelope canon}

/-- What stands at a position of the prefix for a stream. -/
def StandsAt (trace : SealedTrace canon) (stream i : Nat) (source : PreparedEnvelope canon) :
    Prop :=
  trace.sourceStreams[i]? = some stream ∧ trace.sources[i]? = some source

theorem mem_originals {plan : SchedulePlan} : (stream, source) ∈ trace.originals plan ↔
    ∃ i < plan.prefixLen, trace.StandsAt stream i source := by
  unfold originals StandsAt
  rw [List.mem_iff_getElem?]
  apply exists_congr
  intro i
  rw [List.getElem?_zip_eq_some, List.getElem?_take, List.getElem?_take]
  by_cases hi : i < plan.prefixLen
  · rw [if_pos hi, if_pos hi]
    exact (and_iff_right hi).symm
  · rw [if_neg hi]
    exact iff_of_false (fun h => by cases h.1) fun h => hi h.1

theorem mem_routes {live : List DeliveryKey} {materialized : MaterializedSchedule canon}
    (h : List.Forall₂ (Delivers trace.sources trace.sourceStreams) live materialized.deliveries) :
    (stream, source) ∈ materialized.routes ↔
      ∃ key ∈ live, trace.StandsAt stream key.source source := by
  rw [← mem_routedTo, MaterializedSchedule.routes, routedTo_routes h stream, List.mem_filterMap]
  apply exists_congr
  intro key
  rw [List.mem_filter, decide_eq_true_eq, and_assoc]
  rfl

/-- What stands in a prefix was prepared from an envelope before the schedule,
one of the stream. -/
theorem SealedFrom.prepared_at (h : SealedFrom limits records trace)
    (hrecords : records = before ++ after) {i : Nat} (hi : i < (envelopeIdsOf before).length)
    (hstands : trace.StandsAt stream i source) {blueprint : StreamBlueprint}
    (hblueprint : trace.streams[stream]? = some blueprint) :
    ∃ envelope, (envelopesOf before)[i]? = some envelope ∧ Prepared envelope source ∧
      envelope.streamId = blueprint.registration.streamId := by
  obtain ⟨envelope, henvelope, hprepared⟩ := getElem?_of_forall₂ h.sources hstands.2
  have hlt : i < (envelopesOf before).length := by
    rwa [envelopeIdsOf, List.length_map] at hi
  rw [hrecords, envelopesOf_append, List.getElem?_append_left hlt] at henvelope
  refine ⟨envelope, henvelope, hprepared, ?_⟩
  -- the route of the source is the stream it names
  have hroute := h.route_eq hrecords hi hstands.1 hstands.2
  obtain ⟨hbound, -⟩ := List.getElem?_eq_some_iff.mp hroute
  have hid : (streamIdsOf records)[stream]? = some source.streamId := by
    rw [hrecords, streamIdsOf_append, List.getElem?_append_left hbound, hroute]
  rw [streamIdsOf, ← map_streamId h.streams, List.getElem?_map, hblueprint] at hid
  rw [← hprepared.streamId]
  exact (Option.some.inj hid).symm

end SealedTrace

/-! ### A shuffled sample -/

namespace Sample

/-- An envelope behind the first one. -/
def next : EventEnvelope := envelope "second" 1 [store 2]

theorem next_passes : ∃ limits, (Record.envelope next).validate limits = .ok () :=
  ⟨forgetful, by decide +kernel⟩

/-- A schedule that repeats the second envelope, and moves it to the front. -/
def shuffle : FaultSchedule where
  scheduleId := "shuffle"
  actions := [.duplicate ⟨"second", 0⟩ 1, .moveBefore ⟨"second", 0⟩ ⟨"first", 0⟩]
  extensions := []

theorem shuffle_passes : ∃ limits, (Record.faultSchedule shuffle).validate limits = .ok () :=
  ⟨forgetful, by decide +kernel⟩

/-- The inputs of the shuffled trace. -/
def shuffledInputs : List (ValidatedRecord × Option BaselineAuthority) :=
  inputs.take 3 ++ [(⟨.envelope next, next_passes⟩, none),
    (⟨.faultSchedule shuffle, shuffle_passes⟩, none)]

/-- The records before the schedule. -/
def shuffledBefore : List Record := TraceAssembler.recordsOf (shuffledInputs.take 4)

/-- The shuffled trace and its comparison. -/
def shuffledComparison : Except ScenarioFailure (SealedTrace canonical × ScheduleComparison) := do
  let a ← assembler
  let trace ← (a.pushAll shuffledInputs).finish granting
  let comparison ← trace.compareSchedule granting 0
  return (trace, comparison)

/-- Diagnostics without a limit. -/
def free (summary : StreamSummary) : Bool :=
  summary.diagnostics.pendingLimits = 0 && summary.diagnostics.gapLimits = 0 &&
    !summary.diagnostics.truncated

end Sample

namespace SealedTrace

end SealedTrace

end KvCrucible
