/-
KvCrucible/Redelivery.lean

Delivering one envelope twice in a row.

The second admission takes a way of its own: what was buffered is a pending
duplicate, what was folded is a recent duplicate or already out of the
window, what was discarded is behind the horizon.  `Step.again` names the way
for each first way; in all of them only the diagnostics move.
-/
import KvCrucible.StateInvariant

namespace KvCrucible

open Basis Std

variable {canon : Canonical}

namespace StreamState

variable {s s' : StreamState canon} {e : PreparedEnvelope canon} {d : Disposition}

/-! ### Noting the same cursor again -/

/-- The equivocation ceiling is already there. -/
theorem noteEquivocation_again (s : StreamState canon) (cursor : Nat) (invalidatesView : Bool) :
    (s.noteEquivocation cursor invalidatesView).noteEquivocation cursor invalidatesView =
      (s.noteEquivocation cursor invalidatesView).tally Diagnostics.bumpEquivocation := by
  have hmax : max (s.equivocationCeiling.elim cursor (max · cursor)) cursor =
      s.equivocationCeiling.elim cursor (max · cursor) := by
    cases s.equivocationCeiling with
    | none => exact Nat.max_self cursor
    | some old => simp
  cases invalidatesView <;>
    simp only [noteEquivocation, setEquivocation, StreamState.recomputePoison, tally,
      StreamState.recomputeCertainty, certaintyOf, Option.elim_some, hmax, Bool.false_eq_true,
      if_false, if_true]

/-- The horizon already spans the cursor. -/
theorem noteUnavailable_again (s : StreamState canon)
    (bump bump' : Nat → Diagnostics → Diagnostics) (cursor : Nat) :
    (s.noteUnavailable bump cursor).noteUnavailable bump' cursor =
      (s.noteUnavailable bump cursor).tally bump' := by
  have hmin : min (s.unavailableFloor.elim cursor (min · cursor)) cursor =
      s.unavailableFloor.elim cursor (min · cursor) := by
    cases s.unavailableFloor with
    | none => exact Nat.min_self cursor
    | some old => simp
  have hmax : max (s.unavailableCeiling.elim cursor (max · cursor)) cursor =
      s.unavailableCeiling.elim cursor (max · cursor) := by
    cases s.unavailableCeiling with
    | none => exact Nat.max_self cursor
    | some old => simp
  simp only [noteUnavailable, setUnavailable, StreamState.recomputePoison, tally,
    StreamState.recomputeCertainty, certaintyOf, Option.elim_some, hmin, hmax]
  rfl

/-- A noted cursor lies inside the horizon, with or without a clear. -/
theorem unavailableBlocks_noted (s : StreamState canon)
    (bump : Nat → Diagnostics → Diagnostics) :
    (s.noteUnavailable bump e.cursor).unavailableBlocks e = true := by
  refine unavailableBlocks_iff.mpr ⟨_, rfl, ?_, ?_⟩
  · show s.unavailableFloor.elim e.cursor (min · e.cursor) ≤ e.cursor
    cases s.unavailableFloor with
    | none => exact Nat.le_refl _
    | some old => exact Nat.min_le_right old e.cursor
  · intro _ hi hhi
    obtain rfl := Option.some.inj hhi
    show e.cursor ≤ s.unavailableCeiling.elim e.cursor (max · e.cursor)
    cases s.unavailableCeiling with
    | none => exact Nat.le_refl _
    | some old => exact Nat.le_max_right old e.cursor

/-! ### The second way -/

/-- `e` would only be counted: a way that folds and retains nothing. -/
def OnlyCounts (s : StreamState canon) (e : PreparedEnvelope canon) : Prop :=
  ∃ d bump, d ≠ .applied ∧ d ≠ .barrierApplied ∧ d ≠ .buffered ∧ s.Step e d (s.tally bump)

theorem OnlyCounts.duplicate (h : s.Step e .duplicate (s.tally Diagnostics.bumpDuplicate)) :
    s.OnlyCounts e :=
  ⟨.duplicate, Diagnostics.bumpDuplicate, nofun, nofun, nofun, h⟩

/-- A noted delivery would run into the horizon it has widened. -/
theorem onlyCounts_noted {bump : Nat → Diagnostics → Diagnostics}
    (hfresh : s.pending[e.cursor]? = none) (hnext : s.next ≤ e.cursor) :
    (s.noteUnavailable bump e.cursor).OnlyCounts e := by
  refine ⟨.unverifiableGap, Diagnostics.bumpUnverifiableGap, nofun, nofun, nofun, ?_⟩
  rw [← noteUnavailable_again]
  exact .unverifiableGap hfresh hnext (unavailableBlocks_noted s bump)

/-- A folded delivery is past, and the window holds its fingerprint or
nothing at its cursor. -/
theorem Application.onlyCounts {barrier : Bool} {sources : List (PreparedEnvelope canon)}
    {cache : CacheTransaction} (hs : s.Invariant) (hfresh : s.pending[e.cursor]? = none)
    (hnext : s.next ≤ e.cursor) (happ : s.Application e barrier sources cache s') :
    s'.OnlyCounts e := by
  have hfresh' : s'.pending[e.cursor]? = none := by
    rw [happ.pending, hfresh, ite_self]
  have hpast : e.cursor < s'.next := by
    rw [happ.next_eq]
    omega
  cases hslot : s'.recent[e.cursor]? with
  | none =>
      cases hclear : e.hasClear with
      | true =>
          exact ⟨.staleBarrier, Diagnostics.bumpStaleBarrier, nofun, nofun, nofun,
            .staleBarrier hfresh' hpast hslot hclear⟩
      | false =>
          exact ⟨.staleUnverifiable, Diagnostics.bumpStaleUnverifiable, nofun, nofun, nofun,
            .staleUnverifiable hfresh' hpast hslot hclear⟩
  | some slot =>
      have hslot' : slot = .candidate e.fingerprint := by
        rw [happ.recent] at hslot
        rcases getElem?_retainAll hslot with ⟨fact, hfact, hcursor, rfl⟩ | hold
        · rcases List.mem_cons.mp hfact with rfl | hdrained
          · rfl
          · -- drained facts lie above the delivery
            obtain ⟨k, hk, rfl⟩ := mem_factsFrom.mp hdrained
            have : e.cursor + 1 + k = e.cursor := hcursor
            omega
        · cases barrier with
          | true => simp at hold
          | false =>
              -- the old window lies below the old frontier
              have := (hs.recent_past hold).2
              omega
      subst hslot'
      exact .duplicate (.pastDuplicate hfresh' hpast hslot rfl)

/-- After any way `e` was admitted, it would only be counted. -/
theorem Step.again (hs : s.Invariant) (h : s.Step e d s') : s'.OnlyCounts e := by
  cases h with
  | pendingDuplicate hslot hcovers =>
      exact .duplicate (.pendingDuplicate hslot hcovers)
  | @pendingConflict first hslot hne hbytes =>
      have hcovers : (PendingSlot.conflict first.fingerprint e.fingerprint :
          PendingSlot canon).evidence.Covers e.fingerprint := .inr rfl
      refine .duplicate (.pendingDuplicate ?_ hcovers)
      rw [noteEquivocation_pending]
      exact ExtTreeMap.getElem?_insert_self
  | pendingAdditional hslot hfirst hsecond =>
      refine ⟨.equivocation, Diagnostics.bumpEquivocation, nofun, nofun, nofun, ?_⟩
      rw [← noteEquivocation_again]
      apply Step.pendingAdditional _ hfirst hsecond
      rw [noteEquivocation_pending, hslot]
  | pastDuplicate hfresh hpast hslot hcovers =>
      exact .duplicate (.pastDuplicate hfresh hpast hslot hcovers)
  | @pastConflict first hfresh hpast hslot hne =>
      have hcovers : (RecentSlot.conflict first e.fingerprint).Covers e.fingerprint := .inr rfl
      refine .duplicate (.pastDuplicate ?_ ?_ ?_ hcovers)
      · rw [noteEquivocation_pending]
        exact hfresh
      · rw [noteEquivocation_next]
        exact hpast
      · rw [noteEquivocation_recent]
        exact ExtTreeMap.getElem?_insert_self
  | pastAdditional hfresh hpast hslot hfirst hsecond =>
      refine ⟨.equivocation, Diagnostics.bumpEquivocation, nofun, nofun, nofun, ?_⟩
      rw [← noteEquivocation_again]
      apply Step.pastAdditional _ _ _ hfirst hsecond
      · rw [noteEquivocation_pending, hfresh]
      · rw [noteEquivocation_next]
        exact hpast
      · rw [noteEquivocation_recent, hslot]
  | staleBarrier hfresh hpast hslot hclear =>
      exact ⟨.staleBarrier, Diagnostics.bumpStaleBarrier, nofun, nofun, nofun,
        .staleBarrier hfresh hpast hslot hclear⟩
  | staleUnverifiable hfresh hpast hslot hclear =>
      exact ⟨.staleUnverifiable, Diagnostics.bumpStaleUnverifiable, nofun, nofun, nofun,
        .staleUnverifiable hfresh hpast hslot hclear⟩
  | unverifiableGap hfresh hnext hblocks => exact onlyCounts_noted hfresh hnext
  | barrierApplied hfresh hnext hblocks heligible happ => exact happ.onlyCounts hs hfresh hnext
  | applied hfresh hnext hblocks heligible hwhere happ => exact happ.onlyCounts hs hfresh hnext
  | gapLimit hfresh hnext hblocks heligible hanchored hspan =>
      exact onlyCounts_noted hfresh (Nat.le_of_lt hnext)
  | pendingLimit hfresh hnext hblocks heligible hanchored hspan hroom =>
      exact onlyCounts_noted hfresh (Nat.le_of_lt hnext)
  | buffered hfresh hnext hblocks heligible hanchored hspan hroom =>
      have hcovers : (PendingSlot.candidate e).evidence.Covers e.fingerprint := rfl
      exact .duplicate (.pendingDuplicate ExtTreeMap.getElem?_insert_self hcovers)

/-! ### Idempotence -/

variable {blueprint : StreamBlueprint} {status : SessionStatus}

/-- Delivering an admitted envelope again right away is admitted again, folds
and buffers nothing, and leaves every field but the diagnostics as it was. -/
theorem redelivery_idempotent (hs : Reachable blueprint s)
    (h : s.admitDelivery status e = (.ok d, s')) :
    ∃ d' diagnostics, s'.admitDelivery status e =
        (.ok d', { s' with diagnostics := diagnostics }) ∧
      d' ≠ .applied ∧ d' ≠ .barrierApplied ∧ d' ≠ .buffered := by
  obtain ⟨hfailed, hstatus, hinner⟩ := admitDelivery_eq_ok.mp h
  obtain ⟨haccepts, hstep⟩ := admitInner_ok hinner
  obtain ⟨d', bump, happlied, hbarrier, hbuffered, hagain⟩ := hstep.again hs.invariant
  have hsame := hstep.same
  have haccepts' : s'.Accepts e := by
    refine ⟨?_, ?_, ?_⟩
    · rw [hsame.session]
      exact haccepts.session
    · rw [hsame.streamId]
      exact haccepts.streamId
    · rw [hsame.initialCursor]
      exact haccepts.initialCursor
  refine ⟨d', bump s'.limits.maxDiagnosticCount.toNat s'.diagnostics, ?_, happlied, hbarrier,
    hbuffered⟩
  apply admitDelivery_eq_ok.mpr
  exact ⟨hsame.failed.trans hfailed, hstatus, hagain.admitInner_eq haccepts' happlied hbarrier⟩

/-- A delivery that was discarded for lack of room is discarded again. -/
theorem redelivery_of_discarded :
    ∃ d' diagnostics,
      (Sample.deliver (Sample.fresh Sample.tight) [Sample.early]).admitDelivery .open_
          Sample.early =
        (.ok d', { Sample.deliver (Sample.fresh Sample.tight) [Sample.early] with
          diagnostics := diagnostics }) ∧
      d' ≠ .applied ∧ d' ≠ .barrierApplied ∧ d' ≠ .buffered := by
  have hreachable : Reachable (Sample.blueprint Sample.tight) (Sample.fresh Sample.tight) := .fresh
  have hdiscarded : (Sample.fresh Sample.tight).admitDelivery .open_ Sample.early =
      (.ok .pendingLimit, Sample.deliver (Sample.fresh Sample.tight) [Sample.early]) :=
    Prod.ext (by decide +kernel) rfl
  exact redelivery_idempotent hreachable hdiscarded

end StreamState

end KvCrucible
