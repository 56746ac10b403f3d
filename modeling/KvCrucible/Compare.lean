/-
KvCrucible/Compare.lean

The eligibility-aware comparison of two finalized streams (`compare_streams`
in `scenario.rs`).
-/
import KvCrucible.State

namespace KvCrucible

/-- `ConvergenceVerdict`. -/
inductive ConvergenceVerdict where
  | converged
  | diverged
  | ineligible
  deriving DecidableEq

/-- `Ineligibility`. -/
structure Ineligibility where
  bits : UInt8
  deriving DecidableEq

namespace Ineligibility

/-- `Ineligibility::PRISTINE_INEXACT`. -/
def pristineInexactBit : UInt8 := 1
/-- `Ineligibility::FAULTED_INEXACT`. -/
def faultedInexactBit : UInt8 := 2
/-- `Ineligibility::FRONTIER_MISMATCH`. -/
def frontierMismatchBit : UInt8 := 4

/-- `is_empty`. -/
def isEmpty (ineligibility : Ineligibility) : Bool := ineligibility.bits = 0

end Ineligibility

/-- `StreamComparison`. -/
structure StreamComparison where
  verdict : ConvergenceVerdict
  ineligibility : Ineligibility
  deriving DecidableEq

/-- `eligible_summary`. -/
def eligibleSummary (summary : StreamSummary) : Bool :=
  summary.certainty = .exact && summary.viewAuthoritative && summary.reasons.isEmpty &&
    summary.pendingEnvelopes = 0 && summary.pendingCanonicalBytes = 0

/-- The reasons `compare_streams` collects. -/
def ineligibilityOf (pristine faulted : StreamSummary) : Ineligibility where
  bits := (if eligibleSummary pristine then 0 else Ineligibility.pristineInexactBit) |||
    (if eligibleSummary faulted then 0 else Ineligibility.faultedInexactBit) |||
    (if pristine.frontier = faulted.frontier then 0 else Ineligibility.frontierMismatchBit)

/-- `compare_streams`. -/
def compareStreams (pristine faulted : StreamSummary) : StreamComparison :=
  let ineligibility := ineligibilityOf pristine faulted
  { verdict :=
      if !ineligibility.isEmpty then .ineligible
      else if pristine.view = faulted.view then .converged
      else .diverged
    ineligibility := ineligibility }

theorem ineligibilityOf_isEmpty {pristine faulted : StreamSummary} :
    (ineligibilityOf pristine faulted).isEmpty = true ↔
      eligibleSummary pristine = true ∧ eligibleSummary faulted = true ∧
        pristine.frontier = faulted.frontier := by
  unfold ineligibilityOf Ineligibility.isEmpty
  cases eligibleSummary pristine <;> cases eligibleSummary faulted <;>
    by_cases h : pristine.frontier = faulted.frontier <;> simp [h] <;> decide

/-- A divergence is a pair of eligible sides with one frontier and two views. -/
theorem compareStreams_diverged {pristine faulted : StreamSummary} :
    (compareStreams pristine faulted).verdict = .diverged ↔
      eligibleSummary pristine = true ∧ eligibleSummary faulted = true ∧
        pristine.frontier = faulted.frontier ∧ pristine.view ≠ faulted.view := by
  unfold compareStreams
  cases hempty : (ineligibilityOf pristine faulted).isEmpty with
  | true =>
      obtain ⟨hp, hf, hfrontier⟩ := ineligibilityOf_isEmpty.mp hempty
      by_cases hview : pristine.view = faulted.view
      · simp [hempty, hview]
      · simp [hempty, hview, hp, hf, hfrontier]
  | false =>
      have hne : ¬ (ineligibilityOf pristine faulted).isEmpty = true := by simp [hempty]
      rw [ineligibilityOf_isEmpty] at hne
      simp only [hempty, Bool.not_false, if_true, reduceCtorEq, false_iff]
      rintro ⟨hp, hf, hfrontier, -⟩
      exact hne ⟨hp, hf, hfrontier⟩

end KvCrucible
