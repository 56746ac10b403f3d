/-
KvCrucible/Basis/Saturating.lean

A bank of counters with one ceiling and one shared overflow flag.

A counter saturates, so it forgets how far beyond the ceiling it was raised;
the flag remembers that some counter was.  `Clamps` relates a bank to the
totals it stands for: each value is the clamped total, and the flag is set
exactly when some total is beyond the ceiling.  `Clamps.raise` keeps the
relation under one addition of any size, whichever way it was clamped, so a
bank may be raised by one or in batches.
-/
import Mathlib

namespace Basis

variable {κ : Type*} {maximum : Nat} {totals totals' values values' : κ → Nat}
  {truncated truncated' : Bool} {k : κ} {n : Nat}

/-- The bank holds the totals, clamped. -/
structure Clamps (maximum : Nat) (totals values : κ → Nat) (truncated : Bool) : Prop where
  value : ∀ j, values j = min maximum (totals j)
  truncated : truncated = true ↔ ∃ j, maximum < totals j

/-- One counter of the bank is raised by `n` and clamped. -/
structure Raises (maximum : Nat) (k : κ) (n : Nat) (values values' : κ → Nat)
    (truncated truncated' : Bool) : Prop where
  raised : values' k = min maximum (values k + n)
  kept : ∀ j, j ≠ k → values' j = values j
  flag : truncated' = (truncated || decide (maximum < values k + n))

theorem Clamps.zero (maximum : Nat) : Clamps maximum (fun _ : κ => 0) (fun _ => 0) false where
  value := fun _ => (Nat.min_zero maximum).symm
  truncated := by simp

/-- A bank that holds its totals does not exceed the ceiling. -/
theorem Clamps.value_le (h : Clamps maximum totals values truncated) (j : κ) :
    values j ≤ maximum := by
  rw [h.value]
  exact Nat.min_le_left _ _

/-- Raising a counter raises its total. -/
theorem Clamps.raise (h : Clamps maximum totals values truncated)
    (hraise : Raises maximum k n values values' truncated truncated')
    (hk : totals' k = totals k + n) (hne : ∀ j, j ≠ k → totals' j = totals j) :
    Clamps maximum totals' values' truncated' where
  value := fun j => by
    by_cases hj : j = k
    · subst hj
      rw [hraise.raised, h.value, hk]
      omega
    · rw [hraise.kept j hj, h.value, hne j hj]
  truncated := by
    have hself : maximum < totals' k ↔ maximum < totals k ∨ maximum < values k + n := by
      rw [h.value, hk]
      omega
    rw [hraise.flag, Bool.or_eq_true, decide_eq_true_iff, h.truncated]
    constructor
    · rintro (⟨j, hj⟩ | hover)
      · by_cases hjk : j = k
        · exact ⟨k, hself.mpr (.inl (hjk ▸ hj))⟩
        · exact ⟨j, (hne j hjk).symm ▸ hj⟩
      · exact ⟨k, hself.mpr (.inr hover)⟩
    · rintro ⟨j, hj⟩
      by_cases hjk : j = k
      · rcases hself.mp (hjk ▸ hj) with hold | hover
        · exact .inl ⟨k, hold⟩
        · exact .inr hover
      · exact .inl ⟨j, hne j hjk ▸ hj⟩

/-- Raising lowers no counter of a bank below the ceiling. -/
theorem Raises.le (h : Raises maximum k n values values' truncated truncated')
    (hle : ∀ j, values j ≤ maximum) (j : κ) : values j ≤ values' j := by
  by_cases hj : j = k
  · subst hj
    rw [h.raised]
    exact Nat.le_min.mpr ⟨hle j, Nat.le_add_right _ _⟩
  · rw [h.kept j hj]

/-- Raising never clears the flag. -/
theorem Raises.flag_of (h : Raises maximum k n values values' truncated truncated')
    (ht : truncated = true) : truncated' = true := by
  rw [h.flag, ht, Bool.true_or]

end Basis
