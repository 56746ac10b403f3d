/-
KvCrucible/Basis/Lines.lean

The lines of a list, each with its terminator.

A list is cut behind every terminator; what follows the last one is a line of
its own unless it is empty.  The two equations say what the first line is:
everything up to the first terminator (`lines_terminated`), or everything
(`lines_unterminated`).
-/
import Mathlib

namespace Basis

variable {α : Type*} [DecidableEq α] {sep : α}

/-- The lines of a list. -/
def lines (sep : α) : List α → List (List α)
  | [] => []
  | a :: rest =>
      if a = sep then [a] :: lines sep rest
      else
        match lines sep rest with
        | [] => [[a]]
        | line :: later => (a :: line) :: later

theorem lines_terminated {line rest : List α} (h : sep ∉ line) :
    lines sep (line ++ sep :: rest) = (line ++ [sep]) :: lines sep rest := by
  induction line with
  | nil => rw [List.nil_append, lines, if_pos rfl, List.nil_append]
  | cons a line ih =>
      obtain ⟨hne, hline⟩ := not_or.mp (List.mem_cons.not.mp h)
      rw [List.cons_append, lines, if_neg (Ne.symm hne), ih hline]
      rfl

theorem lines_unterminated {line : List α} (hne : line ≠ []) (h : sep ∉ line) :
    lines sep line = [line] := by
  induction line with
  | nil => exact absurd rfl hne
  | cons a line ih =>
      obtain ⟨hne, hline⟩ := not_or.mp (List.mem_cons.not.mp h)
      rw [lines, if_neg (Ne.symm hne)]
      cases line with
      | nil => rfl
      | cons b line => rw [ih (List.cons_ne_nil b line) hline]

/-- Induction over the lines of a list. -/
theorem inductionOnLines {P : List α → Prop} (xs : List α) (nil : P [])
    (last : ∀ line, line ≠ [] → sep ∉ line → P line)
    (cons : ∀ line rest, sep ∉ line → P rest → P (line ++ sep :: rest)) : P xs := by
  induction hn : xs.length using Nat.strong_induction_on generalizing xs with
  | _ n ih =>
      by_cases hsep : sep ∈ xs
      · obtain ⟨line, rest, rfl, hline⟩ := List.eq_append_cons_of_mem hsep
        rw [List.length_append, List.length_cons] at hn
        exact cons line rest hline (ih rest.length (by omega) rest rfl)
      · by_cases hne : xs = []
        · rw [hne]
          exact nil
        · exact last xs hne hsep

end Basis
