/-
KvCrucible/Basis/ListEdit.lean

Editing a list at an element: insert a block right behind it, insert an
element right before it.

Each edit is described twice: up to permutation, which settles membership,
length and absence of duplicates, and at a split of the list at the element,
which is what an implementation with links needs.
-/
import Mathlib

namespace Basis

variable {α : Type*} [DecidableEq α]

/-- Insert a block right behind the first occurrence of `x`. -/
def insertAfter (x : α) (block : List α) : List α → List α
  | [] => []
  | y :: ys => if y = x then y :: (block ++ ys) else y :: insertAfter x block ys

/-- Insert `new` right before the first occurrence of `x`. -/
def insertBefore (x new : α) : List α → List α
  | [] => []
  | y :: ys => if y = x then new :: y :: ys else y :: insertBefore x new ys

variable {x y new : α} {block l xs ys : List α}

/-! ### Up to permutation -/

theorem insertAfter_perm (h : x ∈ l) : (insertAfter x block l).Perm (block ++ l) := by
  induction l with
  | nil => cases h
  | cons z zs ih =>
      rw [insertAfter]
      by_cases hz : z = x
      · rw [if_pos hz]
        exact List.perm_middle.symm
      · rw [if_neg hz]
        have hmem : x ∈ zs := (List.mem_cons.mp h).resolve_left fun hx => hz hx.symm
        exact ((ih hmem).cons z).trans List.perm_middle.symm

theorem insertBefore_perm (h : x ∈ l) : (insertBefore x new l).Perm (new :: l) := by
  induction l with
  | nil => cases h
  | cons z zs ih =>
      rw [insertBefore]
      by_cases hz : z = x
      · rw [if_pos hz]
      · rw [if_neg hz]
        have hmem : x ∈ zs := (List.mem_cons.mp h).resolve_left fun hx => hz hx.symm
        exact ((ih hmem).cons z).trans (List.Perm.swap new z zs)

/-! ### Under a filter -/

section Filter

variable {p : α → Bool}

/-- A filter does not see an element it rejects being erased. -/
theorem filter_erase (h : p x = false) : (l.erase x).filter p = l.filter p := by
  have hnot : x ∉ l.filter p := fun hx => Bool.eq_false_iff.mp h (List.mem_filter.mp hx).2
  rw [← List.erase_filter, List.erase_of_not_mem hnot]

/-- A filter does not see a block it rejects being inserted. -/
theorem filter_insertAfter (h : ∀ y ∈ block, p y = false) :
    (insertAfter x block l).filter p = l.filter p := by
  have hblock : block.filter p = [] :=
    List.filter_eq_nil_iff.mpr fun y hy => Bool.eq_false_iff.mp (h y hy)
  induction l with
  | nil => rfl
  | cons z zs ih =>
      rw [insertAfter]
      by_cases hz : z = x
      · rw [if_pos hz, List.filter_cons, List.filter_append, hblock, List.nil_append,
          List.filter_cons]
      · rw [if_neg hz, List.filter_cons, List.filter_cons, ih]

/-- A filter does not see an element it rejects being inserted. -/
theorem filter_insertBefore (h : p new = false) :
    (insertBefore x new l).filter p = l.filter p := by
  induction l with
  | nil => rfl
  | cons z zs ih =>
      rw [insertBefore]
      by_cases hz : z = x
      · rw [if_pos hz, List.filter_cons, h, if_neg Bool.false_ne_true]
      · rw [if_neg hz, List.filter_cons, List.filter_cons, ih]

/-- A filter that accepts the element sees a block inserted behind it. -/
theorem filter_insertAfter_of_pos (h : p x = true) :
    (insertAfter x block l).filter p = insertAfter x (block.filter p) (l.filter p) := by
  induction l with
  | nil => rfl
  | cons z zs ih =>
      rw [insertAfter, List.filter_cons]
      by_cases hz : z = x
      · subst hz
        rw [if_pos rfl, List.filter_cons, if_pos h, if_pos h, List.filter_append, insertAfter,
          if_pos rfl]
      · rw [if_neg hz, List.filter_cons, ih]
        split
        · rw [insertAfter, if_neg hz]
        · rfl

/-- A filter that accepts both sees the one inserted before the other. -/
theorem filter_insertBefore_of_pos (hx : p x = true) (hnew : p new = true) :
    (insertBefore x new l).filter p = insertBefore x new (l.filter p) := by
  induction l with
  | nil => rfl
  | cons z zs ih =>
      rw [insertBefore, List.filter_cons]
      by_cases hz : z = x
      · subst hz
        rw [if_pos rfl, List.filter_cons, if_pos hnew, List.filter_cons, if_pos hx, insertBefore,
          if_pos rfl]
      · rw [if_neg hz, List.filter_cons, ih]
        split
        · rw [insertBefore, if_neg hz]
        · rfl

end Filter

/-! ### At a split -/

theorem insertAfter_split (h : x ∉ xs) :
    insertAfter x block (xs ++ x :: ys) = xs ++ x :: (block ++ ys) := by
  induction xs with
  | nil => simp [insertAfter]
  | cons z zs ih =>
      obtain ⟨hz, hzs⟩ := not_or.mp (List.mem_cons.not.mp h)
      rw [List.cons_append, insertAfter, if_neg fun heq => hz heq.symm, ih hzs]
      rfl

theorem insertBefore_split (h : x ∉ xs) :
    insertBefore x new (xs ++ x :: ys) = xs ++ new :: x :: ys := by
  induction xs with
  | nil => simp [insertBefore]
  | cons z zs ih =>
      obtain ⟨hz, hzs⟩ := not_or.mp (List.mem_cons.not.mp h)
      rw [List.cons_append, insertBefore, if_neg fun heq => hz heq.symm, ih hzs]
      rfl

theorem erase_split (h : x ∉ xs) : (xs ++ x :: ys).erase x = xs ++ ys := by
  rw [List.erase_append_right _ h, List.erase_cons_head]

omit [DecidableEq α] in
/-- A list without duplicates splits at a member that is not in the first
part. -/
theorem exists_split (hnodup : l.Nodup) (h : x ∈ l) :
    ∃ xs ys, l = xs ++ x :: ys ∧ x ∉ xs ∧ x ∉ ys := by
  obtain ⟨xs, ys, rfl⟩ := List.append_of_mem h
  have hmiddle := List.nodup_middle.mp hnodup
  have hnot := (List.nodup_cons.mp hmiddle).1
  exact ⟨xs, ys, rfl, fun hx => hnot (List.mem_append_left _ hx),
    fun hx => hnot (List.mem_append_right _ hx)⟩

end Basis
