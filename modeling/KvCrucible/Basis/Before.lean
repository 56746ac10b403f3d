/-
KvCrucible/Basis/Before.lean

Lists whose elements are read in the light of what stands before them.

`ForallBefore P l` says that every element satisfies `P` against the elements
before it; `filterMapBefore f l` collects what `f` makes of every element and
the elements before it.  Both grow at the end of the list, so a left-to-right
consumer can keep them one element at a time.
-/
import Mathlib

namespace Basis

variable {α β : Type*}

/-- Every element is related to the elements before it. -/
def ForallBefore (P : List α → α → Prop) (l : List α) : Prop :=
  ∀ before a after, l = before ++ a :: after → P before a

/-- `filterMap` of a function that also sees the elements before, the first of
which are `before`. -/
def filterMapBefore (f : List α → α → Option β) (before : List α) : List α → List β
  | [] => []
  | a :: l => (f before a).toList ++ filterMapBefore f (before ++ [a]) l

variable {P Q : List α → α → Prop} {f : List α → α → Option β} {l before : List α} {a : α}

/-! ### Relating elements to what is before them -/

@[simp] theorem forallBefore_nil : ForallBefore P [] := by
  intro before a after h
  exact absurd h.symm (List.append_ne_nil_of_right_ne_nil _ (List.cons_ne_nil _ _))

theorem forallBefore_snoc : ForallBefore P (l ++ [a]) ↔ ForallBefore P l ∧ P l a := by
  constructor
  · intro h
    refine ⟨fun before b after heq => ?_, h l a [] rfl⟩
    refine h before b (after ++ [a]) ?_
    rw [heq, List.append_assoc, List.cons_append]
  · rintro ⟨hl, ha⟩ before b after heq
    rcases List.eq_nil_or_concat after with rfl | ⟨after, c, rfl⟩
    · -- the element is the last one
      obtain ⟨rfl, hb⟩ := List.append_inj' heq rfl
      obtain rfl := List.singleton_inj.mp hb
      exact ha
    · rw [List.concat_eq_append, ← List.cons_append, ← List.append_assoc] at heq
      exact hl before b after (List.append_inj' heq rfl).1

theorem filterMap_snoc {g : α → Option β} :
    (l ++ [a]).filterMap g = l.filterMap g ++ (g a).toList := by
  rw [List.filterMap_append, List.filterMap_cons]
  cases g a <;> rfl

/-- Absence of duplicates, read from left to right. -/
theorem nodup_snoc : (l ++ [a]).Nodup ↔ l.Nodup ∧ a ∉ l := by
  rw [List.nodup_append_comm, List.singleton_append, List.nodup_cons, and_comm]

/-! ### Collecting -/

theorem filterMapBefore_append {l₁ l₂ : List α} :
    filterMapBefore f before (l₁ ++ l₂) =
      filterMapBefore f before l₁ ++ filterMapBefore f (before ++ l₁) l₂ := by
  induction l₁ generalizing before with
  | nil => rw [List.append_nil]; rfl
  | cons a l₁ ih =>
      rw [List.cons_append, filterMapBefore, ih, filterMapBefore, List.append_assoc,
        List.append_assoc]
      rfl

theorem filterMapBefore_snoc :
    filterMapBefore f before (l ++ [a]) =
      filterMapBefore f before l ++ (f (before ++ l) a).toList := by
  rw [filterMapBefore_append]
  simp [filterMapBefore]

/-- Every collected value stems from one element, and is preceded by what was
collected before that element. -/
theorem getElem?_filterMapBefore {i : Nat} {b : β}
    (h : (filterMapBefore f before l)[i]? = some b) :
    ∃ l₁ a l₂, l = l₁ ++ a :: l₂ ∧ f (before ++ l₁) a = some b ∧
      (filterMapBefore f before l₁).length = i := by
  induction l using List.reverseRecOn with
  | nil => cases h
  | append_singleton l a ih =>
      rw [filterMapBefore_snoc] at h
      by_cases hi : i < (filterMapBefore f before l).length
      · rw [List.getElem?_append_left hi] at h
        obtain ⟨l₁, c, l₂, rfl, hc, hlength⟩ := ih h
        refine ⟨l₁, c, l₂ ++ [a], ?_, hc, hlength⟩
        rw [List.append_assoc, List.cons_append]
      · rw [List.getElem?_append_right (Nat.le_of_not_lt hi)] at h
        cases hf : f (before ++ l) a with
        | none =>
            rw [hf] at h
            cases h
        | some c =>
            rw [hf, Option.toList_some, List.getElem?_singleton] at h
            split at h
            next hzero =>
              obtain rfl := Option.some.inj h
              exact ⟨l, a, [], rfl, hf, by omega⟩
            next => cases h

end Basis
