/-
KvCrucible/Basis/Run.lean

Runs of a labelled transition system together with their history.

A step consumes an input and reports an output; a history is the list of
both, oldest first.  `Run.invariant` packages the one induction every
safety argument over runs needs: a relation between history and state that
holds of the empty history and is kept by each step holds of every run.
-/
import Mathlib

namespace Basis

variable {σ ι ο : Type*}

/-- `Run step init h s`: consuming the inputs of `h` from `init`, with the
recorded outputs, ends in `s`. -/
inductive Run (step : σ → ι → ο → σ → Prop) (init : σ) : List (ι × ο) → σ → Prop
  | nil : Run step init [] init
  | snoc {h s i o s'} :
      Run step init h s → step s i o s' → Run step init (h ++ [(i, o)]) s'

variable {step : σ → ι → ο → σ → Prop} {init : σ}

/-- A relation between history and state that starts true and is kept by
every step is true of every run. -/
theorem Run.invariant (Inv : List (ι × ο) → σ → Prop) (hnil : Inv [] init)
    (hstep : ∀ {h s i o s'}, Run step init h s → Inv h s → step s i o s' →
      Inv (h ++ [(i, o)]) s') :
    ∀ {h s}, Run step init h s → Inv h s := by
  intro h s hrun
  induction hrun with
  | nil => exact hnil
  | snoc hrun hs ih => exact hstep hrun ih hs

/-- A state predicate that starts true and is kept by every step is true of
every reachable state. -/
theorem Run.invariant_state (Inv : σ → Prop) (hnil : Inv init)
    (hstep : ∀ {s i o s'}, Inv s → step s i o s' → Inv s') :
    ∀ {h s}, Run step init h s → Inv s := by
  intro h s hrun
  induction hrun with
  | nil => exact hnil
  | snoc _ hs ih => exact hstep ih hs

theorem Run.single {i : ι} {o : ο} {s : σ} (h : step init i o s) :
    Run step init [(i, o)] s :=
  Run.snoc .nil h

theorem Run.append {h₁ h₂ : List (ι × ο)} {s₁ s₂ : σ} (hr₁ : Run step init h₁ s₁)
    (hr₂ : Run step s₁ h₂ s₂) : Run step init (h₁ ++ h₂) s₂ := by
  induction hr₂ with
  | nil => simpa using hr₁
  | snoc _ hs ih =>
      rw [← List.append_assoc]
      exact ih.snoc hs

theorem Run.cons {i : ι} {o : ο} {h : List (ι × ο)} {s₁ s₂ : σ}
    (hs : step init i o s₁) (hr : Run step s₁ h s₂) : Run step init ((i, o) :: h) s₂ :=
  (Run.single hs).append hr

/-- The empty history leaves the state alone. -/
theorem Run.nil_iff {s : σ} : Run step init [] s ↔ s = init := by
  constructor
  · intro hr
    generalize e : ([] : List (ι × ο)) = h at hr
    cases hr with
    | nil => rfl
    | snoc _ _ => simp at e
  · rintro rfl
    exact .nil

/-- The last step of a run. -/
theorem Run.snoc_iff {h : List (ι × ο)} {i : ι} {o : ο} {s' : σ} :
    Run step init (h ++ [(i, o)]) s' ↔ ∃ s, Run step init h s ∧ step s i o s' := by
  constructor
  · intro hr
    generalize e : h ++ [(i, o)] = h' at hr
    cases hr with
    | nil => simp at e
    | snoc hr hs =>
        obtain ⟨rfl, he⟩ := List.append_inj' e rfl
        obtain ⟨rfl, rfl⟩ : i = _ ∧ o = _ := by simpa using he
        exact ⟨_, hr, hs⟩
  · rintro ⟨s, hr, hs⟩
    exact hr.snoc hs

/-- A run over a concatenated history passes through a state reached by its
first part. -/
theorem Run.append_iff {h₁ h₂ : List (ι × ο)} {s₂ : σ} :
    Run step init (h₁ ++ h₂) s₂ ↔ ∃ s₁, Run step init h₁ s₁ ∧ Run step s₁ h₂ s₂ := by
  constructor
  · induction h₂ using List.reverseRecOn generalizing s₂ with
    | nil =>
        intro hr
        exact ⟨s₂, by simpa using hr, .nil⟩
    | append_singleton h₂ e ih =>
        obtain ⟨i, o⟩ := e
        intro hr
        rw [← List.append_assoc, Run.snoc_iff] at hr
        obtain ⟨s, hr, hs⟩ := hr
        obtain ⟨s₁, hr₁, hr₂⟩ := ih hr
        exact ⟨s₁, hr₁, hr₂.snoc hs⟩
  · rintro ⟨s₁, hr₁, hr₂⟩
    exact hr₁.append hr₂

/-- The first step of a run. -/
theorem Run.cons_iff {i : ι} {o : ο} {h : List (ι × ο)} {s₂ : σ} :
    Run step init ((i, o) :: h) s₂ ↔ ∃ s₁, step init i o s₁ ∧ Run step s₁ h s₂ := by
  constructor
  · intro hr
    have hr' : Run step init ([(i, o)] ++ h) s₂ := hr
    obtain ⟨s₁, hr₁, hr₂⟩ := Run.append_iff.mp hr'
    have hr₁' : Run step init ([] ++ [(i, o)]) s₁ := hr₁
    obtain ⟨s, hs, hstep⟩ := Run.snoc_iff.mp hr₁'
    obtain rfl := Run.nil_iff.mp hs
    exact ⟨s₁, hstep, hr₂⟩
  · rintro ⟨s₁, hs, hr⟩
    exact Run.cons hs hr

end Basis
