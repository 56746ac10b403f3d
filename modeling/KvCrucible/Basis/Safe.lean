/-
KvCrucible/Basis/Safe.lean

Computations that never fail in a certain way.

`Safe Bad post` says of a result that it is no error of the kind `Bad`, and
that `post` holds if it is a value; other errors are allowed.  The rules follow
a computation step by step.

A loop uses up a supply: `xs a` is what the step at `a` needs, and the
invariant speaks about the state and what is left of the supply.
-/
import KvCrucible.Basis.Except

namespace Basis

universe u v

variable {ε : Type u} {α β σ : Type v} {ι ρ : Type*}

/-- No error of a kind, and a postcondition on success. -/
def Safe (Bad : ε → Prop) (post : α → Prop) : Except ε α → Prop
  | .ok a => post a
  | .error e => ¬ Bad e

variable {Bad : ε → Prop}

theorem safe_ok {post : α → Prop} {a : α} (h : post a) : Safe Bad post (.ok a) := h

theorem Safe.not_bad {post : α → Prop} {x : Except ε α} (h : Safe Bad post x) {e : ε}
    (he : x = .error e) : ¬ Bad e := by
  rw [he] at h
  exact h

theorem Safe.mono {p q : α → Prop} {x : Except ε α} (hx : Safe Bad p x) (h : ∀ a, p a → q a) :
    Safe Bad q x := by
  cases x with
  | error e => exact hx
  | ok a => exact h a hx

/-- One computation after another. -/
theorem Safe.bind {p : α → Prop} {q : β → Prop} {x : Except ε α} {f : α → Except ε β}
    (hx : Safe Bad p x) (hf : ∀ a, p a → Safe Bad q (f a)) : Safe Bad q (x >>= f) := by
  cases x with
  | error e => exact hx
  | ok a => exact hf a hx

/-- A check whose error is of another kind. -/
theorem safe_rejectIf {p : Prop} [Decidable p] {e : ε} (h : p → ¬ Bad e) :
    Safe Bad (fun _ => ¬ p) (rejectIf p e) := by
  by_cases hp : p
  · rw [rejectIf, if_pos hp]
    exact h hp
  · rw [rejectIf, if_neg hp]
    exact hp

/-- A check that does not fire. -/
theorem safe_pass {p : Prop} [Decidable p] {e : ε} (h : ¬ p) :
    Safe Bad (fun _ => True) (rejectIf p e) := by
  rw [rejectIf_neg h]
  trivial

/-- A loop of checks. -/
theorem safe_forM {as : List ι} {f : ι → Except ε PUnit}
    (h : ∀ a ∈ as, Safe Bad (fun _ => True) (f a)) :
    Safe Bad (fun _ => True) (as.forM f) := by
  induction as with
  | nil => exact trivial
  | cons a as ih =>
      obtain ⟨ha, has⟩ := List.forall_mem_cons.mp h
      exact ha.bind fun _ _ => ih has

/-- A loop that uses up a supply. -/
theorem safe_foldlM {Room : σ → List ρ → Prop} {xs : ι → List ρ} {f : σ → ι → Except ε σ}
    {as : List ι} : ∀ {s : σ} {rest : List ρ}, Room s (as.flatMap xs ++ rest) →
      (∀ a ∈ as, ∀ s rest, Room s (xs a ++ rest) → Safe Bad (fun s => Room s rest) (f s a)) →
        Safe Bad (fun s => Room s rest) (as.foldlM f s) := by
  induction as with
  | nil => exact fun h _ => h
  | cons a as ih =>
      intro s rest h hstep
      obtain ⟨ha, has⟩ := List.forall_mem_cons.mp hstep
      rw [List.flatMap_cons, List.append_assoc] at h
      rw [List.foldlM_cons]
      exact (ha s _ h).bind fun s' h' => ih h' has

end Basis
