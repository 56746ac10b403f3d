/-
KvCrucible/Basis/Budget.lean

Checks that spend from a budget.

A check walks over a value, stops at the first violated requirement and adds
what it met to counters in its state, which it compares with ceilings on the
way.  `Spends` says what such a check amounts to: it passes exactly when its
requirement holds and the whole cost can be spent, and then it has spent that
cost.  Neither the order of the steps nor the place of a comparison matters for
whether a check passes (`Spends.bind`), because a budget that was exceeded once
stays exceeded (`within_of_add`).
-/
import Mathlib
import KvCrucible.Basis.Except

namespace Basis

universe u

/-- A state with counters that costs are added to. -/
structure Budget (σ : Type) (M : Type*) [AddCommMonoid M] where
  spend : M → σ → σ
  Within : σ → Prop
  spend_zero : ∀ s, Within s → spend 0 s = s
  spend_add : ∀ a b s, spend (a + b) s = spend b (spend a s)
  within_of_add : ∀ a b s, Within (spend (a + b) s) → Within (spend a s)

variable {ε : Type u} {σ : Type} {M : Type*} [AddCommMonoid M] {B : Budget σ M}

/-- A check with this requirement and this cost. -/
def Spends (B : Budget σ M) (check : σ → Except ε σ) (need : Prop) (cost : M) : Prop :=
  ∀ s, B.Within s → ∀ s', check s = .ok s' ↔
    need ∧ B.Within (B.spend cost s) ∧ s' = B.spend cost s

variable {check check' : σ → Except ε σ} {need need' : Prop} {cost cost' : M}

/-- A check that does nothing. -/
theorem spends_ok : Spends B (fun s => (.ok s : Except ε σ)) True 0 := by
  intro s hs s'
  rw [B.spend_zero s hs, Except.ok.injEq]
  exact ⟨fun h => ⟨trivial, hs, h.symm⟩, fun h => h.2.2.symm⟩

/-- One check after another. -/
theorem Spends.bind (h : Spends B check need cost) (h' : Spends B check' need' cost') :
    Spends B (fun s => check s >>= check') (need ∧ need') (cost + cost') := by
  intro s hs s'
  rw [bind_eq_ok, B.spend_add]
  constructor
  · rintro ⟨t, ht, hs'⟩
    obtain ⟨hneed, hwithin, rfl⟩ := (h s hs t).mp ht
    obtain ⟨hneed', hwithin', rfl⟩ := (h' _ hwithin s').mp hs'
    exact ⟨⟨hneed, hneed'⟩, hwithin', rfl⟩
  · rintro ⟨⟨hneed, hneed'⟩, hwithin', rfl⟩
    -- what was within at the end was within in between
    have hwithin : B.Within (B.spend cost s) := by
      apply B.within_of_add cost cost'
      rw [B.spend_add]
      exact hwithin'
    exact ⟨_, (h s hs _).mpr ⟨hneed, hwithin, rfl⟩, (h' _ hwithin _).mpr ⟨hneed', hwithin', rfl⟩⟩

/-- A check that costs nothing, before another. -/
theorem Spends.after {unit : σ → Except ε Unit}
    (hunit : ∀ s, B.Within s → (unit s = .ok () ↔ need)) (h : Spends B check need' cost) :
    Spends B (fun s => unit s >>= fun _ => check s) (need ∧ need') cost := by
  intro s hs s'
  rw [bind_eq_ok, and_assoc, ← h s hs s', ← hunit s hs]
  exact ⟨fun ⟨_, hunit, hcheck⟩ => ⟨hunit, hcheck⟩, fun ⟨hunit, hcheck⟩ => ⟨_, hunit, hcheck⟩⟩

/-- A requirement before a check. -/
theorem Spends.guard {bad : σ → Prop} [DecidablePred bad] {error : σ → ε}
    (hbad : ∀ s, B.Within s → (bad s ↔ ¬ need)) (h : Spends B check need' cost) :
    Spends B (fun s => rejectIf (bad s) (error s) >>= fun _ => check s) (need ∧ need') cost := by
  apply Spends.after
  · intro s hs
    rw [rejectIf_eq_ok, hbad s hs, not_not]
  · exact h

/-- The same requirement and cost, said in another way. -/
theorem Spends.cast (h : Spends B check need cost) (hneed : need ↔ need') (hcost : cost = cost') :
    Spends B check need' cost' := by
  subst hcost
  intro s hs s'
  rw [← hneed]
  exact h s hs s'

/-- A loop of checks. -/
theorem spends_foldlM {ι : Type*} {step : σ → ι → Except ε σ} {need : ι → Prop} {cost : ι → M}
    {xs : List ι} (h : ∀ x ∈ xs, Spends B (fun s => step s x) (need x) (cost x)) :
    Spends B (fun s => xs.foldlM step s) (∀ x ∈ xs, need x) (xs.map cost).sum := by
  induction xs with
  | nil =>
      apply spends_ok.cast
      · exact ⟨fun _ => List.forall_mem_nil _, fun _ => trivial⟩
      · rfl
  | cons x xs ih =>
      obtain ⟨hx, hxs⟩ := List.forall_mem_cons.mp h
      simp only [List.foldlM_cons]
      apply (hx.bind (ih hxs)).cast
      · exact List.forall_mem_cons.symm
      · rw [List.map_cons, List.sum_cons]

end Basis
