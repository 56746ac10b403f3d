/-
KvCrucible/Basis/Except.lean

Successful results of fallible computations: peeling a bind, early
rejection, maps, loops, and the rules for a fallible fold that succeeds: an
invariant of its accumulator, a simulation by a pure fold, and an invariant
that also speaks about the part of the list consumed so far.

Two computations that fail in the same way and otherwise have related results
`Agree`; the rules for agreement follow a computation step by step.
-/
import Mathlib

namespace Basis

universe u v

variable {ε : Type u} {α β σ : Type v} {ι τ : Type*}

/-- A bind succeeds exactly when both parts do. -/
theorem bind_eq_ok {x : Except ε α} {f : α → Except ε β} {b : β} :
    (x >>= f) = .ok b ↔ ∃ a, x = .ok a ∧ f a = .ok b := by
  rcases x with e | a
  · simp [bind, Except.bind]
  · simp [bind, Except.bind]

theorem bind_ok {x : Except ε α} {f : α → Except ε β} {a : α} {b : β} (hx : x = .ok a)
    (hf : f a = .ok b) : (x >>= f) = .ok b :=
  bind_eq_ok.mpr ⟨a, hx, hf⟩

theorem bind_exists {x : Except ε α} {f : α → Except ε β} {a : α} (hx : x = .ok a)
    (hf : ∃ b, f a = .ok b) : ∃ b, (x >>= f) = .ok b :=
  hf.imp fun _ => bind_ok hx

theorem pure_eq_ok {a b : α} : (pure a : Except ε α) = .ok b ↔ a = b := by
  simp [pure, Except.pure]

/-- A test passes on the result of a computation. -/
theorem toOption_any {x : Except ε α} {p : α → Bool} :
    x.toOption.any p = true ↔ ∃ a, x = .ok a ∧ p a = true := by
  rcases x with e | a
  · simp [Except.toOption]
  · simp [Except.toOption]

/-- Relabelling errors keeps the successful results. -/
@[simp] theorem mapError_eq_ok {ε' : Type*} {f : ε → ε'} {x : Except ε α} {a : α} :
    x.mapError f = .ok a ↔ x = .ok a := by
  rcases x with e | b
  · simp [Except.mapError]
  · simp [Except.mapError]

/-- Fail with `e` when `p` holds: an early return of an error. -/
def rejectIf (p : Prop) [Decidable p] (e : ε) : Except ε Unit :=
  if p then .error e else .ok ()

@[simp] theorem rejectIf_eq_ok {p : Prop} [Decidable p] {e : ε} {u : Unit} :
    rejectIf p e = .ok u ↔ ¬ p := by
  unfold rejectIf
  split <;> simp [*]

/-- A check that does not fire. -/
theorem rejectIf_neg {p : Prop} [Decidable p] {e : ε} (h : ¬ p) : rejectIf p e = .ok () :=
  if_neg h

theorem rejectIf_eq_error {p : Prop} [Decidable p] {e e' : ε} :
    rejectIf p e = .error e' ↔ p ∧ e = e' := by
  unfold rejectIf
  by_cases h : p
  · simp [h]
  · simp [h]

/-- A computation and what follows it fail one or the other. -/
theorem bind_eq_error {x : Except ε α} {f : α → Except ε β} {e : ε}
    (h : (x >>= f) = .error e) : x = .error e ∨ ∃ a, x = .ok a ∧ f a = .error e := by
  cases x with
  | error failure => exact .inl (congrArg Except.error (Except.error.inj h))
  | ok a => exact .inr ⟨a, rfl, h⟩

theorem mapError_eq_error {ε' : Type*} {f : ε → ε'} {x : Except ε α} {e : ε'} :
    x.mapError f = .error e ↔ ∃ e', x = .error e' ∧ f e' = e := by
  cases x with
  | error e' => simp [Except.mapError]
  | ok a => simp [Except.mapError]

/-- Relabelling errors passes through a bind. -/
theorem mapError_bind {ε' : Type*} {g : ε → ε'} {x : Except ε α} {f : α → Except ε β} :
    (x >>= f).mapError g = (x.mapError g >>= fun a => (f a).mapError g) := by
  cases x <;> rfl

/-- An option turned into a result. -/
def okOr (value : Option α) (error : ε) : Except ε α :=
  match value with
  | some value => .ok value
  | none => .error error

@[simp] theorem okOr_eq_ok {value : Option α} {error : ε} {a : α} :
    okOr value error = .ok a ↔ value = some a := by
  cases value with
  | none => simp [okOr]
  | some b => simp [okOr]

theorem okOr_eq_error {value : Option α} {error error' : ε} :
    okOr value error = .error error' ↔ value = none ∧ error = error' := by
  cases value with
  | none => simp [okOr]
  | some a => simp [okOr]

/-- Two computations that go on alike after the same beginning. -/
theorem bind_map_same {α' β' : Type v} {x : Except ε α} {f : α → Except ε α'}
    {f' : α → Except ε β'} {g : α' → β'} (h : ∀ a, x = .ok a → f' a = (f a).map g) :
    (x >>= f') = (x >>= f).map g := by
  cases x with
  | error e => rfl
  | ok a => exact h a rfl

/-- Two computations that go on alike after beginnings that correspond. -/
theorem bind_map {α' β' : Type v} {x : Except ε α} {f : α → Except ε β} {f' : α' → Except ε β'}
    {g : α → α'} {g' : β → β'} (h : ∀ a, x = .ok a → f' (g a) = (f a).map g') :
    (x.map g >>= f') = (x >>= f).map g' := by
  cases x with
  | error e => rfl
  | ok a => exact h a rfl

/-! ### Maps and loops -/

/-- A fallible map succeeds exactly when it succeeds on every element. -/
theorem mapM_eq_ok {f : ι → Except ε α} {xs : List ι} :
    ∀ {ys : List α}, xs.mapM f = .ok ys ↔ List.Forall₂ (fun x y => f x = .ok y) xs ys := by
  induction xs with
  | nil =>
      intro ys
      rw [List.mapM_nil, pure_eq_ok, List.forall₂_nil_left_iff]
      exact eq_comm
  | cons x xs ih =>
      intro ys
      rw [List.mapM_cons]
      constructor
      · intro h
        obtain ⟨y, hy, h⟩ := bind_eq_ok.mp h
        obtain ⟨rest, hrest, h⟩ := bind_eq_ok.mp h
        obtain rfl := pure_eq_ok.mp h
        exact .cons hy (ih.mp hrest)
      · rintro (_ | ⟨hy, hrest⟩)
        exact bind_eq_ok.mpr ⟨_, hy, bind_eq_ok.mpr ⟨_, ih.mpr hrest, rfl⟩⟩

/-- A map whose every result is known. -/
theorem mapM_eq_map {f : ι → Except ε α} {g : ι → α} {xs : List ι}
    (h : ∀ x ∈ xs, f x = .ok (g x)) : xs.mapM f = .ok (xs.map g) := by
  induction xs with
  | nil => rfl
  | cons x xs ih =>
      have hrest := ih fun x' hx' => h x' (List.mem_cons_of_mem x hx')
      exact mapM_eq_ok.mpr (.cons (h x List.mem_cons_self) (mapM_eq_ok.mp hrest))

/-- A map whose every element succeeds. -/
theorem mapM_total {f : ι → Except ε α} {xs : List ι} (h : ∀ x ∈ xs, ∃ y, f x = .ok y) :
    ∃ ys, xs.mapM f = .ok ys := by
  induction xs with
  | nil => exact ⟨[], rfl⟩
  | cons x xs ih =>
      obtain ⟨y, hy⟩ := h x List.mem_cons_self
      obtain ⟨ys, hys⟩ := ih fun x' hx' => h x' (List.mem_cons_of_mem x hx')
      exact ⟨y :: ys, mapM_eq_ok.mpr (.cons hy (mapM_eq_ok.mp hys))⟩

/-- A map only looks at the elements it is given. -/
theorem mapM_congr_mem {f f' : ι → Except ε α} {xs : List ι} (h : ∀ x ∈ xs, f x = f' x) :
    xs.mapM f = xs.mapM f' := by
  induction xs with
  | nil => rfl
  | cons x xs ih =>
      obtain ⟨hx, hxs⟩ := List.forall_mem_cons.mp h
      rw [List.mapM_cons, List.mapM_cons, hx, ih hxs]

/-- Related lists have related elements at every position. -/
theorem getElem?_of_forall₂ {κ : Type*} {R : ι → κ → Prop} {xs : List ι} {ys : List κ}
    (h : List.Forall₂ R xs ys) {i : Nat} {y : κ} (hy : ys[i]? = some y) :
    ∃ x, xs[i]? = some x ∧ R x y := by
  obtain ⟨hlength, hget⟩ := List.forall₂_iff_get.mp h
  obtain ⟨hi, rfl⟩ := List.getElem?_eq_some_iff.mp hy
  have hi' : i < xs.length := by omega
  exact ⟨xs[i], List.getElem?_eq_getElem hi', hget i hi' hi⟩

/-- Every result of a fallible map comes from the element at its position. -/
theorem getElem?_of_mapM {f : ι → Except ε α} {xs : List ι} {ys : List α}
    (h : xs.mapM f = .ok ys) {i : Nat} {y : α} (hy : ys[i]? = some y) :
    ∃ x, xs[i]? = some x ∧ f x = .ok y :=
  getElem?_of_forall₂ (mapM_eq_ok.mp h) hy

/-- A loop without accumulator succeeds exactly when every round does. -/
theorem forM_eq_ok {f : ι → Except ε PUnit} {xs : List ι} :
    xs.forM f = .ok ⟨⟩ ↔ ∀ x ∈ xs, f x = .ok ⟨⟩ := by
  induction xs with
  | nil => exact ⟨fun _ => nofun, fun _ => rfl⟩
  | cons x xs ih =>
      rw [List.forall_mem_cons, ← ih]
      show (f x >>= fun _ => xs.forM f) = .ok ⟨⟩ ↔ _
      constructor
      · intro h
        obtain ⟨⟨⟩, hx, hxs⟩ := bind_eq_ok.mp h
        exact ⟨hx, hxs⟩
      · rintro ⟨hx, hxs⟩
        exact bind_eq_ok.mpr ⟨⟨⟩, hx, hxs⟩

/-! ### Folds -/

/-- A loop of checks fails at one of them. -/
theorem forM_eq_error {f : ι → Except ε PUnit} {xs : List ι} {e : ε} (h : xs.forM f = .error e) :
    ∃ x ∈ xs, f x = .error e := by
  induction xs with
  | nil => cases h
  | cons x xs ih =>
      rcases bind_eq_error h with hx | ⟨_, -, hxs⟩
      · exact ⟨x, List.mem_cons_self, hx⟩
      · obtain ⟨y, hy, herror⟩ := ih hxs
        exact ⟨y, List.mem_cons_of_mem _ hy, herror⟩

/-- A loop that fails does so at one element, after those before it. -/
theorem foldlM_eq_error {f : σ → ι → Except ε σ} {l : List ι} : ∀ {s : σ} {e : ε},
    l.foldlM f s = .error e → ∃ before a after t, l = before ++ a :: after ∧
      before.foldlM f s = .ok t ∧ f t a = .error e := by
  induction l with
  | nil =>
      intro s e h
      cases h
  | cons a l ih =>
      intro s e h
      rw [List.foldlM_cons] at h
      rcases bind_eq_error h with hfirst | ⟨t, hfirst, hrest⟩
      · exact ⟨[], a, l, s, rfl, rfl, hfirst⟩
      · obtain ⟨before, b, after, t', rfl, hbefore, hb⟩ := ih hrest
        refine ⟨a :: before, b, after, t', rfl, ?_, hb⟩
        rw [List.foldlM_cons]
        exact bind_ok hfirst hbefore

/-- What every successful step keeps, a successful fold keeps. -/
theorem foldlM_invariant {f : σ → ι → Except ε σ} {Inv : σ → Prop} {l : List ι}
    (hstep : ∀ a ∈ l, ∀ {s s'}, Inv s → f s a = .ok s' → Inv s') :
    ∀ {s s'}, Inv s → l.foldlM f s = .ok s' → Inv s' := by
  induction l with
  | nil =>
      intro s s' hs h
      obtain rfl := pure_eq_ok.mp h
      exact hs
  | cons a l ih =>
      intro s s' hs h
      rw [List.foldlM_cons] at h
      obtain ⟨s₁, h₁, h₂⟩ := bind_eq_ok.mp h
      exact ih (fun b hb => hstep b (List.mem_cons_of_mem _ hb))
        (hstep a List.mem_cons_self hs h₁) h₂

/-- A fallible fold whose successful steps are simulated by a pure function
is simulated by the pure fold. -/
theorem foldlM_simulation {f : σ → ι → Except ε σ} {g : τ → ι → τ} {Rel : σ → τ → Prop}
    {l : List ι}
    (hstep : ∀ a ∈ l, ∀ {s s' t}, Rel s t → f s a = .ok s' → Rel s' (g t a)) :
    ∀ {s s' t}, Rel s t → l.foldlM f s = .ok s' → Rel s' (l.foldl g t) := by
  induction l with
  | nil =>
      intro s s' t hs h
      obtain rfl := pure_eq_ok.mp h
      exact hs
  | cons a l ih =>
      intro s s' t hs h
      rw [List.foldlM_cons] at h
      obtain ⟨s₁, h₁, h₂⟩ := bind_eq_ok.mp h
      exact ih (fun b hb => hstep b (List.mem_cons_of_mem _ hb))
        (hstep a List.mem_cons_self hs h₁) h₂

/-- A fold whose steps commute with a map, as long as they keep an invariant,
commutes with it. -/
theorem foldlM_map_state {f : σ → ι → Except ε σ} {f' : τ → ι → Except ε τ} {g : σ → τ}
    (Inv : σ → Prop) {l : List ι}
    (hstep : ∀ a ∈ l, ∀ s, Inv s → f' (g s) a = (f s a).map g ∧ ∀ s', f s a = .ok s' → Inv s') :
    ∀ s, Inv s → l.foldlM f' (g s) = (l.foldlM f s).map g := by
  induction l with
  | nil => exact fun _ _ => rfl
  | cons a l ih =>
      intro s hs
      obtain ⟨hcommutes, hkeeps⟩ := hstep a List.mem_cons_self s hs
      rw [List.foldlM_cons, List.foldlM_cons, hcommutes]
      cases hresult : f s a with
      | error e => rfl
      | ok s' =>
          exact ih (fun b hb => hstep b (List.mem_cons_of_mem _ hb)) s' (hkeeps s' hresult)

/-- A relation between the consumed elements and the accumulator that every
successful step keeps holds after a successful fold. -/
theorem foldlM_consumed {f : σ → ι → Except ε σ} (Inv : List ι → σ → Prop) {l : List ι}
    (hstep : ∀ {before a s s'}, Inv before s → f s a = .ok s' → Inv (before ++ [a]) s') :
    ∀ {before s s'}, Inv before s → l.foldlM f s = .ok s' → Inv (before ++ l) s' := by
  induction l with
  | nil =>
      intro before s s' hs h
      obtain rfl := pure_eq_ok.mp h
      rwa [List.append_nil]
  | cons a l ih =>
      intro before s s' hs h
      rw [List.foldlM_cons] at h
      obtain ⟨s₁, h₁, h₂⟩ := bind_eq_ok.mp h
      have hrest := ih (hstep hs h₁) h₂
      rwa [List.append_assoc] at hrest

/-- What every successful step finds in its element, a successful fold finds
in all of them. -/
theorem foldlM_forall {f : σ → ι → Except ε σ} {P : ι → Prop} {l : List ι}
    (hstep : ∀ {a s s'}, f s a = .ok s' → P a) {s s' : σ} (h : l.foldlM f s = .ok s') :
    ∀ a ∈ l, P a := by
  have hall := foldlM_consumed (fun before _ => ∀ a ∈ before, P a)
    (fun {before a s s'} hbefore hs => by
      rw [List.forall_mem_append, List.forall_mem_singleton]
      exact ⟨hbefore, hstep hs⟩) (List.forall_mem_nil _) h
  exact hall

/-- How a fold can fail when every step can only fail in certain ways.  The
invariant grants a budget, from which a step takes its `cost`. -/
theorem foldlM_error_budget {M : Type*} [AddMonoid M] {f : σ → ι → Except ε σ}
    {Inv : M → σ → Prop} {P : ε → Prop} {cost : ι → M} {l : List ι}
    (hok : ∀ i ∈ l, ∀ {budget s s'}, Inv (cost i + budget) s → f s i = .ok s' → Inv budget s')
    (herror : ∀ i ∈ l, ∀ {budget s e}, Inv (cost i + budget) s → f s i = .error e → P e) :
    ∀ {budget s e}, Inv ((l.map cost).sum + budget) s → l.foldlM f s = .error e → P e := by
  induction l with
  | nil =>
      intro budget s e _ h
      cases h
  | cons i l ih =>
      intro budget s e hs h
      rw [List.map_cons, List.sum_cons, add_assoc] at hs
      rw [List.foldlM_cons] at h
      rcases hstep : f s i with failure | s₁
      · obtain rfl : failure = e := by simpa [hstep, Bind.bind, Except.bind] using h
        exact herror i List.mem_cons_self hs hstep
      · rw [hstep] at h
        exact ih (fun j hj => hok j (List.mem_cons_of_mem _ hj))
          (fun j hj => herror j (List.mem_cons_of_mem _ hj))
          (hok i List.mem_cons_self hs hstep) h

/-- What is left of a budget after a successful fold. -/
theorem foldlM_ok_budget {M : Type*} [AddMonoid M] {f : σ → ι → Except ε σ}
    {Inv : M → σ → Prop} {cost : ι → M} {l : List ι}
    (hok : ∀ i ∈ l, ∀ {budget s s'}, Inv (cost i + budget) s → f s i = .ok s' → Inv budget s') :
    ∀ {budget s s'}, Inv ((l.map cost).sum + budget) s → l.foldlM f s = .ok s' →
      Inv budget s' := by
  induction l with
  | nil =>
      intro budget s s' hs h
      obtain rfl := pure_eq_ok.mp h
      simpa using hs
  | cons i l ih =>
      intro budget s s' hs h
      rw [List.map_cons, List.sum_cons, add_assoc] at hs
      rw [List.foldlM_cons] at h
      obtain ⟨s₁, h₁, h⟩ := bind_eq_ok.mp h
      exact ih (fun j hj => hok j (List.mem_cons_of_mem _ hj)) (hok i List.mem_cons_self hs h₁) h

/-! ### Agreement -/

/-- Both computations fail with the same error, or both succeed with related
results. -/
inductive Agree {ε α β : Type*} (R : α → β → Prop) : Except ε α → Except ε β → Prop
  | ok {a : α} {b : β} (h : R a b) : Agree R (.ok a) (.ok b)
  | error (e : ε) : Agree R (.error e) (.error e)

section Agreement

variable {ε : Type*} {α β α' β' : Type u} {R : α → β → Prop} {S : α' → β' → Prop}

theorem Agree.bind {x : Except ε α} {y : Except ε β} {f : α → Except ε α'} {g : β → Except ε β'}
    (hxy : Agree R x y) (hfg : ∀ a b, R a b → Agree S (f a) (g b)) :
    Agree S (x >>= f) (y >>= g) := by
  cases hxy with
  | ok h => exact hfg _ _ h
  | error e => exact .error e

theorem Agree.refl (x : Except ε α) : Agree Eq x x := by
  cases x with
  | error e => exact .error e
  | ok a => exact .ok rfl

theorem Agree.mono {R' : α → β → Prop} {x : Except ε α} {y : Except ε β} (hxy : Agree R x y)
    (h : ∀ a b, R a b → R' a b) : Agree R' x y := by
  cases hxy with
  | ok hR => exact .ok (h _ _ hR)
  | error e => exact .error e

theorem Agree.trans {γ : Type u} {T : β → γ → Prop} {x : Except ε α} {y : Except ε β}
    {z : Except ε γ} (hxy : Agree R x y) (hyz : Agree T y z) :
    Agree (fun a c => ∃ b, R a b ∧ T b c) x z := by
  cases hxy with
  | ok h =>
      cases hyz with
      | ok h' => exact .ok ⟨_, h, h'⟩
  | error e =>
      cases hyz with
      | error e => exact .error e

theorem Agree.symm {x : Except ε α} {y : Except ε β} (hxy : Agree R x y) :
    Agree (fun b a => R a b) y x := by
  cases hxy with
  | ok h => exact .ok h
  | error e => exact .error e

/-- The related results are those of the two computations. -/
theorem Agree.results {x : Except ε α} {y : Except ε β} (hxy : Agree R x y) :
    Agree (fun a b => R a b ∧ x = .ok a ∧ y = .ok b) x y := by
  cases hxy with
  | ok h => exact .ok ⟨h, rfl, rfl⟩
  | error e => exact .error e

theorem Agree.mapError {ε' : Type*} {g : ε → ε'} {x : Except ε α} {y : Except ε β}
    (hxy : Agree R x y) : Agree R (x.mapError g) (y.mapError g) := by
  cases hxy with
  | ok h => exact .ok h
  | error e => exact .error (g e)

/-- A map over the results of one side. -/
theorem Agree.map_right {γ : Type u} {T : α → γ → Prop} {x : Except ε α} {y : Except ε β}
    {g : β → γ} (hxy : Agree R x y) (h : ∀ a b, R a b → T a (g b)) : Agree T x (y.map g) := by
  cases hxy with
  | ok hR => exact .ok (h _ _ hR)
  | error e => exact .error e

/-- Folds agree when every step does.  `cost` is what a step takes from the
budget that the relation still grants. -/
theorem Agree.foldlM_budget {M : Type*} [AddMonoid M] {R : M → α → β → Prop}
    {f : α → ι → Except ε α} {g : β → ι → Except ε β} {cost : ι → M} {l : List ι}
    (hstep : ∀ i ∈ l, ∀ {budget a b}, R (cost i + budget) a b →
      Agree (R budget) (f a i) (g b i)) :
    ∀ {budget a b}, R ((l.map cost).sum + budget) a b →
      Agree (R budget) (l.foldlM f a) (l.foldlM g b) := by
  induction l with
  | nil =>
      intro budget a b h
      have h' : R budget a b := by simpa using h
      exact .ok h'
  | cons i l ih =>
      intro budget a b h
      rw [List.map_cons, List.sum_cons, add_assoc] at h
      rw [List.foldlM_cons, List.foldlM_cons]
      refine (hstep i List.mem_cons_self h).bind fun a' b' h' => ?_
      exact ih (fun j hj => hstep j (List.mem_cons_of_mem _ hj)) h'

end Agreement

end Basis
