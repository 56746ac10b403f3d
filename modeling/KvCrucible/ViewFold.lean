/-
KvCrucible/ViewFold.lean

The cache view is the engine-order fold of what was delivered first.

An assignment `P` of mutation lists to cursors agrees with a history when it
gives every delivered cursor its first payload.  `engineFold` runs such an
assignment in cursor order.  Along every run the view is `engineFold` through
the frontier, whatever `P` says about cursors that never arrived: those are
passed only by a clear, which makes the fold forget them.
-/
import KvCrucible.Basis.LogFold
import KvCrucible.History

namespace KvCrucible

open Basis Std

variable {canon : Canonical}

/-- The key set after running the payloads at cursors `lo ≤ c < hi` in order. -/
def engineFold (P : Nat → List Mutation) (lo hi : Nat) (keys : Finset CacheKey) :
    Finset CacheKey :=
  foldLog runMutations P lo hi keys

/-- `P` gives every delivered cursor the first payload delivered there. -/
def Agrees (P : Nat → List Mutation) (history : History canon) : Prop :=
  ∀ c source, firstAt history c = some source → P c = source.mutations

theorem Agrees.of_snoc {P : Nat → List Mutation} {history : History canon}
    {x : PreparedEnvelope canon × Disposition} (h : Agrees P (history ++ [x])) :
    Agrees P history :=
  fun c source hsource => h c source (firstAt_snoc_of_some hsource)

/-- Folding payloads that `P` assigns to consecutive cursors extends the
engine fold over these cursors. -/
theorem engineFold_add {P : Nat → List Mutation} {lo hi : Nat} (hle : lo ≤ hi)
    {sources : List (PreparedEnvelope canon)}
    (h : ∀ k, ∀ hk : k < sources.length, P (hi + k) = sources[k].mutations)
    (keys : Finset CacheKey) :
    engineFold P lo (hi + sources.length) keys =
      StreamState.foldSources sources (engineFold P lo hi keys) := by
  have hentries : ∀ k, ∀ hk : k < (sources.map fun source => source.mutations).length,
      P (hi + k) = (sources.map fun source => source.mutations)[k] := by
    intro k hk
    rw [List.getElem_map]
    exact h k (by simpa using hk)
  have hadd : engineFold P lo (hi + (sources.map fun source => source.mutations).length) keys = _ :=
    foldLog_add P hle _ keys hentries
  rw [List.length_map, List.foldl_map] at hadd
  exact hadd

namespace StreamState

variable {s s' : StreamState canon} {e : PreparedEnvelope canon} {d : Disposition}
  {history : History canon} {P : Nat → List Mutation}

/-- The view is the engine fold up to the next cursor: from the empty set
under a trusted baseline, from any set once an unknown one was anchored. -/
structure Folded (trusted : Bool) (P : Nat → List Mutation) (s : StreamState canon) : Prop where
  view : s.baselineUnknown = false → ∀ keys, (trusted = true → keys = ∅) →
    s.view.keys = engineFold P s.initialCursor s.next keys
  trusted_known : trusted = true → s.baselineUnknown = false
  anchored : trusted = false → s.baselineUnknown = false → s.frontier ≠ none

theorem Folded.fresh (blueprint : StreamBlueprint) (P : Nat → List Mutation) :
    (fromBlueprint blueprint : StreamState canon).Folded
      (decide (blueprint.registration.authority = .trustDeclaredEmpty)) P where
  view := fun hknown keys hkeys => by
    have htrusted : decide (blueprint.registration.authority = .trustDeclaredEmpty) = true := by
      simpa [fromBlueprint] using hknown
    rw [hkeys htrusted]
    show ∅ = engineFold P _ _ ∅
    exact (foldLog_self P _ _).symm
  trusted_known := fun h => by simpa [fromBlueprint] using h
  anchored := fun h hknown => by
    have hunknown : (fromBlueprint blueprint : StreamState canon).baselineUnknown = true := by
      simpa [fromBlueprint] using h
    rw [hunknown] at hknown
    cases hknown

/-- Steps that fold nothing. -/
theorem Folded.quiet {trusted : Bool} (hf : s.Folded trusted P) (h : s.Quiet s') :
    s'.Folded trusted P where
  view := fun hknown => by
    rw [h.view, h.next_eq, h.initialCursor]
    exact hf.view (h.baselineUnknown ▸ hknown)
  trusted_known := fun ht => by
    rw [h.baselineUnknown]
    exact hf.trusted_known ht
  anchored := fun ht hknown => by
    rw [h.frontier]
    exact hf.anchored ht (h.baselineUnknown ▸ hknown)

/-- Folding a delivery and the candidates behind it. -/
theorem Folded.application {trusted barrier : Bool} {sources : List (PreparedEnvelope canon)}
    {cache : CacheTransaction} (hf : s.Folded trusted P) (hs : s.Invariant)
    (hd : Delivered history s) (h : Invariant.Reaches s e barrier)
    (happ : s.Application e barrier sources cache s')
    (hP : Agrees P (history ++ [(e, d)])) : s'.Folded trusted P where
  view := fun hknown keys hkeys => by
    -- `P` assigns the delivery and the drained candidates to their cursors
    have hassign : ∀ k, ∀ hk : k < (e :: sources).length,
        P (e.cursor + k) = (e :: sources)[k].mutations := by
      intro k hk
      cases k with
      | zero => exact hP _ _ (firstAt_snoc_self (hd.fresh h.fresh h.next_le h.unblocked))
      | succ k =>
          have hk' : k < sources.length := by simpa using hk
          obtain ⟨-, hfirst, -⟩ := hd.drained_first hs happ hk'
          have hcursor : e.cursor + (k + 1) = e.cursor + 1 + k := by omega
          rw [hcursor]
          exact hP _ _ (firstAt_snoc_of_some hfirst)
    have hle : s.initialCursor ≤ e.cursor := hs.initialCursor_le.trans h.next_le
    have hnext : s'.next = e.cursor + (e :: sources).length := by
      rw [happ.next_eq, List.length_cons]
      omega
    rw [(happ.view_ok hs.view).1, happ.initialCursor, hnext, engineFold_add hle hassign]
    cases barrier with
    | true =>
        -- the payload at the barrier resets whatever was folded before it
        show foldSources sources (runMutations e.mutations _) =
          foldSources sources (runMutations e.mutations _)
        rw [happ.reset]
    | false =>
        rw [happ.baselineUnknown] at hknown
        have hcursor : e.cursor = s.next := by
          rcases h.where_ rfl with heq | ⟨hunknown, -⟩
          · exact heq
          · rw [hunknown] at hknown
            cases hknown
        rw [hf.view hknown keys hkeys, hcursor]
  trusted_known := fun ht => by
    rw [happ.baselineUnknown]
    cases barrier with
    | true => rfl
    | false => exact hf.trusted_known ht
  anchored := fun _ _ => by
    rw [happ.frontier]
    exact Option.some_ne_none _

theorem Folded.step {trusted : Bool} (hf : s.Folded trusted P) (hs : s.Invariant)
    (hd : Delivered history s) (h : s.Step e d s') (hP : Agrees P (history ++ [(e, d)])) :
    s'.Folded trusted P := by
  rcases h.quiet_or_folds with ⟨-, -, hquiet⟩ | ⟨barrier, sources, cache, -, hreaches, happ⟩
  · exact hf.quiet hquiet
  · exact hf.application hs hd hreaches happ hP

variable {blueprint : StreamBlueprint}

theorem folded_run (hr : RunFrom (fromBlueprint blueprint) history s) (hP : Agrees P history) :
    s.Folded (decide (blueprint.registration.authority = .trustDeclaredEmpty)) P := by
  induction hr with
  | nil => exact Folded.fresh blueprint P
  | snoc hr h ih =>
      obtain ⟨hs, hd⟩ := delivered_run hr
      exact (ih hP.of_snoc).step hs hd (Admits.step h) hP

/-- The key set through an optional frontier. -/
def foldThrough (P : Nat → List Mutation) (initialCursor : Nat) (frontier : Option Nat)
    (keys : Finset CacheKey) : Finset CacheKey :=
  match frontier with
  | none => keys
  | some f => engineFold P initialCursor (f + 1) keys

theorem engineFold_next (P : Nat → List Mutation) (keys : Finset CacheKey) :
    engineFold P s.initialCursor s.next keys =
      foldThrough P s.initialCursor s.frontier keys := by
  cases hf : s.frontier with
  | none =>
      rw [next_of_none hf]
      exact foldLog_self P _ _
  | some f =>
      rw [next_of_some hf]
      rfl

/-- Two runs of one stream that reached the same frontier with the same
payloads show the same view. -/
theorem view_congr {s₁ s₂ : StreamState canon} {h₁ h₂ : History canon}
    (hr₁ : RunFrom (fromBlueprint blueprint) h₁ s₁) (hr₂ : RunFrom (fromBlueprint blueprint) h₂ s₂)
    (hP₁ : Agrees P h₁) (hP₂ : Agrees P h₂) (hknown₁ : s₁.baselineUnknown = false)
    (hknown₂ : s₂.baselineUnknown = false) (hfrontier : s₁.frontier = s₂.frontier) :
    s₁.view = s₂.view := by
  have hinit : s₁.initialCursor = s₂.initialCursor :=
    (same_run hr₁).initialCursor.trans (same_run hr₂).initialCursor.symm
  have hscope : s₁.view.scope = s₂.view.scope :=
    (same_run hr₁).scope.trans (same_run hr₂).scope.symm
  have hkeys : s₁.view.keys = s₂.view.keys := by
    rw [(folded_run hr₁ hP₁).view hknown₁ ∅ fun _ => rfl,
      (folded_run hr₂ hP₂).view hknown₂ ∅ fun _ => rfl, engineFold_next, engineFold_next,
      hfrontier, hinit]
  have hbytes : s₁.view.identityBytes = s₂.view.identityBytes := by
    rw [(invariant_run hr₁).view.identityBytes, (invariant_run hr₂).view.identityBytes, hkeys]
  exact CacheView.ext hscope hkeys hbytes

/-- The view of every run is the in-order fold of the first payloads: from
the empty set through the frontier under a trusted baseline, and from every
initial key set once an unknown baseline was cleared; in particular whenever
the view is authoritative. -/
theorem view_is_fold_of_first_deliveries
    (hr : RunFrom (fromBlueprint blueprint) history s)
    (hP : ∀ c source, firstAt history c = some source → P c = source.mutations) :
    (blueprint.registration.authority = .trustDeclaredEmpty →
      s.view.keys = foldThrough P blueprint.registration.initialCursor s.frontier ∅) ∧
    (blueprint.registration.authority = .treatAsUnknown → s.baselineUnknown = false →
      ∃ f, s.frontier = some f ∧ ∀ keys,
        s.view.keys = engineFold P blueprint.registration.initialCursor (f + 1) keys) ∧
    (s.viewAuthoritative = true → ∀ keys,
      (blueprint.registration.authority = .trustDeclaredEmpty → keys = ∅) →
      s.view.keys = foldThrough P blueprint.registration.initialCursor s.frontier keys) := by
  have hf := folded_run hr hP
  have hinit : s.initialCursor = blueprint.registration.initialCursor :=
    (same_run hr).initialCursor
  have hview : s.baselineUnknown = false → ∀ keys,
      (blueprint.registration.authority = .trustDeclaredEmpty → keys = ∅) →
      s.view.keys = foldThrough P blueprint.registration.initialCursor s.frontier keys := by
    intro hknown keys hkeys
    rw [← hinit, ← engineFold_next]
    exact hf.view hknown keys fun ht => hkeys (by simpa using ht)
  refine ⟨fun ht => ?_, fun hu hknown => ?_, fun hauth => ?_⟩
  · exact hview (hf.trusted_known (by simpa using ht)) ∅ fun _ => rfl
  · have hne : s.frontier ≠ none := hf.anchored (by simp [hu]) hknown
    obtain ⟨f, hfrontier⟩ := Option.ne_none_iff_exists'.mp hne
    refine ⟨f, hfrontier, fun keys => ?_⟩
    have h := hview hknown keys fun ht => by simp [hu] at ht
    rwa [hfrontier] at h
  · exact hview ((invariant_run hr).authority hauth)

/-- A store that arrives before its predecessor is folded behind it: the
frontier is at the second cursor and both keys are there. -/
theorem view_is_fold_of_swapped_deliveries :
    (Sample.deliver (Sample.fresh .default) [Sample.early, Sample.late]).frontier = some 1 ∧
    (Sample.deliver (Sample.fresh .default) [Sample.early, Sample.late]).view.keys =
      foldThrough (fun c => if c = 0 then [Sample.store 1] else [Sample.store 2]) 0 (some 1) ∅ ∧
    (Sample.deliver (Sample.fresh .default) [Sample.early, Sample.late]).view.keys =
      {⟨.unspecified, .unspecified, .u64 ⟨1⟩⟩, ⟨.unspecified, .unspecified, .u64 ⟨2⟩⟩} := by
  have hfrontier : (Sample.deliver (Sample.fresh .default) [Sample.early, Sample.late]).frontier =
      some 1 := by decide +kernel
  have hpayloads : ∀ c first, firstAt [(Sample.early, Disposition.buffered),
      (Sample.late, .applied)] c = some first →
      (fun c => if c = 0 then [Sample.store 1] else [Sample.store 2]) c = first.mutations := by
    intro c first hfirst
    obtain ⟨rfl, d, hmem⟩ := firstAt_mem hfirst
    simp only [List.mem_cons, List.not_mem_nil, or_false, Prod.mk.injEq] at hmem
    rcases hmem with ⟨rfl, -⟩ | ⟨rfl, -⟩
    · rfl
    · rfl
  have hview := (view_is_fold_of_first_deliveries Sample.swapped_run hpayloads).1 rfl
  rw [hfrontier] at hview
  refine ⟨hfrontier, hview, hview.trans ?_⟩
  decide +kernel

end StreamState

end KvCrucible
