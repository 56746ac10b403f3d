/-
KvCrucible/Forgetting.lean

A barrier forgets the history before it.

What a barrier at `cursor` takes over from the state it meets is its
`remainder`: the pending slots above the cursor and the ceilings that reach
it.  Two states of one stream with the same remainder drain the same
candidates (`drained_iff_of_remainder`), and the barrier leaves them equal in
every field but the diagnostics.
-/
import KvCrucible.Batching

namespace KvCrucible

open Basis Std

namespace StreamState

variable {canon : Canonical} {s s' t t' : StreamState canon} {e : PreparedEnvelope canon}
  {sources : List (PreparedEnvelope canon)} {blueprint : StreamBlueprint}

/-! ### What a barrier takes over -/

/-- Two states that agree on the pending slots above a cursor and on the
ceilings that reach it. -/
structure SameRemainder (cursor : Nat) (s t : StreamState canon) : Prop where
  pending : ∀ c, cursor < c → s.pending[c]? = t.pending[c]?
  equivocationCeiling : dropBelow s.equivocationCeiling cursor s.equivocationCeiling =
    dropBelow t.equivocationCeiling cursor t.equivocationCeiling
  unavailableFloor : dropBelow s.unavailableCeiling cursor s.unavailableFloor =
    dropBelow t.unavailableCeiling cursor t.unavailableFloor
  unavailableCeiling : dropBelow s.unavailableCeiling cursor s.unavailableCeiling =
    dropBelow t.unavailableCeiling cursor t.unavailableCeiling

/-- Whether the drain behind a barrier stops at the floor depends on the floor
that the barrier leaves. -/
theorem stopsAtFloor_iff {cursor next : Nat} :
    (s.supersedes cursor true = false ∧ s.floorReached next = true) ↔
      ∃ lo, dropBelow s.unavailableCeiling cursor s.unavailableFloor = some lo ∧ lo ≤ next := by
  cases hceiling : s.unavailableCeiling with
  | none => simp [supersedes, hceiling, dropBelow, floorReached_iff]
  | some hi =>
      by_cases h : hi < cursor
      · simp [supersedes, hceiling, dropBelow, h]
      · simp [supersedes, hceiling, dropBelow, h, floorReached_iff]

/-- With the same remainder a barrier drains the same candidates. -/
theorem SameRemainder.drained (h : SameRemainder e.cursor s t)
    (hs : s.Drained (s.supersedes e.cursor true) e.cursor sources) :
    t.Drained (t.supersedes e.cursor true) e.cursor sources := by
  have hfloor : ∀ next, (s.supersedes e.cursor true = false ∧ s.floorReached next = true) ↔
      (t.supersedes e.cursor true = false ∧ t.floorReached next = true) := by
    intro next
    rw [stopsAtFloor_iff, stopsAtFloor_iff, h.unavailableFloor]
  refine ⟨fun k hk => ?_, fun k hk hsup => ?_, ?_, hs.le_max⟩
  · rw [← h.pending _ (by omega)]
    exact hs.pending k hk
  · rw [Bool.eq_false_iff]
    intro hreached
    obtain ⟨hsup', hreached'⟩ := (hfloor _).mpr ⟨hsup, hreached⟩
    rw [hs.floor k hk hsup'] at hreached'
    cases hreached'
  · rcases hs.stop with hmax | hstop | hnone
    · exact .inl hmax
    · exact .inr (.inl ((hfloor _).mp hstop))
    · refine .inr (.inr fun source => ?_)
      rw [← h.pending _ (by omega)]
      exact hnone source

/-! ### The same stream -/

/-- A reachable state that did not fail belongs to the stream it started as. -/
theorem Reachable.same (hs : Reachable blueprint s) (hlive : s.failed = false) :
    (fromBlueprint blueprint).SameStream s := by
  induction hs with
  | fresh => exact .refl _
  | @deliver s hs status e ih =>
      cases hresult : (s.admitDelivery status e).1 with
      | ok d =>
          have hadmits := admits_of_result hresult
          exact (ih hadmits.ok.1).trans hadmits.step.same
      | error failure =>
          unfold StreamState.admitDelivery at hlive hresult ⊢
          by_cases hfailed : s.failed = true
          · rw [if_pos hfailed, hfailed] at hlive
            cases hlive
          · rw [if_neg hfailed] at hlive hresult ⊢
            by_cases hstatus : status = .failed
            · rw [if_pos hstatus] at hlive ⊢
              exact ih hlive
            · rw [if_neg hstatus] at hlive hresult ⊢
              cases hinner : s.admitInner e with
              | error failure =>
                  rw [hinner] at hlive
                  cases hlive
              | ok result =>
                  rw [hinner] at hresult
                  cases hresult

/-! ### After the barrier -/

/-- Two barrier applications with the same remainder leave the same fields,
diagnostics apart. -/
theorem Application.forgets {sources' : List (PreparedEnvelope canon)}
    {cache cache' : CacheTransaction} (hs : s.Core) (ht : t.Core) (hsame : s.SameStream t)
    (hremainder : SameRemainder e.cursor s t) (happ : s.Application e true sources cache s')
    (happ' : t.Application e true sources' cache' t') :
    { s' with diagnostics := t'.diagnostics } = t' := by
  obtain rfl : sources' = sources := happ'.drained.unique (hremainder.drained happ.drained)
  have hview : s'.view = t'.view := by
    obtain ⟨hkeys, hbounded⟩ := happ.view_ok hs.view
    obtain ⟨hkeys', hbounded'⟩ := happ'.view_ok ht.view
    have hscope : s'.view.scope = t'.view.scope := by
      rw [happ.scope, happ'.scope, hsame.scope]
    have heq : s'.view.keys = t'.view.keys := by
      rw [hkeys, hkeys']
      exact congrArg (foldSources sources') (happ.reset s.view.keys t.view.keys)
    exact CacheView.ext hscope heq (by
      rw [hbounded.identityBytes, hbounded'.identityBytes, heq])
  have hpending : s'.pending = t'.pending := by
    apply ExtTreeMap.ext_getElem?
    intro k
    rw [happ.pending, happ'.pending]
    by_cases hk : e.cursor < k
    · rw [hremainder.pending k hk]
    · have hle : k ≤ e.cursor := Nat.le_of_not_lt hk
      simp [hle]
  have hequivocation : s'.equivocationCeiling = t'.equivocationCeiling := by
    rw [happ.equivocationCeiling, happ'.equivocationCeiling]
    exact hremainder.equivocationCeiling
  have hfloor : s'.unavailableFloor = t'.unavailableFloor := by
    rw [happ.unavailableFloor, happ'.unavailableFloor]
    exact hremainder.unavailableFloor
  have hceiling : s'.unavailableCeiling = t'.unavailableCeiling := by
    rw [happ.unavailableCeiling, happ'.unavailableCeiling]
    exact hremainder.unavailableCeiling
  have hpoison : s'.poisonCeiling = t'.poisonCeiling := by
    rw [happ.poisonCeiling, happ'.poisonCeiling, hequivocation, hceiling]
    rfl
  have hbaseline : s'.baselineUnknown = t'.baselineUnknown := by
    rw [happ.baselineUnknown, happ'.baselineUnknown]
    rfl
  have hcertainty : s'.certainty = t'.certainty := by
    rw [happ.certainty, happ'.certainty, certaintyOf, certaintyOf, hbaseline, hpoison, hpending]
  have hbytes : s'.pendingBytes = t'.pendingBytes := by
    rw [happ.accounted hs.accounted, happ'.accounted ht.accounted, hpending]
  have hrecent : s'.recent = t'.recent := by
    rw [happ.recent, happ'.recent, hsame.limits]
    rfl
  exact StreamState.ext (by rw [happ'.session, hsame.session, ← happ.session])
    (by rw [happ'.limits, hsame.limits, ← happ.limits])
    (by rw [happ'.streamId, hsame.streamId, ← happ.streamId])
    (by rw [happ'.initialCursor, hsame.initialCursor, ← happ.initialCursor]) hcertainty
    (by rw [happ'.frontier, ← happ.frontier]) hbaseline
    (by rw [happ'.viewAuthoritative, happ.viewAuthoritative]; rfl) hpoison hequivocation hfloor
    hceiling hview hpending hbytes hrecent rfl
    (by rw [happ'.failed, hsame.failed, ← happ.failed])

/-- With nothing retained above it and no ceiling reaching it, a barrier leaves
an exact state at its own cursor. -/
theorem Application.exact_of_nothing_retained {cache : CacheTransaction}
    (happ : s.Application e true sources cache s')
    (hpending : ∀ c, e.cursor < c → s.pending[c]? = none)
    (hequivocation : ∀ hi, s.equivocationCeiling = some hi → hi < e.cursor)
    (hunavailable : ∀ hi, s.unavailableCeiling = some hi → hi < e.cursor) :
    s'.certainty = .exact ∧ s'.frontier = some e.cursor := by
  have hnone : ∀ {ceiling : Option Nat}, (∀ hi, ceiling = some hi → hi < e.cursor) →
      dropBelow ceiling e.cursor ceiling = none := by
    intro ceiling h
    cases ceiling with
    | none => rfl
    | some hi => simp [dropBelow, h hi rfl]
  have hsources : sources = [] := by
    rw [← List.length_eq_zero_iff]
    by_contra hne
    have hfirst := happ.drained.pending 0 (by omega)
    rw [hpending _ (by omega)] at hfirst
    cases hfirst
  have hempty : s'.pending.isEmpty = true := by
    rw [ExtTreeMap.isEmpty_iff]
    apply ExtTreeMap.ext_getElem?
    intro k
    rw [happ.pending, ExtTreeMap.getElem?_empty]
    by_cases hk : e.cursor < k
    · rw [hpending k hk, ite_self]
    · have hle : k ≤ e.cursor := Nat.le_of_not_lt hk
      simp [hle]
  have hpoison : s'.poisonCeiling = none := by
    rw [happ.poisonCeiling, if_pos rfl, happ.equivocationCeiling, happ.unavailableCeiling,
      if_pos rfl, if_pos rfl, hnone hequivocation, hnone hunavailable]
    rfl
  refine ⟨?_, ?_⟩
  · rw [happ.certainty, certaintyOf, happ.baselineUnknown, hpoison, hempty]
    rfl
  · rw [happ.frontier, hsources]
    rfl

theorem Step.of_barrierApplied (h : s.Step e .barrierApplied s') :
    ∃ sources cache, s.Application e true sources cache s' := by
  cases h with
  | barrierApplied _ _ _ _ happ => exact ⟨_, _, happ⟩

/-- A barrier forgets history: two reachable states of one stream that agree on
what the barrier retains are equal after it in every field but the
diagnostics, and with nothing retained the result is exact at the barrier. -/
theorem barrier_forgets_history (hs : Reachable blueprint s) (ht : Reachable blueprint t)
    (hs' : s.Admits e .barrierApplied s') (ht' : t.Admits e .barrierApplied t')
    (hremainder : SameRemainder e.cursor s t) :
    { s' with diagnostics := t'.diagnostics } = t' ∧
      ((∀ c, e.cursor < c → s.pending[c]? = none) →
        (∀ hi, s.equivocationCeiling = some hi → hi < e.cursor) →
        (∀ hi, s.unavailableCeiling = some hi → hi < e.cursor) →
        s'.certainty = .exact ∧ s'.frontier = some e.cursor) := by
  obtain ⟨sources, cache, happ⟩ := hs'.step.of_barrierApplied
  obtain ⟨sources', cache', happ'⟩ := ht'.step.of_barrierApplied
  have hsame : s.SameStream t := by
    have hs₀ := hs.same hs'.ok.1
    have ht₀ := ht.same ht'.ok.1
    exact ⟨ht₀.session.trans hs₀.session.symm, ht₀.limits.trans hs₀.limits.symm,
      ht₀.streamId.trans hs₀.streamId.symm, ht₀.initialCursor.trans hs₀.initialCursor.symm,
      ht₀.scope.trans hs₀.scope.symm, ht₀.failed.trans hs₀.failed.symm⟩
  exact ⟨happ.forgets hs.invariant.toCore ht.invariant.toCore hsame hremainder happ',
    happ.exact_of_nothing_retained⟩

/-- A discarded delivery and an applied one are both forgotten by the clear
above them. -/
theorem sample_barrier_forgets_history :
    { Sample.deliver (Sample.fresh Sample.tight) [Sample.early, Sample.anchor] with
      diagnostics := (Sample.deliver (Sample.fresh Sample.tight)
        [Sample.late, Sample.anchor]).diagnostics } =
      Sample.deliver (Sample.fresh Sample.tight) [Sample.late, Sample.anchor] := by
  have hs : Reachable (Sample.blueprint Sample.tight)
      (Sample.deliver (Sample.fresh Sample.tight) [Sample.early]) :=
    .deliver .fresh .open_ Sample.early
  have ht : Reachable (Sample.blueprint Sample.tight)
      (Sample.deliver (Sample.fresh Sample.tight) [Sample.late]) :=
    .deliver .fresh .open_ Sample.late
  have ht' : (Sample.deliver (Sample.fresh Sample.tight) [Sample.late]).Admits Sample.anchor
      .barrierApplied (Sample.deliver (Sample.fresh Sample.tight) [Sample.late, Sample.anchor]) :=
    admits_of_result (by decide +kernel)
  have hpending : ∀ source, source = Sample.early ∨ source = Sample.late →
      (Sample.deliver (Sample.fresh Sample.tight) [source]).pending = ∅ := by
    rintro source (rfl | rfl)
    · exact ExtTreeMap.isEmpty_iff.mp (by decide +kernel)
    · exact ExtTreeMap.isEmpty_iff.mp (by decide +kernel)
  have hremainder : SameRemainder Sample.anchor.cursor
      (Sample.deliver (Sample.fresh Sample.tight) [Sample.early])
      (Sample.deliver (Sample.fresh Sample.tight) [Sample.late]) :=
    { pending := fun c _ => by rw [hpending _ (.inl rfl), hpending _ (.inr rfl)]
      equivocationCeiling := by decide +kernel
      unavailableFloor := by decide +kernel
      unavailableCeiling := by decide +kernel }
  exact (barrier_forgets_history hs ht Sample.anchor_admitted ht' hremainder).1

end StreamState

end KvCrucible
