/-
KvCrucible/Folding.lean

The folding discipline: which payloads a run folds, and in which order.

`foldedBy` reads off the plan of an admission which payloads it folds into
the view.  A log is a history whose entries also carry these payloads;
concatenated they are the folding sequence of the run.  `Disciplined` is the
invariant of that sequence, and `frontier` of it is what makes a step
extend the sequence: the last folded cursor is the frontier.
-/
import KvCrucible.History

namespace KvCrucible

open Basis Std

variable {canon : Canonical}

namespace StreamState

variable {s s' : StreamState canon} {e : PreparedEnvelope canon} {d : Disposition}
  {history : History canon}

/-- The payload behind an applied fact: the delivery itself, or a pending
candidate. -/
def payloadOf (s : StreamState canon) (source : PreparedEnvelope canon) (fact : AppliedFact) :
    Option (PreparedEnvelope canon) :=
  if fact.cursor = source.cursor then some source
  else
    match s.pending[fact.cursor]? with
    | some (.candidate candidate) => some candidate
    | _ => none

/-- The payloads of a plan, in order. -/
def plannedPayloads (s : StreamState canon) (source : PreparedEnvelope canon) (barrier : Bool) :
    List (PreparedEnvelope canon) :=
  match s.planFor source barrier with
  | .ok plan => plan.applied.filterMap (s.payloadOf source)
  | .error _ => []

/-- The payloads an admission of `source` folds, given its disposition. -/
def foldedBy (s : StreamState canon) (source : PreparedEnvelope canon) :
    Disposition → List (PreparedEnvelope canon)
  | .applied => s.plannedPayloads source false
  | .barrierApplied => s.plannedPayloads source true
  | _ => []

theorem filterMap_factsFrom {payload : AppliedFact → Option (PreparedEnvelope canon)}
    {sources : List (PreparedEnvelope canon)} :
    ∀ {cursor : Nat}, (∀ k, ∀ hk : k < sources.length,
        payload ⟨cursor + k, sources[k].fingerprint⟩ = some sources[k]) →
      (factsFrom cursor sources).filterMap payload = sources := by
  induction sources with
  | nil => intro cursor _; rfl
  | cons source sources ih =>
      intro cursor h
      have hhead : payload ⟨cursor, source.fingerprint⟩ = some source := h 0 (by simp)
      have htail : (factsFrom (cursor + 1) sources).filterMap payload = sources := by
        refine ih fun k hk => ?_
        have := h (k + 1) (by simpa using hk)
        rwa [show cursor + 1 + k = cursor + (k + 1) by omega]
      rw [factsFrom, List.filterMap_cons, hhead, htail]

/-- An application folds the delivery and then the drained candidates. -/
theorem foldedBy_application {barrier : Bool} {sources : List (PreparedEnvelope canon)}
    {cache : CacheTransaction} (happ : s.Application e barrier sources cache s') :
    s.foldedBy e (if barrier then .barrierApplied else .applied) = e :: sources := by
  have hpayloads : s.plannedPayloads e barrier = e :: sources := by
    obtain ⟨plan, hplan, happlied⟩ := happ.plan_ok
    have hself : s.payloadOf e ⟨e.cursor, e.fingerprint⟩ = some e := if_pos rfl
    have hrest : (factsFrom (e.cursor + 1) sources).filterMap (s.payloadOf e) = sources := by
      refine filterMap_factsFrom fun k hk => ?_
      have hne : ¬ e.cursor + 1 + k = e.cursor := by omega
      show (if e.cursor + 1 + k = e.cursor then _ else _) = _
      rw [if_neg hne, happ.drained.pending k hk]
    unfold plannedPayloads
    rw [hplan]
    show plan.applied.filterMap _ = _
    rw [happlied, List.filterMap_cons, hself, hrest]
  cases barrier with
  | true => exact hpayloads
  | false => exact hpayloads

theorem foldedBy_quiet (happlied : d ≠ .applied) (hbarrier : d ≠ .barrierApplied) :
    s.foldedBy e d = [] := by
  cases d with
  | applied => exact absurd rfl happlied
  | barrierApplied => exact absurd rfl hbarrier
  | _ => rfl

/-! ### Logs -/

/-- What an admission reports when its folds are recorded too. -/
structure Receipt (canon : Canonical) where
  disposition : Disposition
  folded : List (PreparedEnvelope canon)

/-- An admission together with the payloads it folds. -/
def AdmitsFolding (s : StreamState canon) (e : PreparedEnvelope canon) (receipt : Receipt canon)
    (s' : StreamState canon) : Prop :=
  s.Admits e receipt.disposition s' ∧ receipt.folded = s.foldedBy e receipt.disposition

/-- Every admission folds something definite. -/
theorem Admits.folding (h : s.Admits e d s') : s.AdmitsFolding e ⟨d, s.foldedBy e d⟩ s' :=
  ⟨h, rfl⟩

/-- A run of admissions with recorded folds. -/
abbrev FoldingRun (init : StreamState canon) := Run (@AdmitsFolding canon) init

/-- The history behind a log. -/
def historyOf (log : List (PreparedEnvelope canon × Receipt canon)) : History canon :=
  log.map fun x => (x.1, x.2.disposition)

/-- The payloads folded along a log, in folding order. -/
def foldedSequence (log : List (PreparedEnvelope canon × Receipt canon)) :
    List (PreparedEnvelope canon) :=
  log.flatMap fun x => x.2.folded

variable {log : List (PreparedEnvelope canon × Receipt canon)} {receipt : Receipt canon}

theorem historyOf_snoc : historyOf (log ++ [(e, receipt)]) =
    historyOf log ++ [(e, receipt.disposition)] := by
  simp [historyOf]

theorem foldedSequence_snoc : foldedSequence (log ++ [(e, receipt)]) =
    foldedSequence log ++ receipt.folded := by
  simp [foldedSequence]

/-- Recording folds does not change what a run does. -/
theorem runFrom_of_folding {init : StreamState canon} (hr : FoldingRun init log s) :
    RunFrom init (historyOf log) s := by
  induction hr with
  | nil => exact .nil
  | snoc hr h ih =>
      rw [historyOf_snoc]
      exact ih.snoc h.1

/-- Every run has a folding sequence. -/
theorem RunFrom.folding {init : StreamState canon} (hr : RunFrom init history s) :
    ∃ log, historyOf log = history ∧ FoldingRun init log s := by
  induction hr with
  | nil => exact ⟨[], rfl, .nil⟩
  | @snoc h₀ s₀ e d s' hr h ih =>
      obtain ⟨log, rfl, hlog⟩ := ih
      refine ⟨log ++ [(e, ⟨d, s₀.foldedBy e d⟩)], historyOf_snoc, hlog.snoc h.folding⟩

/-! ### Discipline -/

/-- The invariant of the folding sequence. -/
structure Disciplined (known : Prop) (history : History canon)
    (folded : List (PreparedEnvelope canon)) (s : StreamState canon) : Prop where
  frontier : s.frontier = folded.getLast?.map fun source => source.cursor
  chain : folded.IsChain fun a b => a.cursor < b.cursor ∧
    (b.cursor = a.cursor + 1 ∨ (b, Disposition.barrierApplied) ∈ history)
  head : ∀ source, folded.head? = some source → source.cursor = s.initialCursor ∨
    (source, Disposition.barrierApplied) ∈ history ∨ ¬ known
  first : ∀ source ∈ folded, firstAt history source.cursor = some source
  view : s.view.keys = foldSources folded ∅
  known_or_anchored : known → s.baselineUnknown = false

theorem foldSources_append (xs ys : List (PreparedEnvelope canon)) (keys : Finset CacheKey) :
    foldSources (xs ++ ys) keys = foldSources ys (foldSources xs keys) :=
  List.foldl_append

/-- Steps that fold nothing leave the sequence alone. -/
theorem Disciplined.quiet {known : Prop} {folded : List (PreparedEnvelope canon)}
    (hf : Disciplined known history folded s) (hquiet : s.Quiet s') :
    Disciplined known (history ++ [(e, d)]) folded s' where
  frontier := hquiet.frontier.trans hf.frontier
  chain := hf.chain.imp fun a b hab => ⟨hab.1, hab.2.imp_right (List.mem_append_left _)⟩
  head := fun source hsource => by
    rw [hquiet.initialCursor]
    exact (hf.head source hsource).imp_right (Or.imp_left (List.mem_append_left _))
  first := fun source hsource => firstAt_snoc_of_some (hf.first source hsource)
  view := by
    rw [hquiet.view]
    exact hf.view
  known_or_anchored := fun hk => hquiet.baselineUnknown.trans (hf.known_or_anchored hk)

/-- An application extends the sequence behind the frontier. -/
theorem Disciplined.application {known : Prop} {barrier : Bool}
    {folded sources : List (PreparedEnvelope canon)} {cache : CacheTransaction}
    (hf : Disciplined known history folded s) (hs : s.Invariant) (hd : Delivered history s)
    (h : Invariant.Reaches s e barrier) (happ : s.Application e barrier sources cache s')
    (hdisp : d = if barrier then .barrierApplied else .applied) :
    Disciplined known (history ++ [(e, d)]) (folded ++ e :: sources) s' := by
  have hcursor : ∀ k, ∀ hk : k < (e :: sources).length,
      (e :: sources)[k].cursor = e.cursor + k := by
    intro k hk
    cases k with
    | zero => rfl
    | succ k =>
        have := (hd.drained_first hs happ (by simpa using hk)).1
        rw [List.getElem_cons_succ, this]
        omega
  have hself : barrier = true → (e, Disposition.barrierApplied) ∈ history ++ [(e, d)] := by
    rintro rfl
    rw [hdisp]
    exact List.mem_append_right _ (List.mem_singleton.mpr rfl)
  refine ⟨?_, ?_, ?_, ?_, ?_, ?_⟩
  · rw [happ.frontier, List.getLast?_append_of_ne_nil _ (List.cons_ne_nil _ _),
      List.getLast?_eq_getElem?, List.length_cons, Nat.add_sub_cancel,
      List.getElem?_eq_getElem (by simp), Option.map_some, hcursor]
  · -- consecutive inside the new part; the seam is at the old frontier
    rw [List.isChain_append]
    refine ⟨hf.chain.imp fun a b hab => ⟨hab.1, hab.2.imp_right (List.mem_append_left _)⟩, ?_, ?_⟩
    · rw [List.isChain_iff_getElem]
      intro i hi
      rw [hcursor, hcursor]
      exact ⟨by omega, .inl (by omega)⟩
    · intro a ha b hb
      obtain rfl : e = b := by simpa using hb
      have hfrontier : s.frontier = some a.cursor := by
        rw [hf.frontier, Option.mem_def.mp ha]
        rfl
      have hnext := h.next_le
      rw [next_of_some hfrontier] at hnext
      refine ⟨by omega, ?_⟩
      cases hb : barrier with
      | true => exact .inr (hself hb)
      | false =>
          refine .inl ?_
          rcases h.where_ hb with heq | ⟨-, hnone⟩
          · rw [heq, next_of_some hfrontier]
          · rw [hfrontier] at hnone
            cases hnone
  · intro source hsource
    rw [happ.initialCursor]
    rcases List.eq_nil_or_concat folded with hnil | ⟨init, last, hlast⟩
    · subst hnil
      obtain rfl : e = source := by simpa using hsource
      cases hb : barrier with
      | true => exact .inr (.inl (hself hb))
      | false =>
          have hfrontier : s.frontier = none := hf.frontier
          rcases h.where_ hb with heq | ⟨hunknown, -⟩
          · exact .inl (heq.trans (next_of_none hfrontier))
          · refine .inr (.inr fun hk => ?_)
            rw [hf.known_or_anchored hk] at hunknown
            cases hunknown
    · have hhead : folded.head? = some source := by
        rw [List.head?_append_of_ne_nil _ (by simp [hlast])] at hsource
        exact hsource
      exact (hf.head source hhead).imp_right (Or.imp_left (List.mem_append_left _))
  · intro source hsource
    rcases List.mem_append.mp hsource with hold | hnew
    · exact firstAt_snoc_of_some (hf.first source hold)
    · rcases List.mem_cons.mp hnew with rfl | hdrained
      · exact firstAt_snoc_self (hd.fresh h.fresh h.next_le h.unblocked)
      · obtain ⟨k, hk, rfl⟩ := List.getElem_of_mem hdrained
        obtain ⟨hc, hfirst, -⟩ := hd.drained_first hs happ hk
        rw [hc]
        exact firstAt_snoc_of_some hfirst
  · rw [(happ.view_ok hs.view).1, hf.view, foldSources_append]
  · intro hk
    rw [happ.baselineUnknown]
    cases barrier with
    | true => rfl
    | false => exact hf.known_or_anchored hk

/-- One admission with its folds keeps the discipline. -/
theorem Disciplined.step {known : Prop}
    (hf : Disciplined known (historyOf log) (foldedSequence log) s)
    (hs : s.Invariant) (hd : Delivered (historyOf log) s) (h : s.AdmitsFolding e receipt s') :
    Disciplined known (historyOf (log ++ [(e, receipt)]))
      (foldedSequence (log ++ [(e, receipt)])) s' := by
  rw [historyOf_snoc, foldedSequence_snoc, h.2]
  rcases (Admits.step h.1).quiet_or_folds with
    ⟨ha, hb, hquiet⟩ | ⟨barrier, sources, cache, hdisp, hreaches, happ⟩
  · rw [foldedBy_quiet ha hb, List.append_nil]
    exact hf.quiet hquiet
  · rw [hdisp, foldedBy_application happ]
    exact hf.application hs hd hreaches happ rfl

variable {blueprint : StreamBlueprint}

theorem disciplined_run (hr : FoldingRun (fromBlueprint blueprint) log s) :
    Disciplined (blueprint.registration.authority = .trustDeclaredEmpty) (historyOf log)
      (foldedSequence log) s := by
  induction hr with
  | nil =>
      refine ⟨rfl, List.isChain_nil, nofun, nofun, rfl, fun hk => ?_⟩
      simp [fromBlueprint, hk]
  | snoc hr h ih =>
      obtain ⟨hs, hd⟩ := delivered_run (runFrom_of_folding hr)
      exact ih.step hs hd h

/-- Whatever a step folds at a cursor, every delivery there so far agrees
with it. -/
theorem folded_unequivocal (hs : s.Invariant) (hd : Delivered history s)
    (h : s.AdmitsFolding e receipt s') {source : PreparedEnvelope canon}
    (hsource : source ∈ receipt.folded) :
    ∀ x ∈ history ++ [(e, receipt.disposition)], x.1.cursor = source.cursor →
      x.1.fingerprint = source.fingerprint := by
  rw [h.2] at hsource
  rcases (Admits.step h.1).quiet_or_folds with
    ⟨ha, hb, -⟩ | ⟨barrier, sources, cache, hdisp, hreaches, happ⟩
  · rw [foldedBy_quiet ha hb] at hsource
    cases hsource
  · rw [hdisp, foldedBy_application happ] at hsource
    intro x hx hxc
    rcases List.mem_cons.mp hsource with rfl | hdrained
    · have hfresh := hd.fresh hreaches.fresh hreaches.next_le hreaches.unblocked
      rcases List.mem_append.mp hx with hx | hx
      · exact absurd hxc (firstAt_eq_none.mp hfresh x hx)
      · rw [List.mem_singleton.mp hx]
    · obtain ⟨k, hk, rfl⟩ := List.getElem_of_mem hdrained
      obtain ⟨hc, -, hagree⟩ := hd.drained_first hs happ hk
      rcases List.mem_append.mp hx with hx | hx
      · exact hagree x hx (hxc.trans hc)
      · rw [List.mem_singleton.mp hx, hc] at hxc
        have hxc' : e.cursor = e.cursor + 1 + k := hxc
        omega

/-- The folding sequence of every run: it ends at the frontier, is strictly
increasing, gap-free except at barriers, started at the initial cursor unless
by a barrier or under an unknown baseline, made of first payloads, never of an
equivocated cursor, and the view is exactly its fold. -/
theorem folding_discipline (hr : FoldingRun (fromBlueprint blueprint) log s) :
    s.frontier = ((foldedSequence log).getLast?.map fun source => source.cursor) ∧
    (foldedSequence log).Pairwise (fun a b => a.cursor < b.cursor) ∧
    (∀ i, ∀ hi : i + 1 < (foldedSequence log).length,
      (foldedSequence log)[i + 1].cursor = (foldedSequence log)[i].cursor + 1 ∨
        ((foldedSequence log)[i + 1], Disposition.barrierApplied) ∈ historyOf log) ∧
    (∀ source, (foldedSequence log).head? = some source →
      source.cursor = blueprint.registration.initialCursor ∨
        (source, Disposition.barrierApplied) ∈ historyOf log ∨
        blueprint.registration.authority = .treatAsUnknown) ∧
    (∀ source ∈ foldedSequence log, firstAt (historyOf log) source.cursor = some source) ∧
    (∀ before e receipt after, log = before ++ (e, receipt) :: after →
      ∀ source ∈ receipt.folded, ∀ x ∈ historyOf (before ++ [(e, receipt)]),
        x.1.cursor = source.cursor → x.1.fingerprint = source.fingerprint) ∧
    s.view.keys = foldSources (foldedSequence log) ∅ := by
  have hf := disciplined_run hr
  have hinit : s.initialCursor = blueprint.registration.initialCursor :=
    (same_run (runFrom_of_folding hr)).initialCursor
  refine ⟨hf.frontier, ?_, ?_, ?_, hf.first, ?_, hf.view⟩
  · have hcursors : ((foldedSequence log).map fun source => source.cursor).IsChain (· < ·) :=
      (List.isChain_map _).mpr (hf.chain.imp fun _ _ hab => hab.1)
    exact List.pairwise_map.mp hcursors.pairwise
  · intro i hi
    exact (List.isChain_iff_getElem.mp hf.chain i hi).2
  · intro source hsource
    rw [← hinit]
    refine (hf.head source hsource).imp_right (Or.imp_right fun hne => ?_)
    cases hauth : blueprint.registration.authority with
    | trustDeclaredEmpty => exact absurd hauth hne
    | treatAsUnknown => rfl
  · rintro before e receipt after rfl source hsource x hx hxc
    have hr' : FoldingRun (fromBlueprint blueprint) (before ++ ([(e, receipt)] ++ after)) s := hr
    obtain ⟨s₀, hbefore, hrest⟩ := Run.append_iff.mp hr'
    obtain ⟨s₁, h, -⟩ := Run.cons_iff.mp hrest
    obtain ⟨hs, hd⟩ := delivered_run (runFrom_of_folding hbefore)
    rw [historyOf_snoc] at hx
    exact folded_unequivocal hs hd h hsource x hx hxc

/-- First payloads are known by their cursors. -/
theorem eq_filterMap_firstAt {folded : List (PreparedEnvelope canon)}
    (hfirst : ∀ source ∈ folded, firstAt history source.cursor = some source) :
    folded = (folded.map fun source => source.cursor).filterMap (firstAt history) := by
  rw [List.filterMap_map]
  conv_lhs => rw [← List.filterMap_some (l := folded)]
  exact List.filterMap_congr fun source hsource => (hfirst source hsource).symm

/-- Two stores that arrive in the wrong order are folded in the right one: the
first of them waits, the second one drains it. -/
theorem folding_of_swapped_deliveries :
    ∃ log, historyOf log = [(Sample.early, .buffered), (Sample.late, .applied)] ∧
      FoldingRun (Sample.fresh .default) log
        (Sample.deliver (Sample.fresh .default) [Sample.early, Sample.late]) ∧
      foldedSequence log = [Sample.late, Sample.early] ∧
      (Sample.deliver (Sample.fresh .default) [Sample.early, Sample.late]).frontier = some 1 ∧
      (foldedSequence log).Pairwise (fun a b => a.cursor < b.cursor) ∧
      (Sample.deliver (Sample.fresh .default) [Sample.early, Sample.late]).view.keys =
        foldSources [Sample.late, Sample.early] ∅ := by
  have hearly : (Sample.fresh .default).Admits Sample.early .buffered
      (Sample.deliver (Sample.fresh .default) [Sample.early]) :=
    admits_of_result (by decide +kernel)
  have hlate : (Sample.deliver (Sample.fresh .default) [Sample.early]).Admits Sample.late .applied
      (Sample.deliver (Sample.fresh .default) [Sample.early, Sample.late]) :=
    admits_of_result (by decide +kernel)
  have hcursors : ((Sample.deliver (Sample.fresh .default) [Sample.early]).foldedBy Sample.late
      .applied).map (fun source => source.cursor) = [0, 1] := by decide +kernel
  have hfolding := hlate.folding
  generalize (Sample.deliver (Sample.fresh .default) [Sample.early]).foldedBy Sample.late
    .applied = folded at hcursors hfolding
  have hlog : FoldingRun (Sample.fresh .default)
      [(Sample.early, ⟨.buffered, []⟩), (Sample.late, ⟨.applied, folded⟩)]
      (Sample.deliver (Sample.fresh .default) [Sample.early, Sample.late]) :=
    .snoc (.snoc .nil hearly.folding) hfolding
  obtain ⟨hfrontier, hpairwise, -, -, hfirst, -, hview⟩ := folding_discipline hlog
  have hsequence : foldedSequence [(Sample.early, ⟨.buffered, []⟩),
      (Sample.late, ⟨.applied, folded⟩)] = folded := List.append_nil folded
  rw [hsequence] at hfrontier hpairwise hview hfirst
  -- the plan names the cursors, the history the payloads behind them
  obtain rfl : folded = [Sample.late, Sample.early] := by
    rw [eq_filterMap_firstAt hfirst, hcursors]
    rfl
  refine ⟨_, rfl, hlog, hsequence, hfrontier, ?_, hview⟩
  rwa [hsequence]

end StreamState

end KvCrucible
