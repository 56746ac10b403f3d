/-
KvCrucible/Window.lean

The recent window: which cursors a state can still compare a redelivery with,
and what it compares with.

`foldedSince` is the folding sequence since the last barrier, `FoldedWith` a
folded payload together with everything delivered after it.  `Windowed`
relates both to the stored window: its keys are the last folded cursors
(`Basis.Window`), and its slots are the folded fingerprint with the first
other one that arrived there since (`retainedSlot`).
-/
import KvCrucible.Basis.Window
import KvCrucible.Folding

namespace KvCrucible

open Basis Std

variable {canon : Canonical}

/-! ### What a slot should hold -/

/-- A retained slot after another delivery at its cursor. -/
def RecentSlot.note (slot : RecentSlot) (fingerprint : SemanticFingerprint) : RecentSlot :=
  match slot.classify fingerprint with
  | .conflict first => .conflict first fingerprint
  | _ => slot

theorem RecentSlot.note_of_covers {slot : RecentSlot} {fingerprint : SemanticFingerprint}
    (h : slot.Covers fingerprint) : slot.note fingerprint = slot := by
  rw [note, classify_duplicate.mpr h]

@[simp] theorem RecentSlot.note_conflict (first second fingerprint : SemanticFingerprint) :
    (RecentSlot.conflict first second).note fingerprint = .conflict first second := by
  by_cases h : first = fingerprint ∨ second = fingerprint
  · simp [note, classify, h]
  · simp [note, classify, h]

/-- The fingerprint of the first delivery behind a folded payload that has
its cursor and another fingerprint. -/
def otherVariant (source : PreparedEnvelope canon) (later : List (PreparedEnvelope canon)) :
    Option SemanticFingerprint :=
  (later.find? fun x =>
    decide (x.cursor = source.cursor ∧ x.fingerprint ≠ source.fingerprint)).map
      fun x => x.fingerprint

/-- The slot of a folded payload after the deliveries behind it. -/
def retainedSlot (source : PreparedEnvelope canon) (later : List (PreparedEnvelope canon)) :
    RecentSlot :=
  match otherVariant source later with
  | none => .candidate source.fingerprint
  | some second => .conflict source.fingerprint second

section Slots

variable {source e : PreparedEnvelope canon} {later : List (PreparedEnvelope canon)}

theorem otherVariant_snoc :
    otherVariant source (later ++ [e]) = (otherVariant source later).or
      (if e.cursor = source.cursor ∧ e.fingerprint ≠ source.fingerprint then some e.fingerprint
        else none) := by
  unfold otherVariant
  rw [List.find?_append, List.find?_singleton]
  by_cases h : e.cursor = source.cursor ∧ e.fingerprint ≠ source.fingerprint
  · cases later.find? _ <;> simp [h]
  · cases later.find? _ <;> simp [h]

/-- Each delivery at the cursor is noted in the slot. -/
theorem retainedSlot_snoc :
    retainedSlot source (later ++ [e]) =
      if e.cursor = source.cursor then (retainedSlot source later).note e.fingerprint
      else retainedSlot source later := by
  unfold retainedSlot
  rw [otherVariant_snoc]
  by_cases hcursor : e.cursor = source.cursor
  · rw [if_pos hcursor]
    cases otherVariant source later with
    | some second => simp
    | none =>
        by_cases hfp : source.fingerprint = e.fingerprint
        · have hcovers : (RecentSlot.candidate source.fingerprint).Covers e.fingerprint := hfp
          rw [RecentSlot.note_of_covers hcovers]
          simp [hcursor, hfp]
        · simp [hcursor, Ne.symm hfp, RecentSlot.note, RecentSlot.classify, hfp]
  · simp [hcursor]

/-- The slot covers the folded fingerprint and the first other one. -/
theorem retainedSlot_covers {fingerprint : SemanticFingerprint} :
    (retainedSlot source later).Covers fingerprint ↔
      fingerprint = source.fingerprint ∨ otherVariant source later = some fingerprint := by
  unfold retainedSlot
  cases otherVariant source later with
  | none => simp [RecentSlot.Covers, eq_comm]
  | some second => simp [RecentSlot.Covers, eq_comm]

end Slots

namespace StreamState

variable {s s' : StreamState canon} {e source : PreparedEnvelope canon} {d : Disposition}
  {log : List (PreparedEnvelope canon × Receipt canon)} {receipt : Receipt canon}
  {later : List (PreparedEnvelope canon)}

/-! ### Folded payloads and what came after -/

/-- The payloads folded since and including the last barrier, in order. -/
def foldedSince (log : List (PreparedEnvelope canon × Receipt canon)) :
    List (PreparedEnvelope canon) :=
  log.foldl (fun folded x =>
    if x.2.disposition = .barrierApplied then x.2.folded else folded ++ x.2.folded) []

theorem foldedSince_snoc : foldedSince (log ++ [(e, receipt)]) =
    if receipt.disposition = .barrierApplied then receipt.folded
    else foldedSince log ++ receipt.folded := by
  rw [foldedSince, List.foldl_append]
  rfl

/-- A barrier only forgets what was folded before it. -/
theorem foldedSince_suffix (log : List (PreparedEnvelope canon × Receipt canon)) :
    foldedSince log <:+ foldedSequence log := by
  induction log using List.reverseRecOn with
  | nil => exact List.suffix_rfl
  | append_singleton log x ih =>
      obtain ⟨e, receipt⟩ := x
      rw [foldedSince_snoc, foldedSequence_snoc]
      by_cases hbarrier : receipt.disposition = .barrierApplied
      · rw [if_pos hbarrier]
        exact List.suffix_append _ _
      · rw [if_neg hbarrier]
        obtain ⟨earlier, hearlier⟩ := ih
        exact ⟨earlier, by rw [← List.append_assoc, hearlier]⟩

/-- `source` was folded along the log, and `later` was delivered after the
admission that folded it. -/
def FoldedWith (log : List (PreparedEnvelope canon × Receipt canon))
    (source : PreparedEnvelope canon) (later : List (PreparedEnvelope canon)) : Prop :=
  ∃ before e receipt after, log = before ++ (e, receipt) :: after ∧ source ∈ receipt.folded ∧
    later = after.map Prod.fst

theorem foldedWith_snoc : FoldedWith (log ++ [(e, receipt)]) source later ↔
    (source ∈ receipt.folded ∧ later = []) ∨
      ∃ later', FoldedWith log source later' ∧ later = later' ++ [e] := by
  constructor
  · rintro ⟨before, x, r, after, hlog, hsource, rfl⟩
    rcases List.eq_nil_or_concat after with rfl | ⟨after, last, rfl⟩
    · obtain ⟨-, hlast⟩ := List.append_inj' hlog rfl
      obtain ⟨rfl, rfl⟩ : e = x ∧ receipt = r := by simpa using hlast
      exact .inl ⟨hsource, rfl⟩
    · have hlog' : log ++ [(e, receipt)] = (before ++ (x, r) :: after) ++ [last] := by
        rw [hlog]
        simp
      obtain ⟨rfl, hlast⟩ := List.append_inj' hlog' rfl
      obtain rfl : (e, receipt) = last := by simpa using hlast
      exact .inr ⟨_, ⟨before, x, r, after, rfl, hsource, rfl⟩, by simp⟩
  · rintro (⟨hsource, rfl⟩ | ⟨later', ⟨before, x, r, after, rfl, hsource, rfl⟩, rfl⟩)
    · exact ⟨log, e, receipt, [], rfl, hsource, rfl⟩
    · exact ⟨before, x, r, after ++ [(e, receipt)], by simp, hsource, by simp⟩

theorem FoldedWith.mem (h : FoldedWith log source later) : source ∈ foldedSequence log := by
  obtain ⟨before, x, r, after, rfl, hsource, -⟩ := h
  exact List.mem_flatMap.mpr ⟨(x, r), by simp, hsource⟩

theorem foldedWith_of_mem (h : source ∈ foldedSequence log) :
    ∃ later, FoldedWith log source later := by
  obtain ⟨⟨x, r⟩, hmem, hsource⟩ := List.mem_flatMap.mp h
  obtain ⟨before, after, rfl⟩ := List.append_of_mem hmem
  exact ⟨_, before, x, r, after, rfl, hsource, rfl⟩

/-! ### The window over a run -/

/-- Folding appends the cursors to the window and drops the smallest. -/
theorem keys_retainAll {limit : Nat} {facts : List AppliedFact} :
    ∀ {recent : ExtTreeMap Nat RecentSlot}, recent.size ≤ limit →
      (∀ cursor ∈ recent, ∀ fact ∈ facts, cursor < fact.cursor) →
      facts.Pairwise (fun a b => a.cursor < b.cursor) →
      (retainAll limit recent facts).keys =
        (recent.keys ++ facts.map fun fact => fact.cursor).rtake limit := by
  induction facts with
  | nil =>
      intro recent hsize _ _
      rw [List.map_nil, List.append_nil, List.rtake, ExtTreeMap.length_keys,
        Nat.sub_eq_zero_of_le hsize, List.drop_zero]
      rfl
  | cons fact facts ih =>
      intro recent hsize habove hsorted
      obtain ⟨hfirst, hsorted⟩ := List.pairwise_cons.mp hsorted
      have hkeys : (retain limit recent fact).keys = (recent.keys ++ [fact.cursor]).rtake limit := by
        rw [retain, keys_dropTo limit (Nat.le_refl _), keys_insert_above]
        intro cursor hcursor
        exact Nat.compare_eq_lt.mpr (habove cursor hcursor fact List.mem_cons_self)
      have habove' : ∀ cursor ∈ retain limit recent fact, ∀ fact' ∈ facts,
          cursor < fact'.cursor := by
        intro cursor hcursor fact' hfact'
        rw [← ExtTreeMap.mem_keys, hkeys] at hcursor
        rcases List.mem_append.mp (List.mem_of_mem_drop hcursor) with hold | hnew
        · exact habove cursor (ExtTreeMap.mem_keys.mp hold) fact' (List.mem_cons_of_mem _ hfact')
        · rw [List.mem_singleton.mp hnew]
          exact hfirst fact' hfact'
      show (retainAll limit (retain limit recent fact) facts).keys = _
      rw [ih (size_retain limit recent fact) habove' hsorted, hkeys, rtake_append_rtake]
      simp

/-- The facts of an application stand at consecutive cursors. -/
theorem pairwise_factsFrom {sources : List (PreparedEnvelope canon)} :
    ∀ {cursor : Nat}, (factsFrom cursor sources).Pairwise fun a b => a.cursor < b.cursor := by
  induction sources with
  | nil => exact .nil
  | cons source sources ih =>
      intro cursor
      refine .cons (fun fact hfact => ?_) ih
      obtain ⟨k, hk, rfl⟩ := mem_factsFrom.mp hfact
      show cursor < cursor + 1 + k
      omega

/-- The cursors of the facts are those of the drained candidates. -/
theorem map_cursor_factsFrom {sources : List (PreparedEnvelope canon)} :
    ∀ {cursor : Nat}, (∀ k, ∀ hk : k < sources.length, sources[k].cursor = cursor + k) →
      (factsFrom cursor sources).map (fun fact => fact.cursor) =
        sources.map fun source => source.cursor := by
  induction sources with
  | nil => intro cursor _; rfl
  | cons source sources ih =>
      intro cursor h
      have hhead : source.cursor = cursor := h 0 (by simp)
      have htail : ∀ k, ∀ hk : k < sources.length, sources[k].cursor = cursor + 1 + k := by
        intro k hk
        have := h (k + 1) (by simpa using hk)
        simp only [List.getElem_cons_succ] at this
        omega
      rw [factsFrom, List.map_cons, List.map_cons, ih htail, hhead]

/-- How the stored window relates to the log. -/
structure Windowed (log : List (PreparedEnvelope canon × Receipt canon)) (s : StreamState canon) :
    Prop where
  keys : s.recent.keys = ((foldedSince log).map fun source => source.cursor).rtake
    s.limits.maxRecentFingerprintsPerStream.toNat
  slots : ∀ {source : PreparedEnvelope canon} {later : List (PreparedEnvelope canon)}
    {slot : RecentSlot}, FoldedWith log source later → s.recent[source.cursor]? = some slot →
      slot = retainedSlot source later

/-- What was folded lies behind the frontier. -/
theorem Disciplined.folded_lt {known : Prop} {history : History canon}
    {folded : List (PreparedEnvelope canon)} (hf : Disciplined known history folded s)
    (hsource : source ∈ folded) : source.cursor < s.next := by
  rcases List.eq_nil_or_concat folded with rfl | ⟨init, last, rfl⟩
  · cases hsource
  · rw [List.concat_eq_append] at hsource hf
    have hcursors : ((init ++ [last]).map fun source => source.cursor).IsChain (· < ·) :=
      (List.isChain_map _).mpr (hf.chain.imp fun _ _ hab => hab.1)
    obtain ⟨-, -, hlast⟩ := List.pairwise_append.mp (List.pairwise_map.mp hcursors.pairwise)
    have hfrontier : s.frontier = some last.cursor := by
      rw [hf.frontier, List.getLast?_concat]
      rfl
    rw [next_of_some hfrontier]
    rcases List.mem_append.mp hsource with hmem | hmem
    · have := hlast source hmem last (List.mem_singleton_self _)
      omega
    · rw [List.mem_singleton.mp hmem]
      exact Nat.lt_succ_self _

/-- A step that folds nothing keeps the retained cursors and notes its
delivery in the slot at its cursor. -/
theorem Step.window_quiet (hs : s.Invariant) (h : s.Step e d s') (happlied : d ≠ .applied)
    (hbarrier : d ≠ .barrierApplied) :
    s'.recent.keys = s.recent.keys ∧ ∀ {cursor : Nat} {slot' : RecentSlot},
      s'.recent[cursor]? = some slot' → ∃ slot, s.recent[cursor]? = some slot ∧
        slot' = if e.cursor = cursor then slot.note e.fingerprint else slot := by
  have hkeep : s'.recent = s.recent →
      (∀ slot, s.recent[e.cursor]? = some slot → slot.note e.fingerprint = slot) →
      s'.recent.keys = s.recent.keys ∧ ∀ {cursor : Nat} {slot' : RecentSlot},
        s'.recent[cursor]? = some slot' → ∃ slot, s.recent[cursor]? = some slot ∧
          slot' = if e.cursor = cursor then slot.note e.fingerprint else slot := by
    intro hrecent hnote
    rw [hrecent]
    refine ⟨rfl, fun {cursor slot'} hslot => ⟨slot', hslot, ?_⟩⟩
    by_cases hcursor : e.cursor = cursor
    · rw [if_pos hcursor, hnote slot' (hcursor ▸ hslot)]
    · rw [if_neg hcursor]
  -- ahead of the frontier nothing is retained
  have hahead : s.next ≤ e.cursor →
      ∀ slot, s.recent[e.cursor]? = some slot → slot.note e.fingerprint = slot := by
    intro hnext slot hslot
    have := (hs.recent_past hslot).2
    omega
  cases h with
  | pendingDuplicate hslot hcovers => exact hkeep rfl (hahead (hs.pending_next hslot).1)
  | pendingConflict hslot hne hbytes =>
      apply hkeep _ (hahead (hs.pending_next hslot).1)
      rw [noteEquivocation_recent]
      rfl
  | pendingAdditional hslot hfirst hsecond =>
      exact hkeep (noteEquivocation_recent ..) (hahead (hs.pending_next hslot).1)
  | pastDuplicate hfresh hpast hslot hcovers =>
      refine hkeep rfl fun slot' hslot' => ?_
      obtain rfl := Option.some.inj (hslot.symm.trans hslot')
      exact RecentSlot.note_of_covers hcovers
  | @pastConflict first hfresh hpast hslot hne =>
      have hmem : e.cursor ∈ s.recent := ExtTreeMap.mem_iff_isSome_getElem?.mpr (by simp [hslot])
      rw [noteEquivocation_recent]
      refine ⟨keys_insert_of_mem hmem, fun {cursor slot'} hslot' => ?_⟩
      have hslot'' : (s.recent.insert e.cursor (.conflict first e.fingerprint))[cursor]? =
        some slot' := hslot'
      rw [ExtTreeMap.getElem?_insert] at hslot''
      by_cases hcursor : e.cursor = cursor
      · subst hcursor
        rw [if_pos (Nat.compare_eq_eq.mpr rfl)] at hslot''
        obtain rfl := Option.some.inj hslot''
        refine ⟨_, hslot, ?_⟩
        rw [if_pos rfl, RecentSlot.note, RecentSlot.classify_conflict.mpr ⟨rfl, hne⟩]
      · rw [if_neg fun hcmp => hcursor (Nat.compare_eq_eq.mp hcmp)] at hslot''
        exact ⟨slot', hslot'', by rw [if_neg hcursor]⟩
  | pastAdditional hfresh hpast hslot hfirst hsecond =>
      refine hkeep (noteEquivocation_recent ..) fun slot' hslot' => ?_
      obtain rfl := Option.some.inj (hslot.symm.trans hslot')
      exact RecentSlot.note_conflict ..
  | staleBarrier hfresh hpast hslot hclear =>
      refine hkeep rfl fun slot' hslot' => ?_
      rw [hslot] at hslot'
      cases hslot'
  | staleUnverifiable hfresh hpast hslot hclear =>
      refine hkeep rfl fun slot' hslot' => ?_
      rw [hslot] at hslot'
      cases hslot'
  | unverifiableGap hfresh hnext hblocks => exact hkeep rfl (hahead hnext)
  | barrierApplied => exact absurd rfl hbarrier
  | applied => exact absurd rfl happlied
  | gapLimit hfresh hnext hblocks heligible hanchored hspan =>
      exact hkeep rfl (hahead (Nat.le_of_lt hnext))
  | pendingLimit hfresh hnext hblocks heligible hanchored hspan hroom =>
      exact hkeep rfl (hahead (Nat.le_of_lt hnext))
  | buffered hfresh hnext hblocks heligible hanchored hspan hroom =>
      exact hkeep rfl (hahead (Nat.le_of_lt hnext))

/-- A step that folds nothing keeps the window. -/
theorem Windowed.quiet (hw : Windowed log s) (hs : s.Invariant)
    (h : s.Step e receipt.disposition s') (happlied : receipt.disposition ≠ .applied)
    (hbarrier : receipt.disposition ≠ .barrierApplied) (hfolded : receipt.folded = []) :
    Windowed (log ++ [(e, receipt)]) s' := by
  obtain ⟨hkeys, hslots⟩ := h.window_quiet hs happlied hbarrier
  refine ⟨?_, fun {source later slot'} hwith hslot' => ?_⟩
  · rw [hkeys, h.same.limits, foldedSince_snoc, if_neg hbarrier, hfolded, List.append_nil]
    exact hw.keys
  · obtain ⟨slot, hslot, rfl⟩ := hslots hslot'
    rcases foldedWith_snoc.mp hwith with ⟨hnew, -⟩ | ⟨later', hwith', rfl⟩
    · rw [hfolded] at hnew
      cases hnew
    · rw [retainedSlot_snoc, hw.slots hwith' hslot]

/-- An application extends the window, or starts a new one at a barrier. -/
theorem Windowed.application {barrier : Bool} {sources : List (PreparedEnvelope canon)}
    {cache : CacheTransaction} (hw : Windowed log s) (hs : s.Invariant)
    (hfolded : ∀ source ∈ foldedSequence log, source.cursor < s.next)
    (hreaches : Invariant.Reaches s e barrier) (happ : s.Application e barrier sources cache s')
    (hdisp : receipt.disposition = if barrier then .barrierApplied else .applied)
    (hreceipt : receipt.folded = e :: sources) : Windowed (log ++ [(e, receipt)]) s' := by
  have hnext := hreaches.next_le
  have hdrained : ∀ k, ∀ hk : k < sources.length, sources[k].cursor = e.cursor + 1 + k :=
    fun k hk => (hs.candidate (happ.drained.pending k hk)).1
  have hcursors : (⟨e.cursor, e.fingerprint⟩ :: factsFrom (e.cursor + 1) sources).map
      (fun fact : AppliedFact => fact.cursor) = (e :: sources).map fun source => source.cursor := by
    rw [List.map_cons, List.map_cons, map_cursor_factsFrom hdrained]
  have hsorted : (⟨e.cursor, e.fingerprint⟩ :: factsFrom (e.cursor + 1) sources).Pairwise
      fun a b : AppliedFact => a.cursor < b.cursor :=
    @pairwise_factsFrom canon (e :: sources) e.cursor
  have hfact : ∀ {fact : AppliedFact},
      fact ∈ (⟨e.cursor, e.fingerprint⟩ :: factsFrom (e.cursor + 1) sources : List AppliedFact) →
      ∃ source ∈ e :: sources,
        fact = ⟨source.cursor, source.fingerprint⟩ ∧ s.next ≤ source.cursor := by
    intro fact hmem
    rcases List.mem_cons.mp hmem with rfl | hmem
    · exact ⟨e, List.mem_cons_self, rfl, hnext⟩
    · obtain ⟨k, hk, rfl⟩ := mem_factsFrom.mp hmem
      refine ⟨sources[k], List.mem_cons_of_mem _ (List.getElem_mem hk), ?_, ?_⟩
      · rw [hdrained k hk]
      · rw [hdrained k hk]
        omega
  have hunique : ∀ {x y : PreparedEnvelope canon}, x ∈ e :: sources → y ∈ e :: sources →
      x.cursor = y.cursor → x = y := by
    have hpairwise : ((e :: sources).map fun source => source.cursor).Pairwise (· < ·) := by
      rw [← hcursors]
      exact List.pairwise_map.mpr hsorted
    intro x y hx hy hxy
    exact List.inj_on_of_nodup_map hpairwise.nodup hx hy hxy
  refine ⟨?_, fun {source later slot} hwith hslot => ?_⟩
  · rw [happ.recent, happ.limits, foldedSince_snoc, hreceipt, hdisp]
    cases barrier with
    | true =>
        rw [if_pos rfl, if_pos rfl, keys_retainAll (Nat.zero_le _) (by simp) hsorted, hcursors]
        rfl
    | false =>
        have hbelow : ∀ cursor ∈ s.recent, ∀ fact ∈
            (⟨e.cursor, e.fingerprint⟩ :: factsFrom (e.cursor + 1) sources : List AppliedFact),
            cursor < fact.cursor := by
          intro cursor hcursor fact hmem
          obtain ⟨source, -, rfl, hle⟩ := hfact hmem
          exact (hs.recent_past (ExtTreeMap.getElem?_eq_some_getElem hcursor)).2.trans_le hle
        rw [if_neg (by decide), if_neg (by decide), keys_retainAll hs.recent_size hbelow hsorted,
          hw.keys, rtake_append_rtake, hcursors, List.map_append]
  · have hold : (if barrier then ∅ else s.recent)[source.cursor]? = some slot →
        s.recent[source.cursor]? = some slot ∧ source.cursor < s.next := by
      intro h
      cases barrier with
      | true => simp at h
      | false => exact ⟨h, (hs.recent_past h).2⟩
    rw [happ.recent] at hslot
    rcases foldedWith_snoc.mp hwith with ⟨hnew, rfl⟩ | ⟨later', hwith', rfl⟩
    · rw [hreceipt] at hnew
      rcases getElem?_retainAll hslot with ⟨fact, hmem, hcursor, rfl⟩ | h
      · obtain ⟨source', hsource', rfl, -⟩ := hfact hmem
        rw [hunique hsource' hnew hcursor]
        rfl
      · -- a new payload is not behind the old frontier
        have hlt := (hold h).2
        rcases List.mem_cons.mp hnew with rfl | hmem
        · omega
        · obtain ⟨k, hk, rfl⟩ := List.getElem_of_mem hmem
          rw [hdrained k hk] at hlt
          omega
    · have hlt := hfolded source hwith'.mem
      rcases getElem?_retainAll hslot with ⟨fact, hmem, hcursor, rfl⟩ | h
      · obtain ⟨source', -, rfl, hle⟩ := hfact hmem
        have : source'.cursor = source.cursor := hcursor
        omega
      · rw [retainedSlot_snoc, if_neg (by omega)]
        exact hw.slots hwith' (hold h).1

theorem Windowed.step {blueprint : StreamBlueprint}
    (hr : FoldingRun (fromBlueprint blueprint) log s) (hw : Windowed log s)
    (h : s.AdmitsFolding e receipt s') : Windowed (log ++ [(e, receipt)]) s' := by
  have hs := invariant_run (runFrom_of_folding hr)
  rcases (Admits.step h.1).quiet_or_folds with
    ⟨ha, hb, -⟩ | ⟨barrier, sources, cache, hdisp, hreaches, happ⟩
  · exact hw.quiet hs (Admits.step h.1) ha hb (h.2.trans (foldedBy_quiet ha hb))
  · have hfolded : receipt.folded = e :: sources := by
      rw [h.2, hdisp, foldedBy_application happ]
    exact hw.application hs (fun source => (disciplined_run hr).folded_lt) hreaches happ hdisp
      hfolded

/-- Every run keeps the window of its last folded cursors. -/
theorem windowed_run {blueprint : StreamBlueprint}
    (hr : FoldingRun (fromBlueprint blueprint) log s) : Windowed log s := by
  induction hr with
  | nil =>
      refine ⟨?_, fun {source later slot} _ hslot => ?_⟩
      · show (∅ : ExtTreeMap Nat RecentSlot).keys = List.rtake [] _
        rw [List.rtake_nil]
        exact ExtTreeMap.keys_eq_nil_iff.mpr rfl
      · simp [fromBlueprint] at hslot
  | snoc hr h ih => exact ih.step hr h

/-! ### Redelivery against the window -/

/-- The cursor is one of the `window` largest folded since the last
barrier. -/
def Retained (log : List (PreparedEnvelope canon × Receipt canon)) (window cursor : Nat) : Prop :=
  (∃ source ∈ foldedSince log, source.cursor = cursor) ∧
    (foldedSince log).countP (fun source => decide (cursor < source.cursor)) < window

/-- The delivery repeats the payload folded at its cursor, or the first
other one that arrived there since. -/
def Repeats (log : List (PreparedEnvelope canon × Receipt canon)) (e : PreparedEnvelope canon) :
    Prop :=
  ∃ source later, FoldedWith log source later ∧ source.cursor = e.cursor ∧
    (e.fingerprint = source.fingerprint ∨ otherVariant source later = some e.fingerprint)

variable {blueprint : StreamBlueprint}

/-- The folding sequence since the last barrier is increasing. -/
theorem pairwise_foldedSince (hr : FoldingRun (fromBlueprint blueprint) log s) :
    ((foldedSince log).map fun source => source.cursor).Pairwise (· < ·) := by
  have hcursors : ((foldedSequence log).map fun source => source.cursor).IsChain (· < ·) :=
    (List.isChain_map _).mpr ((disciplined_run hr).chain.imp fun _ _ hab => hab.1)
  exact hcursors.pairwise.sublist ((foldedSince_suffix log).sublist.map _)

theorem mem_recent_iff (hr : FoldingRun (fromBlueprint blueprint) log s) {cursor : Nat} :
    cursor ∈ s.recent ↔
      Retained log blueprint.limits.maxRecentFingerprintsPerStream.toNat cursor := by
  rw [← ExtTreeMap.mem_keys, (windowed_run hr).keys, mem_rtake_iff (pairwise_foldedSince hr),
    (same_run (runFrom_of_folding hr)).limits, List.mem_map, List.countP_map]
  rfl

/-- A retained slot belongs to a folded payload. -/
theorem slot_of_retained (hr : FoldingRun (fromBlueprint blueprint) log s) {cursor : Nat}
    {slot : RecentSlot} (hslot : s.recent[cursor]? = some slot) :
    ∃ source later, FoldedWith log source later ∧ source.cursor = cursor ∧
      slot = retainedSlot source later := by
  have hmem : cursor ∈ s.recent := ExtTreeMap.mem_iff_isSome_getElem?.mpr (by simp [hslot])
  obtain ⟨⟨source, hsource, rfl⟩, -⟩ := (mem_recent_iff hr).mp hmem
  obtain ⟨later, hwith⟩ := foldedWith_of_mem ((foldedSince_suffix log).subset hsource)
  exact ⟨source, later, hwith, rfl, (windowed_run hr).slots hwith hslot⟩

/-- The slot at a cursor covers exactly what repeats its payloads. -/
theorem covers_iff_repeats (hr : FoldingRun (fromBlueprint blueprint) log s) {slot : RecentSlot}
    (hslot : s.recent[e.cursor]? = some slot) : slot.Covers e.fingerprint ↔ Repeats log e := by
  constructor
  · intro hcovers
    obtain ⟨source, later, hwith, hcursor, rfl⟩ := slot_of_retained hr hslot
    exact ⟨source, later, hwith, hcursor, retainedSlot_covers.mp hcovers⟩
  · rintro ⟨source, later, hwith, hcursor, hfp⟩
    rw [← hcursor] at hslot
    obtain rfl := (windowed_run hr).slots hwith hslot
    exact retainedSlot_covers.mpr hfp

/-- How a delivery at or below the frontier is answered. -/
structure Answered (log : List (PreparedEnvelope canon × Receipt canon)) (window : Nat)
    (s : StreamState canon) (e : PreparedEnvelope canon) (d : Disposition)
    (s' : StreamState canon) : Prop where
  duplicate : d = .duplicate ↔ Retained log window e.cursor ∧ Repeats log e
  equivocation : d = .equivocation ↔ Retained log window e.cursor ∧ ¬ Repeats log e
  stale : (d = .staleBarrier ∨ d = .staleUnverifiable) ↔ ¬ Retained log window e.cursor
  poisoned : d = .equivocation → s'.certainty = .unknown ∧ s'.viewAuthoritative = false ∧
    s'.view = s.view ∧ s'.frontier = s.frontier
  unchanged : ¬ Retained log window e.cursor →
    ∃ diagnostics, s' = { s with diagnostics := diagnostics }

/-- Noting an equivocation behind the frontier leaves certainty unknown. -/
theorem noteEquivocation_unknown (s : StreamState canon) (cursor : Nat) :
    (s.noteEquivocation cursor true).certainty = .unknown ∧
      (s.noteEquivocation cursor true).viewAuthoritative = false := by
  have hpoison : ((s.tally Diagnostics.bumpEquivocation).setEquivocation cursor
      true).poisonCeiling.isSome = true := by
    show (mergeCeilings (some _) s.unavailableCeiling).isSome = true
    cases s.unavailableCeiling <;> rfl
  refine ⟨?_, rfl⟩
  show ((s.tally Diagnostics.bumpEquivocation).setEquivocation cursor true).certaintyOf = _
  rw [certaintyOf, hpoison, Bool.or_true, if_pos rfl]

/-- A past delivery is answered from the window. -/
theorem answered_of_past (hr : FoldingRun (fromBlueprint blueprint) log s) (ha : s.Accepts e)
    (hpast : e.cursor < s.next) :
    ∃ d s', s.admitInner e = .ok (d, s') ∧
      Answered log blueprint.limits.maxRecentFingerprintsPerStream.toNat s e d s' := by
  have hs := invariant_run (runFrom_of_folding hr)
  have hfresh : s.pending[e.cursor]? = none := by
    cases hslot : s.pending[e.cursor]? with
    | none => rfl
    | some slot =>
        have := (hs.pending_next hslot).1
        omega
  cases hslot : s.recent[e.cursor]? with
  | none =>
      have hout : ¬ Retained log blueprint.limits.maxRecentFingerprintsPerStream.toNat e.cursor := by
        rw [← mem_recent_iff hr, ExtTreeMap.mem_iff_isSome_getElem?, hslot]
        simp
      cases hclear : e.hasClear with
      | true =>
          refine ⟨_, _, (Step.staleBarrier hfresh hpast hslot hclear).admitInner_eq ha nofun nofun,
            ⟨?_, ?_, ?_, nofun, fun _ => ⟨_, rfl⟩⟩⟩
          · simp [hout]
          · simp [hout]
          · simp [hout]
      | false =>
          refine ⟨_, _,
            (Step.staleUnverifiable hfresh hpast hslot hclear).admitInner_eq ha nofun nofun,
            ⟨?_, ?_, ?_, nofun, fun _ => ⟨_, rfl⟩⟩⟩
          · simp [hout]
          · simp [hout]
          · simp [hout]
  | some slot =>
      have hin : Retained log blueprint.limits.maxRecentFingerprintsPerStream.toNat e.cursor := by
        rw [← mem_recent_iff hr, ExtTreeMap.mem_iff_isSome_getElem?, hslot]
        rfl
      have hcovers := covers_iff_repeats hr hslot
      rcases hclass : slot.classify e.fingerprint with - | first | -
      · have hrepeats := hcovers.mp (RecentSlot.classify_duplicate.mp hclass)
        refine ⟨_, _, (Step.pastDuplicate hfresh hpast hslot
          (RecentSlot.classify_duplicate.mp hclass)).admitInner_eq ha nofun nofun,
          ⟨?_, ?_, ?_, nofun, fun hout => absurd hin hout⟩⟩
        · simp [hin, hrepeats]
        · simp [hrepeats]
        · simp [hin]
      · have hother : ¬ Repeats log e := by
          rw [← hcovers, ← RecentSlot.classify_duplicate, hclass]
          nofun
        obtain ⟨rfl, hne⟩ := RecentSlot.classify_conflict.mp hclass
        refine ⟨_, _, (Step.pastConflict hfresh hpast hslot hne).admitInner_eq ha nofun nofun,
          ⟨?_, ?_, ?_, fun _ => ?_, fun hout => absurd hin hout⟩⟩
        · simp [hother]
        · simp [hin, hother]
        · simp [hin]
        · obtain ⟨hunknown, hauthority⟩ := noteEquivocation_unknown
            (s.conflictRecent e.cursor first e.fingerprint) e.cursor
          exact ⟨hunknown, hauthority, noteEquivocation_view .., noteEquivocation_frontier ..⟩
      · have hother : ¬ Repeats log e := by
          rw [← hcovers, ← RecentSlot.classify_duplicate, hclass]
          nofun
        obtain ⟨first, second, rfl, hfirst, hsecond⟩ := RecentSlot.classify_additional.mp hclass
        refine ⟨_, _,
          (Step.pastAdditional hfresh hpast hslot hfirst hsecond).admitInner_eq ha nofun nofun,
          ⟨?_, ?_, ?_, fun _ => ?_, fun hout => absurd hin hout⟩⟩
        · simp [hother]
        · simp [hin, hother]
        · simp [hin]
        · obtain ⟨hunknown, hauthority⟩ := noteEquivocation_unknown s e.cursor
          exact ⟨hunknown, hauthority, noteEquivocation_view .., noteEquivocation_frontier ..⟩

/-- After every run the window holds the largest cursors folded since the
last barrier, as many as it may, each with its folded fingerprint and the
first other one since; and that decides how a delivery at or below the
frontier is answered. -/
theorem recent_window (hr : FoldingRun (fromBlueprint blueprint) log s) :
    s.recent.size = min blueprint.limits.maxRecentFingerprintsPerStream.toNat
      (foldedSince log).length ∧
    (∀ cursor, cursor ∈ s.recent ↔
      Retained log blueprint.limits.maxRecentFingerprintsPerStream.toNat cursor) ∧
    (∀ cursor slot, s.recent[cursor]? = some slot → ∃ source later, FoldedWith log source later ∧
      source.cursor = cursor ∧ slot = retainedSlot source later) ∧
    ∀ status (e : PreparedEnvelope canon) frontier, status ≠ SessionStatus.failed → s.Accepts e →
      s.frontier = some frontier → e.cursor ≤ frontier →
      ∃ d s', s.admitDelivery status e = (.ok d, s') ∧
        Answered log blueprint.limits.maxRecentFingerprintsPerStream.toNat s e d s' := by
  refine ⟨?_, fun cursor => mem_recent_iff hr, fun cursor slot => slot_of_retained hr, ?_⟩
  · rw [← ExtTreeMap.length_keys, (windowed_run hr).keys, length_rtake, List.length_map,
      (same_run (runFrom_of_folding hr)).limits]
    rfl
  · intro status e frontier hstatus ha hfrontier hle
    have hpast : e.cursor < s.next := by
      rw [next_of_some hfrontier]
      omega
    obtain ⟨d, s', hinner, hanswered⟩ := answered_of_past hr ha hpast
    have hfailed : s.failed = false := (same_run (runFrom_of_folding hr)).failed
    exact ⟨d, s', admitDelivery_eq_ok.mpr ⟨hfailed, hstatus, hinner⟩, hanswered⟩

/-- Two stores in order, the first one delivered twice, and then again. -/
theorem window_of_dense_deliveries :
    ∃ log, historyOf log =
        [(Sample.late, .applied), (Sample.early, .applied), (Sample.late, .duplicate)] ∧
      (Sample.deliver (Sample.fresh .default) [Sample.late, Sample.early, Sample.late]).recent.size =
        min Limits.default.maxRecentFingerprintsPerStream.toNat (foldedSince log).length ∧
      ∃ d s', (Sample.deliver (Sample.fresh .default)
            [Sample.late, Sample.early, Sample.late]).admitDelivery .open_ Sample.late =
          (.ok d, s') ∧
        Answered log Limits.default.maxRecentFingerprintsPerStream.toNat
          (Sample.deliver (Sample.fresh .default) [Sample.late, Sample.early, Sample.late])
          Sample.late d s' := by
  obtain ⟨log, hhistory, hlog⟩ := RunFrom.folding Sample.dense_run
  obtain ⟨hsize, -, -, hanswered⟩ := recent_window hlog
  have haccepts : (Sample.deliver (Sample.fresh .default)
      [Sample.late, Sample.early, Sample.late]).Accepts Sample.late :=
    ⟨by decide +kernel, by decide +kernel, by decide +kernel⟩
  exact ⟨log, hhistory, hsize, hanswered .open_ Sample.late 1 (by decide) haccepts
    (by decide +kernel) (by decide)⟩

end StreamState

end KvCrucible
