/-
KvCrucible/Horizon.lean

The unavailable horizon over a run.

`openHorizon` is read off a history alone: the cursors of discarded
deliveries that no later superseding barrier has closed.  `Spans` ties the
stored floor and ceiling to the least and the greatest of them.  While the
horizon is open nothing at or above its floor is folded, substituted or
retained, until a barrier above its ceiling closes it.
-/
import KvCrucible.Folding
import KvCrucible.Poison

namespace KvCrucible

open Basis Std

variable {canon : Canonical}

namespace StreamState

variable {s s' : StreamState canon} {e : PreparedEnvelope canon} {d : Disposition}
  {history : History canon}

/-! ### The open horizon of a history -/

/-- A barrier above every delivery discarded before it. -/
def Closes (before : History canon) (x : PreparedEnvelope canon × Disposition) : Prop :=
  x.2 = .barrierApplied ∧ ∀ y ∈ before, y.2.Discards → y.1.cursor < x.1.cursor

/-- The cursors discarded since the last closing barrier. -/
def openHorizon (history : History canon) : Set Nat :=
  {c | ∃ before x after, history = before ++ x :: after ∧ x.2.Discards ∧ x.1.cursor = c ∧
    ∀ between y later, after = between ++ y :: later → ¬ Closes (before ++ x :: between) y}

theorem openHorizon_nil : openHorizon ([] : History canon) = ∅ := by
  ext c
  simp [openHorizon]

theorem discarded_of_mem {c : Nat} (h : c ∈ openHorizon history) :
    ∃ x ∈ history, x.2.Discards ∧ x.1.cursor = c := by
  obtain ⟨before, x, after, rfl, hdiscards, hcursor, -⟩ := h
  exact ⟨x, List.mem_append_right _ List.mem_cons_self, hdiscards, hcursor⟩

/-- One more delivery opens the horizon at its cursor, closes it, or neither. -/
theorem mem_openHorizon_snoc {x : PreparedEnvelope canon × Disposition} {c : Nat} :
    c ∈ openHorizon (history ++ [x]) ↔
      (x.2.Discards ∧ x.1.cursor = c) ∨ (c ∈ openHorizon history ∧ ¬ Closes history x) := by
  constructor
  · rintro ⟨before, y, after, hsplit, hdiscards, hcursor, hopen⟩
    rcases List.eq_nil_or_concat after with rfl | ⟨init, last, rfl⟩
    · obtain ⟨-, hlast⟩ := List.append_inj' hsplit rfl
      obtain rfl : x = y := by simpa using hlast
      exact .inl ⟨hdiscards, hcursor⟩
    · have hsplit' : history ++ [x] = (before ++ y :: init) ++ [last] := by
        rw [hsplit]
        simp
      obtain ⟨rfl, hlast⟩ := List.append_inj' hsplit' rfl
      obtain rfl : x = last := by simpa using hlast
      refine .inr ⟨⟨before, y, init, rfl, hdiscards, hcursor, ?_⟩, hopen init x [] (by simp)⟩
      rintro between z later rfl
      exact hopen between z (later ++ [x]) (by simp)
  · rintro (⟨hdiscards, hcursor⟩ | ⟨⟨before, y, after, rfl, hdiscards, hcursor, hopen⟩, hnot⟩)
    · exact ⟨history, x, [], rfl, hdiscards, hcursor, by simp⟩
    · refine ⟨before, y, after ++ [x], by simp, hdiscards, hcursor, ?_⟩
      intro between z later hafter
      rcases List.eq_nil_or_concat later with rfl | ⟨init, last, rfl⟩
      · obtain ⟨rfl, hlast⟩ := List.append_inj' hafter rfl
        obtain rfl : x = z := by simpa using hlast
        exact hnot
      · have hafter' : after ++ [x] = (between ++ z :: init) ++ [last] := by
          rw [hafter]
          simp
        obtain ⟨rfl, -⟩ := List.append_inj' hafter' rfl
        exact hopen between z init rfl

/-- Without a discard and without a closing barrier the horizon stays. -/
theorem openHorizon_snoc_keep (hd : ¬ d.Discards) (hcloses : ¬ Closes history (e, d)) :
    openHorizon (history ++ [(e, d)]) = openHorizon history := by
  ext c
  rw [mem_openHorizon_snoc]
  constructor
  · rintro (⟨hd', -⟩ | ⟨hc, -⟩)
    · exact absurd hd' hd
    · exact hc
  · exact fun hc => .inr ⟨hc, hcloses⟩

theorem openHorizon_snoc_quiet (hne : d ≠ .barrierApplied) (hd : ¬ d.Discards) :
    openHorizon (history ++ [(e, d)]) = openHorizon history :=
  openHorizon_snoc_keep hd fun hcloses => hne hcloses.1

theorem openHorizon_snoc_discard (hd : d.Discards) :
    openHorizon (history ++ [(e, d)]) = insert e.cursor (openHorizon history) := by
  ext c
  have hcloses : ¬ Closes history (e, d) := by
    rintro ⟨hbarrier, -⟩
    obtain rfl : d = .barrierApplied := hbarrier
    exact absurd hd (by decide)
  rw [mem_openHorizon_snoc, Set.mem_insert_iff]
  constructor
  · rintro (⟨-, hcursor⟩ | ⟨hc, -⟩)
    · exact .inl hcursor.symm
    · exact .inr hc
  · rintro (hcursor | hc)
    · exact .inl ⟨hd, hcursor.symm⟩
    · exact .inr ⟨hc, hcloses⟩

theorem openHorizon_snoc_closes (hcloses : Closes history (e, d)) :
    openHorizon (history ++ [(e, d)]) = ∅ := by
  ext c
  rw [mem_openHorizon_snoc]
  constructor
  · rintro (⟨hd, -⟩ | ⟨-, hnot⟩)
    · have hbarrier : d = .barrierApplied := hcloses.1
      subst hbarrier
      exact absurd hd (by decide : ¬ Disposition.barrierApplied.Discards)
    · exact absurd hcloses hnot
  · exact fun hc => absurd hc (Set.notMem_empty c)

/-! ### Floor and ceiling -/

/-- An optional pair of bounds describes a set of cursors. -/
structure Spans (open_ : Set Nat) (floor ceiling : Option Nat) : Prop where
  least : ∀ lo, floor = some lo → IsLeast open_ lo
  greatest : ∀ hi, ceiling = some hi → IsGreatest open_ hi
  closed : floor = none → open_ = ∅
  both : floor = none ↔ ceiling = none

theorem Spans.empty : Spans ∅ none none := ⟨nofun, nofun, fun _ => rfl, Iff.rfl⟩

/-- One more discarded cursor. -/
theorem Spans.insert {open_ : Set Nat} {floor ceiling : Option Nat} {cursor : Nat}
    (h : Spans open_ floor ceiling) :
    Spans (insert cursor open_) (some (floor.elim cursor (min · cursor)))
      (some (ceiling.elim cursor (max · cursor))) where
  least := fun lo hlo => by
    cases hlo
    cases hfloor : floor with
    | none =>
        rw [h.closed hfloor]
        simp
    | some old =>
        show IsLeast _ (min old cursor)
        rw [Nat.min_comm]
        exact (h.least old hfloor).insert cursor
  greatest := fun hi hhi => by
    cases hhi
    cases hceil : ceiling with
    | none =>
        rw [h.closed (h.both.mpr hceil)]
        simp
    | some old =>
        show IsGreatest _ (max old cursor)
        rw [Nat.max_comm]
        exact (h.greatest old hceil).insert cursor
  closed := nofun
  both := by simp

/-- A barrier that passes the ceiling empties the set, any other leaves the
bounds alone. -/
theorem Spans.dropBelow {open_ : Set Nat} {floor ceiling : Option Nat}
    (h : Spans open_ floor ceiling)
    (cursor : Nat) :
    Spans (if dropBelow ceiling cursor ceiling = none then ∅ else open_)
      (dropBelow ceiling cursor floor) (dropBelow ceiling cursor ceiling) := by
  cases hceil : ceiling with
  | none =>
      have hfloor := h.both.mpr hceil
      rw [hfloor]
      exact .empty
  | some hi =>
      by_cases hpassed : hi < cursor
      · have hdrop : ∀ value, StreamState.dropBelow (some hi) cursor value = none := by
          intro value
          simp [StreamState.dropBelow, hpassed]
        rw [hdrop, hdrop, if_pos rfl]
        exact .empty
      · have hkeep : ∀ value, StreamState.dropBelow (some hi) cursor value = value := by
          intro value
          simp [StreamState.dropBelow, hpassed]
        rw [hkeep, hkeep, if_neg (Option.some_ne_none hi), ← hceil]
        exact h

/-- The stored horizon is the open horizon of the history. -/
def Spanned (history : History canon) (s : StreamState canon) : Prop :=
  Spans (openHorizon history) s.unavailableFloor s.unavailableCeiling

/-- A barrier closes the horizon exactly when it drops the ceiling. -/
theorem openHorizon_snoc_barrier (hp : Poisoned history s) (hnext : s.next ≤ e.cursor) :
    openHorizon (history ++ [(e, .barrierApplied)]) =
      if dropBelow s.unavailableCeiling e.cursor s.unavailableCeiling = none then ∅
      else openHorizon history := by
  have habove := hp.unavailable.above_iff hnext
  split
  next hdrop => exact openHorizon_snoc_closes ⟨rfl, habove.mpr hdrop⟩
  next hkeep => exact openHorizon_snoc_keep (by decide) fun hcloses => hkeep (habove.mp hcloses.2)

theorem Spanned.step (hf : Spanned history s) (hp : Poisoned history s) (h : s.Step e d s') :
    Spanned (history ++ [(e, d)]) s' := by
  unfold Spanned at hf ⊢
  rcases h.effect with ⟨hd, -, hsame⟩ | ⟨hd, -, -, hfloor, hceil⟩ |
    ⟨hd, -, -, -, hfloor, hceil⟩ | ⟨barrier, sources, cache, hd, hreaches, happ⟩
  · rw [openHorizon_snoc_quiet hd.2 (not_or.mp hd.1).2, hsame.floor, hsame.ceiling]
    exact hf
  · subst hd
    rw [openHorizon_snoc_quiet (by decide) (by decide), hfloor, hceil]
    exact hf
  · rw [openHorizon_snoc_discard hd, hfloor, hceil]
    exact hf.insert
  · rw [happ.unavailableFloor, happ.unavailableCeiling, hd]
    cases barrier with
    | false =>
        show Spans (openHorizon (history ++ [(e, .applied)])) s.unavailableFloor
          s.unavailableCeiling
        rw [openHorizon_snoc_quiet (by decide) (by decide)]
        exact hf
    | true =>
        show Spans (openHorizon (history ++ [(e, .barrierApplied)])) (dropBelow _ _ _)
          (dropBelow _ _ _)
        rw [openHorizon_snoc_barrier hp hreaches.next_le]
        exact hf.dropBelow e.cursor

variable {blueprint : StreamBlueprint}

theorem spanned_run (hr : RunFrom (fromBlueprint blueprint) history s) :
    Poisoned history s ∧ Spanned history s := by
  refine Run.invariant (fun history (s : StreamState canon) =>
    Poisoned history s ∧ Spanned history s) ⟨⟨.nil, .nil⟩, ?_⟩ ?_ hr
  · unfold Spanned
    rw [openHorizon_nil]
    exact .empty
  · rintro history s e d s' - ⟨hp, hf⟩ h
    exact ⟨hp.step (Admits.step h), hf.step hp (Admits.step h)⟩

/-! ### While the horizon is open -/

variable {lo hi : Nat}

/-- The stored horizon stops what is inside it, or at or above its floor without
a clear. -/
theorem unavailableBlocks_of_horizon (hlo : s.unavailableFloor = some lo)
    (hhi : s.unavailableCeiling = some hi) (hfloor : lo ≤ e.cursor)
    (hclear : e.hasClear = true → e.cursor ≤ hi) : s.unavailableBlocks e = true := by
  rw [unavailableBlocks_iff]
  refine ⟨lo, hlo, hfloor, fun hc hi' hhi' => ?_⟩
  obtain rfl := Option.some.inj (hhi.symm.trans hhi')
  exact hclear hc

/-- A delivery inside the horizon, or at or above its floor without a clear,
is discarded: nothing is folded and nothing retained. -/
theorem blocked (hlo : s.unavailableFloor = some lo) (hhi : s.unavailableCeiling = some hi)
    (hs : s.Invariant) (h : s.Step e d s') (hfloor : lo ≤ e.cursor)
    (hfresh : s.pending[e.cursor]? = none) (hclear : e.hasClear = true → e.cursor ≤ hi) :
    d = .unverifiableGap ∧ s'.view = s.view ∧ s'.frontier = s.frontier ∧
      s'.pending = s.pending ∧ s'.recent = s.recent := by
  have hnext : s.next ≤ e.cursor := (hs.horizon hlo hhi).1.trans hfloor
  have hblocks : ¬ s.unavailableBlocks e = false :=
    (Bool.not_eq_false _).mpr (unavailableBlocks_of_horizon hlo hhi hfloor hclear)
  cases h with
  | pendingDuplicate hslot hcovers => rw [hfresh] at hslot; cases hslot
  | pendingConflict hslot hne hbytes => rw [hfresh] at hslot; cases hslot
  | pendingAdditional hslot hfirst hsecond => rw [hfresh] at hslot; cases hslot
  | pastDuplicate _ hpast hslot hcovers => omega
  | pastConflict _ hpast hslot hne => omega
  | pastAdditional _ hpast hslot hfirst hsecond => omega
  | staleBarrier _ hpast hslot _ => omega
  | staleUnverifiable _ hpast hslot _ => omega
  | unverifiableGap _ _ _ => exact ⟨rfl, rfl, rfl, rfl, rfl⟩
  | barrierApplied _ _ hnot _ happ => exact absurd hnot hblocks
  | applied _ _ hnot _ hwhere happ => exact absurd hnot hblocks
  | gapLimit _ _ hnot _ hanchored hspan => exact absurd hnot hblocks
  | pendingLimit _ _ hnot _ hanchored hspan hroom => exact absurd hnot hblocks
  | buffered _ _ hnot _ hanchored hspan hroom => exact absurd hnot hblocks

/-- While it is open, the state does take such a delivery of its stream. -/
theorem admits_blocked {status : SessionStatus} (hlo : s.unavailableFloor = some lo)
    (hhi : s.unavailableCeiling = some hi) (hs : s.Invariant) (hfailed : s.failed = false)
    (hstatus : status ≠ .failed) (ha : s.Accepts e) (hfloor : lo ≤ e.cursor)
    (hfresh : s.pending[e.cursor]? = none) (hclear : e.hasClear = true → e.cursor ≤ hi) :
    ∃ s', s.admitDelivery status e = (.ok .unverifiableGap, s') := by
  have hnext : s.next ≤ e.cursor := (hs.horizon hlo hhi).1.trans hfloor
  have hstep := Step.unverifiableGap hfresh hnext
    (unavailableBlocks_of_horizon hlo hhi hfloor hclear)
  exact ⟨_, admitDelivery_eq_ok.mpr ⟨hfailed, hstatus, hstep.admitInner_eq ha nofun nofun⟩⟩

/-- Unless it is a barrier above the ceiling, a step folds below the floor
only. -/
theorem folded_below (hlo : s.unavailableFloor = some lo) (hhi : s.unavailableCeiling = some hi)
    (hs : s.Invariant) (h : s.Step e d s') (hbarrier : d = .barrierApplied → e.cursor ≤ hi) :
    ∀ source ∈ s.foldedBy e d, source.cursor < lo := by
  intro source hsource
  rcases h.quiet_or_folds with
    ⟨ha, hb, -⟩ | ⟨barrier, sources, cache, hdisp, hreaches, happ⟩
  · rw [foldedBy_quiet ha hb] at hsource
    cases hsource
  · rw [hdisp, foldedBy_application happ] at hsource
    obtain ⟨hbelow, hsup⟩ : e.cursor < lo ∧ s.supersedes e.cursor barrier = false := by
      refine (hs.floor_of_reaches hreaches hlo).resolve_right ?_
      rintro ⟨rfl, hi', hhi', hlt⟩
      obtain rfl := Option.some.inj (hhi.symm.trans hhi')
      have := hbarrier hdisp
      omega
    rcases List.mem_cons.mp hsource with rfl | hdrained
    · exact hbelow
    · -- the drain stops at the floor
      obtain ⟨k, hk, rfl⟩ := List.getElem_of_mem hdrained
      have hreached := happ.drained.floor k hk hsup
      rw [Bool.eq_false_iff, Ne, floorReached_iff] at hreached
      rw [(hs.candidate (happ.drained.pending k hk)).1]
      exact Nat.lt_of_not_le fun hle => hreached ⟨lo, hlo, hle⟩

/-- A discarded cursor stays in the horizon until a barrier passes it. -/
theorem mem_openHorizon_append {later : History canon} (hlo : lo ∈ openHorizon history)
    (hhi : hi ∈ openHorizon history)
    (hlater : ∀ x ∈ later, x.2 = .barrierApplied → x.1.cursor ≤ hi) :
    lo ∈ openHorizon (history ++ later) := by
  obtain ⟨y, hy, hdiscards, rfl⟩ := discarded_of_mem hhi
  induction later using List.reverseRecOn with
  | nil =>
      rw [List.append_nil]
      exact hlo
  | append_singleton later x ih =>
      rw [← List.append_assoc, mem_openHorizon_snoc]
      refine .inr ⟨ih fun z hz => hlater z (List.mem_append_left _ hz), ?_⟩
      rintro ⟨hbarrier, hpassed⟩
      have := hpassed y (List.mem_append_left _ hy) hdiscards
      have := hlater x (List.mem_append_right _ (List.mem_singleton.mpr rfl)) hbarrier
      omega

/-- A nonempty open horizon is what the state stores. -/
theorem Spanned.bounds (hf : Spanned history s) (hopen : (openHorizon history).Nonempty) :
    ∃ lo hi, s.unavailableFloor = some lo ∧ s.unavailableCeiling = some hi := by
  cases hlo : s.unavailableFloor with
  | none =>
      rw [hf.closed hlo] at hopen
      exact absurd hopen Set.not_nonempty_empty
  | some lo =>
      cases hhi : s.unavailableCeiling with
      | none =>
          rw [hf.both.mpr hhi] at hlo
          cases hlo
      | some hi => exact ⟨lo, hi, rfl, rfl⟩

/-- Until a barrier passes the ceiling, a run folds below the floor only. -/
theorem folded_below_run {log : List (PreparedEnvelope canon × Receipt canon)}
    (hr : RunFrom (fromBlueprint blueprint) history s) (hlo : lo ∈ openHorizon history)
    (hhi : hi ∈ openHorizon history) (hlog : FoldingRun s log s')
    (hlater : ∀ x ∈ historyOf log, x.2 = .barrierApplied → x.1.cursor ≤ hi) :
    ∀ source ∈ foldedSequence log, source.cursor < lo := by
  induction hlog with
  | nil =>
      intro source hsource
      cases hsource
  | @snoc log s₁ e receipt s₂ hlog h ih =>
      rw [historyOf_snoc] at hlater
      have hbefore : ∀ x ∈ historyOf log, x.2 = .barrierApplied → x.1.cursor ≤ hi :=
        fun x hx => hlater x (List.mem_append_left _ hx)
      intro source hsource
      rw [foldedSequence_snoc, h.2] at hsource
      rcases List.mem_append.mp hsource with hold | hnew
      · exact ih hbefore source hold
      · -- the horizon at this step still contains both cursors
        have hr₁ := hr.append (runFrom_of_folding hlog)
        obtain ⟨-, hspanned⟩ := spanned_run hr₁
        have hlo₁ := mem_openHorizon_append hlo hhi hbefore
        have hhi₁ := mem_openHorizon_append hhi hhi hbefore
        obtain ⟨lo', hi', hfloor, hceil⟩ := hspanned.bounds ⟨lo, hlo₁⟩
        have hbelow := folded_below hfloor hceil (invariant_run hr₁) (Admits.step h.1)
          (fun hbarrier => ?_) source hnew
        · exact Nat.lt_of_lt_of_le hbelow ((hspanned.least lo' hfloor).2 hlo₁)
        · have hle := hlater (e, receipt.disposition)
            (List.mem_append_right _ (List.mem_singleton.mpr rfl)) hbarrier
          exact hle.trans ((hspanned.greatest hi' hceil).2 hhi₁)

/-- While the horizon is open it has a least and a greatest cursor; the
frontier stays below it, deliveries into it are taken and discarded without a
trace, and nothing at or above its floor is folded before a barrier above its
ceiling. -/
theorem unavailable_horizon_blocks (hr : RunFrom (fromBlueprint blueprint) history s)
    (hopen : (openHorizon history).Nonempty) :
    ∃ lo hi, IsLeast (openHorizon history) lo ∧ IsGreatest (openHorizon history) hi ∧
      (∀ f, s.frontier = some f → f < lo) ∧
      (∀ e d s', s.Admits e d s' → lo ≤ e.cursor → s.pending[e.cursor]? = none →
        (e.hasClear = true → e.cursor ≤ hi) →
        d = .unverifiableGap ∧ s'.view = s.view ∧ s'.frontier = s.frontier ∧
          s'.pending = s.pending ∧ s'.recent = s.recent) ∧
      (∀ status e, status ≠ SessionStatus.failed → s.Accepts e → lo ≤ e.cursor →
        s.pending[e.cursor]? = none → (e.hasClear = true → e.cursor ≤ hi) →
        ∃ s', s.admitDelivery status e = (.ok .unverifiableGap, s') ∧ s'.view = s.view ∧
          s'.frontier = s.frontier ∧ s'.pending = s.pending ∧ s'.recent = s.recent) ∧
      (∀ log s', FoldingRun s log s' →
        (∀ x ∈ historyOf log, x.2 = .barrierApplied → x.1.cursor ≤ hi) →
        ∀ source ∈ foldedSequence log, source.cursor < lo) := by
  obtain ⟨-, hspanned⟩ := spanned_run hr
  have hs := invariant_run hr
  obtain ⟨lo, hi, hlo, hhi⟩ := hspanned.bounds hopen
  have hleast := hspanned.least lo hlo
  have hgreatest := hspanned.greatest hi hhi
  refine ⟨lo, hi, hleast, hgreatest, fun f hf => ?_, fun e d s' h => ?_,
    fun status e hstatus ha hfloor hfresh hclear => ?_, fun log s' hlog => ?_⟩
  · exact above_of_next_le (hs.horizon hlo hhi).1 hf
  · exact blocked hlo hhi hs (Admits.step h)
  · obtain ⟨s', h⟩ := admits_blocked hlo hhi hs (same_run hr).failed hstatus ha hfloor hfresh hclear
    exact ⟨s', h, (blocked hlo hhi hs (Admits.step ⟨status, h⟩) hfloor hfresh hclear).2⟩
  · exact folded_below_run hr hleast.1 hgreatest.1 hlog

end StreamState

/-! ### A stopped drain -/

namespace Sample

open StreamState

/-- The default limits with room for two pending deliveries. -/
def roomForTwo : Limits := { Limits.default with maxPendingEnvelopesPerStream := 2 }

/-- A store at the third cursor. -/
def unheld : PreparedEnvelope canonical := source "third" 2 [store 3]

/-- A store at the fourth cursor. -/
def ahead : PreparedEnvelope canonical := source "fourth" 3 [store 4]

/-- The state that holds the second and the fourth store and had no room for
the third one. -/
def holed : StreamState canonical := deliver (fresh roomForTwo) [early, ahead, unheld]

/-- Two stores fill the room, and the one between them is discarded. -/
theorem holed_run : RunFrom (fresh roomForTwo)
    [(early, .buffered), (ahead, .buffered), (unheld, .pendingLimit)] holed := by
  have hearly : (fresh roomForTwo).Admits early .buffered (deliver (fresh roomForTwo) [early]) :=
    admits_of_result (by decide +kernel)
  have hfourth : (deliver (fresh roomForTwo) [early]).Admits ahead .buffered
      (deliver (fresh roomForTwo) [early, ahead]) := admits_of_result (by decide +kernel)
  have hthird : (deliver (fresh roomForTwo) [early, ahead]).Admits unheld .pendingLimit holed :=
    admits_of_result (by decide +kernel)
  exact .snoc (.snoc (.snoc .nil hearly) hfourth) hthird

/-- The state accepts the discarded store and holds nothing at its cursor. -/
theorem holed_accepts : holed.Accepts unheld ∧ holed.pending[unheld.cursor]? = none := by
  have hseen : (unheld.session = holed.session ∧ unheld.streamId = holed.streamId ∧
      holed.initialCursor ≤ unheld.cursor) ∧ holed.pending[unheld.cursor]? = none := by
    decide +kernel
  obtain ⟨⟨hsession, hstream, hinitial⟩, hfree⟩ := hseen
  exact ⟨⟨hsession, hstream, hinitial⟩, hfree⟩

/-- The missing first store is folded, and after it what is below the hole. -/
theorem holed_drains : (holed.admitDelivery .open_ late).1 = .ok .applied ∧
    (holed.foldedBy late .applied).map (fun source => source.cursor) = [0, 1] ∧
    (deliver holed [late]).frontier = some 1 ∧ (deliver holed [late]).pending.keys = [3] := by
  decide +kernel

end Sample

namespace StreamState

/-- The horizon behind two buffered stores and a discarded one between them:
the discarded store is taken again and again discarded, and the missing first
store drains the one below the hole and leaves the one above it. -/
theorem horizon_of_discarded_delivery :
    IsLeast (openHorizon [(Sample.early, .buffered), (Sample.ahead, .buffered),
      (Sample.unheld, .pendingLimit)]) 2 ∧
    IsGreatest (openHorizon [(Sample.early, .buffered), (Sample.ahead, .buffered),
      (Sample.unheld, .pendingLimit)]) 2 ∧
    (∃ s', Sample.holed.admitDelivery .open_ Sample.unheld = (.ok .unverifiableGap, s') ∧
      s'.view = Sample.holed.view ∧ s'.frontier = Sample.holed.frontier ∧
      s'.pending = Sample.holed.pending ∧ s'.recent = Sample.holed.recent) ∧
    ∃ folded, FoldingRun Sample.holed [(Sample.late, ⟨.applied, folded⟩)]
        (Sample.deliver Sample.holed [Sample.late]) ∧
      folded.map (fun source => source.cursor) = [0, 1] ∧ (∀ source ∈ folded, source.cursor < 2) ∧
      (Sample.deliver Sample.holed [Sample.late]).frontier = some 1 ∧
      (Sample.deliver Sample.holed [Sample.late]).pending.keys = [3] := by
  have hopen : openHorizon [(Sample.early, Disposition.buffered), (Sample.ahead, .buffered),
      (Sample.unheld, .pendingLimit)] = {2} := by
    show openHorizon ((([] ++ [_]) ++ [_]) ++ [_]) = _
    rw [openHorizon_snoc_discard (.inl rfl), openHorizon_snoc_quiet (by decide) (by decide),
      openHorizon_snoc_quiet (by decide) (by decide), openHorizon_nil]
    exact insert_empty_eq _
  obtain ⟨lo, hi, hleast, hgreatest, -, -, hblocked, hfolds⟩ :=
    unavailable_horizon_blocks Sample.holed_run (hopen ▸ Set.singleton_nonempty 2)
  rw [hopen] at hleast hgreatest ⊢
  obtain rfl : lo = 2 := hleast.1
  obtain rfl : hi = 2 := hgreatest.1
  obtain ⟨haccepts, hfree⟩ := Sample.holed_accepts
  obtain ⟨happlied, hcursors, hfrontier, hkeys⟩ := Sample.holed_drains
  have hfill : Sample.holed.Admits Sample.late .applied
      (Sample.deliver Sample.holed [Sample.late]) := admits_of_result happlied
  have hfolding := hfill.folding
  generalize Sample.holed.foldedBy Sample.late .applied = folded at hcursors hfolding
  have hrun : FoldingRun Sample.holed [(Sample.late, ⟨.applied, folded⟩)]
      (Sample.deliver Sample.holed [Sample.late]) := .snoc .nil hfolding
  have hbelow := hfolds _ _ hrun (by simp [historyOf])
  rw [foldedSequence, List.flatMap_singleton] at hbelow
  exact ⟨hleast, hgreatest, hblocked .open_ Sample.unheld (by decide) haccepts (by decide) hfree
    (by decide), folded, hrun, hcursors, hbelow, hfrontier, hkeys⟩

end StreamState

end KvCrucible
