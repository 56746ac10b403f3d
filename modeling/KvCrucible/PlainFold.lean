/-
KvCrucible/PlainFold.lean

The fold of a stream without its evidence.

A stream state keeps fingerprints, authority, certainty and diagnostics beside
what it folds.  `PlainFold` is the machine that is left without them: a frontier,
the keys, the payloads behind a gap and the interval of the lost cursors.  It
decides by cursors and payloads, and by the limits on gaps.

Every admission is a step of this machine (`plain_step`), so that every run is a
run of the machine (`plain_run`).  What a comparison reports of a side of a
stream is then what the machine makes of the records, and the limits on evidence
have no part in it.
-/
import KvCrucible.Forgetting
import KvCrucible.Lossless

namespace KvCrucible

open Basis Std

variable {canon : Canonical}

/-! ### The machine -/

/-- What is kept of a cursor behind a gap. -/
inductive PlainSlot where
  | clean (mutations : List Mutation)
  | conflicted

/-- The bytes that are charged for it. -/
def PlainSlot.bytes (canon : Canonical) : PlainSlot → Nat
  | .clean mutations => (canon.text mutations).length
  | .conflicted => 0

/-- The limits on what is kept behind a gap. -/
structure GapLimits where
  span : Nat
  envelopes : Nat
  bytes : Nat

/-- Those of a session. -/
def Limits.gaps (limits : Limits) : GapLimits where
  span := limits.maxGapSpanPerStream.toNat
  envelopes := limits.maxPendingEnvelopesPerStream.toNat
  bytes := limits.maxPendingCanonicalBytesPerStream.toNat

/-- A stream without evidence. -/
@[ext] structure PlainFold where
  initialCursor : Nat
  frontier : Option Nat
  baselineUnknown : Bool
  lost : Option (Nat × Nat)
  pending : ExtTreeMap Nat PlainSlot
  keys : Finset CacheKey

/-- Whether a payload has a clear. -/
def hasClear (mutations : List Mutation) : Bool := mutations.any Mutation.isClear

namespace PlainFold

variable (canon) (limits : GapLimits) (p : PlainFold) (cursor : Nat) (mutations : List Mutation)

/-- A stream before its first delivery. -/
def start (registration : RegisteredStream) : PlainFold where
  initialCursor := registration.initialCursor
  frontier := none
  baselineUnknown := registration.authority ≠ .trustDeclaredEmpty
  lost := none
  pending := ∅
  keys := ∅

/-- The cursor behind the frontier. -/
def next : Nat := p.frontier.elim p.initialCursor (· + 1)

/-- Nothing is folded at a lost cursor or above one, but a clear above all. -/
def blocks : Bool :=
  p.lost.any fun lost => lost.1 ≤ cursor && (!hasClear mutations || cursor ≤ lost.2)

/-- Lose a payload. -/
def lose : PlainFold :=
  { p with lost := some (p.lost.elim (cursor, cursor) fun lost =>
      (min lost.1 cursor, max lost.2 cursor)) }

/-- Fold the payloads that are contiguous behind `cursor`, below the lost ones. -/
def drain (pending : ExtTreeMap Nat PlainSlot) (lost : Option (Nat × Nat)) :
    (room cursor : Nat) → Finset CacheKey → Nat × Finset CacheKey
  | 0, cursor, keys => (cursor, keys)
  | room + 1, cursor, keys =>
      if lost.any (·.1 ≤ cursor + 1) then (cursor, keys)
      else
        match pending[cursor + 1]? with
        | some (.clean mutations) =>
            drain pending lost room (cursor + 1) (runMutations mutations keys)
        | _ => (cursor, keys)

/-- The lost cursors behind a payload: a clear above all of them ends them. -/
def lostBehind : Option (Nat × Nat) :=
  if hasClear mutations then p.lost.filter fun lost => cursor ≤ lost.2 else p.lost

/-- The drain behind a payload. -/
def drained : Nat × Finset CacheKey :=
  drain p.pending (p.lostBehind cursor mutations) (u64Max - cursor) cursor
    (runMutations mutations p.keys)

/-- Fold a payload and what is contiguous behind it. -/
def fold : PlainFold where
  initialCursor := p.initialCursor
  frontier := some (p.drained cursor mutations).1
  baselineUnknown := p.baselineUnknown && !hasClear mutations
  lost := p.lostBehind cursor mutations
  pending := p.pending.filter fun k _ => (p.drained cursor mutations).1 < k
  keys := (p.drained cursor mutations).2

/-- A payload behind a gap, or none of these. -/
def Waits : Prop :=
  p.next < cursor ∧ hasClear mutations = false ∧ ¬ (p.baselineUnknown = true ∧ p.frontier = none)

instance : Decidable (p.Waits cursor mutations) := by
  unfold Waits
  infer_instance

/-- The bytes that are charged for what is kept. -/
def pendingBytes : Nat := weight (PlainSlot.bytes canon) p.pending

/-- The limits leave room for a payload behind a gap. -/
def keeps : Bool :=
  cursor - p.next ≤ limits.span && p.pending.size < limits.envelopes &&
    p.pendingBytes canon + (canon.text mutations).length ≤ limits.bytes

/-- A payload at a cursor that keeps none. -/
def fresh : PlainFold :=
  if cursor < p.next then p
  else if p.blocks cursor mutations then p.lose cursor
  else if p.Waits cursor mutations then
    if p.keeps canon limits cursor mutations then
      { p with pending := p.pending.insert cursor (.clean mutations) }
    else p.lose cursor
  else p.fold cursor mutations

/-- Deliver a payload.  A second one at a cursor behind a gap, with another
fingerprint, leaves neither. -/
def deliver : PlainFold :=
  match p.pending[cursor]? with
  | some .conflicted => p
  | some (.clean first) =>
      if canon.fingerprint first = canon.fingerprint mutations then p
      else { p with pending := p.pending.insert cursor .conflicted }
  | none => p.fresh canon limits cursor mutations

/-- Deliver payloads one after another. -/
def run (deliveries : List (Nat × List Mutation)) : PlainFold :=
  deliveries.foldl (fun p delivery => p.deliver canon limits delivery.1 delivery.2) p

theorem run_snoc (deliveries : List (Nat × List Mutation)) :
    p.run canon limits (deliveries ++ [(cursor, mutations)]) =
      (p.run canon limits deliveries).deliver canon limits cursor mutations := by
  unfold run
  rw [List.foldl_append]
  rfl

end PlainFold

/-! ### A state without its evidence -/

/-- A slot without its evidence. -/
def PendingSlot.plain : PendingSlot canon → PlainSlot
  | .candidate source => .clean source.mutations
  | .conflict _ _ => .conflicted

/-- A delivery without its evidence. -/
def PreparedEnvelope.plain (e : PreparedEnvelope canon) : Nat × List Mutation :=
  (e.cursor, e.mutations)

namespace StreamState

variable {s s' : StreamState canon} {e : PreparedEnvelope canon} {d : Disposition}
  {history : History canon} {blueprint : StreamBlueprint}

/-- A state without its evidence. -/
def plain (s : StreamState canon) : PlainFold where
  initialCursor := s.initialCursor
  frontier := s.frontier
  baselineUnknown := s.baselineUnknown
  lost := s.unavailableFloor.bind fun lo => s.unavailableCeiling.map fun hi => (lo, hi)
  pending := s.pending.map fun _ slot => slot.plain
  keys := s.view.keys

theorem hasClear_eq (e : PreparedEnvelope canon) : hasClear e.mutations = e.hasClear := by
  rw [PreparedEnvelope.hasClear, e.firstClear_eq, List.findIdx?_isSome]
  rfl

theorem plain_next : s.plain.next = s.next := by
  cases hf : s.frontier with
  | none =>
      rw [next_of_none hf]
      show s.frontier.elim s.initialCursor (· + 1) = _
      rw [hf]
      rfl
  | some f =>
      rw [next_of_some hf]
      show s.frontier.elim s.initialCursor (· + 1) = _
      rw [hf]
      rfl

/-- The lost cursors are the unavailable ones. -/
theorem plain_lost {lo hi : Nat} : s.plain.lost = some (lo, hi) ↔
    s.unavailableFloor = some lo ∧ s.unavailableCeiling = some hi := by
  show s.unavailableFloor.bind _ = _ ↔ _
  cases s.unavailableFloor with
  | none => simp
  | some floor => simp [and_comm]

theorem plain_lost_none (hs : s.Core) : s.plain.lost = none ↔ s.unavailableFloor = none := by
  show s.unavailableFloor.bind _ = _ ↔ _
  cases hfloor : s.unavailableFloor with
  | none => simp
  | some floor =>
      cases hceiling : s.unavailableCeiling with
      | none =>
          rw [hs.horizon_none.mpr hceiling] at hfloor
          cases hfloor
      | some ceiling => simp

/-- A drain stops at the first lost cursor. -/
theorem plain_stops (hs : s.Core) {next : Nat} : s.plain.lost.any (·.1 ≤ next) = true ↔
    ∃ lo, s.unavailableFloor = some lo ∧ lo ≤ next := by
  cases hfloor : s.unavailableFloor with
  | none =>
      rw [(plain_lost_none hs).mpr hfloor]
      simp
  | some lo =>
      cases hceiling : s.unavailableCeiling with
      | none =>
          rw [hs.horizon_none.mpr hceiling] at hfloor
          cases hfloor
      | some hi =>
          rw [plain_lost.mpr ⟨hfloor, hceiling⟩]
          simp

/-- The horizon blocks what the lost cursors block. -/
theorem plain_blocks (hs : s.Core) :
    s.plain.blocks e.cursor e.mutations = s.unavailableBlocks e := by
  apply Bool.eq_iff_iff.mpr
  rw [unavailableBlocks_iff, PlainFold.blocks, hasClear_eq]
  cases hfloor : s.unavailableFloor with
  | none =>
      rw [(plain_lost_none hs).mpr hfloor]
      simp
  | some lo =>
      cases hceiling : s.unavailableCeiling with
      | none =>
          rw [hs.horizon_none.mpr hceiling] at hfloor
          cases hfloor
      | some hi =>
          rw [plain_lost.mpr ⟨hfloor, hceiling⟩]
          cases e.hasClear <;> simp

/-- What is kept of a cursor. -/
theorem plain_pending (cursor : Nat) :
    s.plain.pending[cursor]? = s.pending[cursor]?.map PendingSlot.plain :=
  ExtTreeMap.getElem?_map

/-! ### Applications -/

/-- The machine drains what the state drains, if both stop at the same lost
cursors. -/
theorem plain_drain {lost : Option (Nat × Nat)} {supersedes : Bool}
    (hlost : ∀ next, lost.any (·.1 ≤ next) = (!supersedes && s.floorReached next)) {room : Nat} :
    ∀ {cursor : Nat} {keys : Finset CacheKey},
      PlainFold.drain s.plain.pending lost room cursor keys =
        (cursor + (s.drainable supersedes room cursor).length,
          foldSources (s.drainable supersedes room cursor) keys) := by
  induction room with
  | zero =>
      intro cursor keys
      rfl
  | succ room ih =>
      intro cursor keys
      rw [PlainFold.drain, drainable, hlost]
      by_cases hfloor : (!supersedes && s.floorReached (cursor + 1)) = true
      · rw [if_pos hfloor, if_pos hfloor]
        rfl
      · rw [if_neg hfloor, if_neg hfloor]
        rw [plain_pending]
        cases s.pending[cursor + 1]? with
        | none => rfl
        | some slot =>
            cases slot with
            | conflict first second => rfl
            | candidate source =>
                show PlainFold.drain s.plain.pending lost room (cursor + 1) _ = _
                rw [ih, List.length_cons, Nat.add_assoc cursor 1, Nat.add_comm 1]
                rfl

/-- A clear that is no barrier comes next in an exact state. -/
theorem exact_of_no_barrier (hs : s.Invariant) (h : Invariant.Reaches s e false)
    (hclear : e.hasClear = true) : s.certaintyOf = .exact := by
  rw [← hs.certainty]
  by_contra hne
  have hbarrier := (eligibleBarrier_iff (hs.initialCursor_le.trans h.next_le) h.next_le).mpr
    ⟨hclear, fun hexact => absurd hexact hne⟩
  rw [h.eligible] at hbarrier
  cases hbarrier

/-- A barrier has a clear. -/
theorem hasClear_of_barrier (hs : s.Invariant) (h : Invariant.Reaches s e true) :
    e.hasClear = true :=
  ((eligibleBarrier_iff (hs.initialCursor_le.trans h.next_le) h.next_le).mp h.eligible).1

/-- What an application leaves of the lost cursors. -/
theorem plain_lostBehind {barrier : Bool} {sources : List (PreparedEnvelope canon)}
    {cache : CacheTransaction} (hs : s.Invariant) (h : Invariant.Reaches s e barrier)
    (happ : s.Application e barrier sources cache s') :
    s.plain.lostBehind e.cursor e.mutations = s'.plain.lost := by
  unfold PlainFold.lostBehind
  rw [hasClear_eq]
  cases barrier with
  | true =>
      rw [if_pos (hasClear_of_barrier hs h)]
      show _ = s'.unavailableFloor.bind _
      rw [happ.unavailableFloor, happ.unavailableCeiling, if_pos rfl, if_pos rfl]
      cases hceiling : s.unavailableCeiling with
      | none =>
          rw [(plain_lost_none hs.toCore).mpr (hs.horizon_none.mpr hceiling),
            hs.horizon_none.mpr hceiling]
          rfl
      | some hi =>
          cases hfloor : s.unavailableFloor with
          | none =>
              rw [hs.horizon_none.mp hfloor] at hceiling
              cases hceiling
          | some lo =>
              rw [plain_lost.mpr ⟨hfloor, hceiling⟩]
              by_cases hbelow : hi < e.cursor
              · simp [dropBelow, hbelow, Option.filter]
              · simp [dropBelow, hbelow, Option.filter, Nat.le_of_not_lt hbelow]
  | false =>
      have hlost : s'.plain.lost = s.plain.lost := by
        show s'.unavailableFloor.bind _ = s.unavailableFloor.bind _
        rw [happ.unavailableFloor, happ.unavailableCeiling]
        rfl
      rw [hlost]
      cases hclear : e.hasClear with
      | false => rfl
      | true =>
          -- an exact state lost nothing
          have hexact := hs.toCore.of_exact (exact_of_no_barrier hs h hclear)
          rw [(plain_lost_none hs.toCore).mpr hexact.2.2.1]
          rfl

/-- A state that folds a delivery folds its payload. -/
theorem plain_application {barrier : Bool} {sources : List (PreparedEnvelope canon)}
    {cache : CacheTransaction} (hs : s.Invariant) (hs' : s'.Invariant)
    (h : Invariant.Reaches s e barrier) (happ : s.Application e barrier sources cache s') :
    s'.plain = s.plain.fold e.cursor e.mutations := by
  have hlost := plain_lostBehind hs h happ
  have hstops : ∀ next, (s'.plain.lost).any (·.1 ≤ next) =
      (!s.supersedes e.cursor barrier && s.floorReached next) := by
    intro next
    apply Bool.eq_iff_iff.mpr
    rw [plain_stops hs'.toCore, happ.unavailableFloor, Bool.and_eq_true, Bool.not_eq_true']
    cases barrier with
    | true => exact stopsAtFloor_iff.symm
    | false => exact floorReached_iff.symm.trans (and_iff_right rfl).symm
  have hsources : sources =
      s.drainable (s.supersedes e.cursor barrier) (u64Max - e.cursor) e.cursor := by
    apply happ.drained.unique
    apply drained_drainable
    have hlt := e.cursor_lt
    unfold u64Max
    omega
  have hdrained : s.plain.drained e.cursor e.mutations =
      (e.cursor + sources.length, foldSources sources (runMutations e.mutations s.view.keys)) := by
    unfold PlainFold.drained
    rw [hlost, plain_drain hstops, ← hsources]
    rfl
  have hnext : s'.next = e.cursor + sources.length + 1 := by
    rw [happ.next_eq]
  apply PlainFold.ext
  · exact happ.initialCursor
  · show s'.frontier = some (s.plain.drained e.cursor e.mutations).1
    rw [hdrained, happ.frontier]
  · show s'.baselineUnknown = (s.baselineUnknown && !hasClear e.mutations)
    rw [hasClear_eq, happ.baselineUnknown]
    cases barrier with
    | true =>
        rw [hasClear_of_barrier hs h, Bool.not_true, Bool.and_false]
        rfl
    | false =>
        cases hclear : e.hasClear with
        | false => exact (Bool.and_true _).symm
        | true =>
            have hexact := hs.toCore.of_exact (exact_of_no_barrier hs h hclear)
            rw [hexact.1]
            rfl
  · exact hlost.symm
  · apply ExtTreeMap.ext_getElem?
    intro k
    show s'.plain.pending[k]? =
      (s.plain.pending.filter fun k _ => (s.plain.drained e.cursor e.mutations).1 < k)[k]?
    rw [ExtTreeMap.getElem?_filter', plain_pending, plain_pending, hs.pending_after h happ, hnext,
      hdrained]
    by_cases hk : k < e.cursor + sources.length + 1
    · have hstays : ¬ e.cursor + sources.length < k := by omega
      rw [if_pos hk]
      cases s.pending[k]? <;> simp [Option.filter, hstays]
    · have hstays : e.cursor + sources.length < k := by omega
      rw [if_neg hk]
      cases s.pending[k]? <;> simp [Option.filter, hstays]
  · show s'.view.keys = (s.plain.drained e.cursor e.mutations).2
    rw [hdrained, (happ.view_ok hs.view).1]
    rfl

/-! ### Admissions -/

section Quiet

variable (s) (cursor : Nat)

theorem plain_noteEquivocation (invalidatesView : Bool) :
    (s.noteEquivocation cursor invalidatesView).plain = s.plain := by
  cases invalidatesView with
  | true => rfl
  | false => rfl

/-- A second payload leaves none. -/
theorem plain_conflictPending (first second : SemanticFingerprint) (pendingBytes : Nat) :
    (s.conflictPending cursor first second pendingBytes).plain =
      { s.plain with pending := s.plain.pending.insert cursor .conflicted } := by
  apply PlainFold.ext
  · rfl
  · rfl
  · rfl
  · rfl
  · exact map_insert s.pending cursor _
  · rfl

/-- A delivery that is kept keeps its payload. -/
theorem plain_bufferPending (e : PreparedEnvelope canon) : (s.bufferPending e).plain =
    { s.plain with pending := s.plain.pending.insert e.cursor (.clean e.mutations) } := by
  apply PlainFold.ext
  · rfl
  · rfl
  · rfl
  · rfl
  · exact map_insert s.pending e.cursor _
  · rfl

/-- A delivery that is discarded is lost. -/
theorem plain_noteUnavailable (hs : s.Core) (bump : Nat → Diagnostics → Diagnostics) :
    (s.noteUnavailable bump cursor).plain = s.plain.lose cursor := by
  apply PlainFold.ext
  · rfl
  · rfl
  · rfl
  · show some (s.unavailableFloor.elim cursor (min · cursor), s.unavailableCeiling.elim cursor
      (max · cursor)) = some (s.plain.lost.elim _ _)
    cases hfloor : s.unavailableFloor with
    | none =>
        rw [(plain_lost_none hs).mpr hfloor, hs.horizon_none.mp hfloor]
        rfl
    | some lo =>
        cases hceiling : s.unavailableCeiling with
        | none =>
            rw [hs.horizon_none.mpr hceiling] at hfloor
            cases hfloor
        | some hi =>
            rw [plain_lost.mpr ⟨hfloor, hceiling⟩]
            rfl
  · rfl
  · rfl

end Quiet

/-- The bytes that are charged are those of the state. -/
theorem plain_pendingBytes (hs : s.Accounted) : s.plain.pendingBytes canon = s.pendingBytes := by
  rw [hs]
  apply weight_congr
  intro k
  rw [plain_pending, Option.map_map]
  cases s.pending[k]? with
  | none => rfl
  | some slot =>
      cases slot with
      | candidate source =>
          show some (canon.text source.mutations).length = some source.canonicalBytes
          rw [source.canonicalBytes_eq]
      | conflict first second => rfl

/-- The limits leave room when those of the state do. -/
theorem plain_keeps (hs : s.Accounted) :
    s.plain.keeps canon s.limits.gaps e.cursor e.mutations = true ↔
      e.cursor - s.next ≤ s.limits.maxGapSpanPerStream.toNat ∧ s.pendingRoom e = true := by
  have hsize : s.plain.pending.size = s.pending.size := ExtTreeMap.size_map
  unfold PlainFold.keeps
  rw [Bool.and_eq_true, Bool.and_eq_true, decide_eq_true_eq, decide_eq_true_eq, decide_eq_true_eq,
    pendingRoom_iff, plain_next, hsize, plain_pendingBytes hs, ← e.canonicalBytes_eq, and_assoc]
  rfl

/-- At a cursor that keeps no payload. -/
theorem deliver_fresh {limits : GapLimits} (hfresh : s.pending[e.cursor]? = none) :
    s.plain.deliver canon limits e.cursor e.mutations =
      s.plain.fresh canon limits e.cursor e.mutations := by
  unfold PlainFold.deliver
  rw [plain_pending, hfresh]
  rfl

/-- At a cursor that keeps a payload. -/
theorem deliver_candidate {limits : GapLimits} {first : PreparedEnvelope canon}
    (hslot : s.pending[e.cursor]? = some (.candidate first)) :
    s.plain.deliver canon limits e.cursor e.mutations =
      if first.fingerprint = e.fingerprint then s.plain
      else { s.plain with pending := s.plain.pending.insert e.cursor .conflicted } := by
  unfold PlainFold.deliver
  rw [plain_pending, hslot, first.fingerprint_eq, e.fingerprint_eq]
  rfl

/-- At a cursor that had two payloads. -/
theorem deliver_conflict {limits : GapLimits} {first second : SemanticFingerprint}
    (hslot : s.pending[e.cursor]? = some (.conflict first second)) :
    s.plain.deliver canon limits e.cursor e.mutations = s.plain := by
  unfold PlainFold.deliver
  rw [plain_pending, hslot]
  rfl

/-- A delivery behind a gap waits: it has no clear, or it would be a barrier. -/
theorem waits_of_gap (hs : s.Invariant) (hnext : s.next < e.cursor)
    (heligible : s.eligibleBarrier e = false)
    (hanchored : ¬ (s.baselineUnknown = true ∧ s.frontier = none)) :
    s.plain.Waits e.cursor e.mutations := by
  refine ⟨plain_next.symm ▸ hnext, ?_, hanchored⟩
  rw [hasClear_eq, ← Bool.not_eq_true]
  intro hclear
  have hbarrier := (eligibleBarrier_iff (hs.initialCursor_le.trans hnext.le) hnext.le).mpr
    ⟨hclear, fun _ => hnext⟩
  rw [heligible] at hbarrier
  cases hbarrier

/-- An application does not wait. -/
theorem not_waits_of_reaches {barrier : Bool} (hs : s.Invariant)
    (h : Invariant.Reaches s e barrier) : ¬ s.plain.Waits e.cursor e.mutations := by
  rintro ⟨hnext, hclear, hanchored⟩
  rw [plain_next] at hnext
  rw [hasClear_eq] at hclear
  cases barrier with
  | true => cases hclear.symm.trans (hasClear_of_barrier hs h)
  | false =>
      rcases h.where_ rfl with heq | hunanchored
      · omega
      · exact hanchored hunanchored

/-- Every admission is a step of the machine. -/
theorem plain_step (hs : s.Invariant) (h : s.Step e d s') :
    s'.plain = s.plain.deliver canon s.limits.gaps e.cursor e.mutations := by
  have hs' := hs.step h
  -- past the frontier nothing is folded
  have hold : s.pending[e.cursor]? = none → e.cursor < s.next →
      s.plain.deliver canon s.limits.gaps e.cursor e.mutations = s.plain := by
    intro hfresh hpast
    rw [deliver_fresh hfresh]
    exact if_pos (plain_next.symm ▸ hpast)
  -- ahead of it the lost cursors decide first
  have hahead : s.pending[e.cursor]? = none → s.next ≤ e.cursor →
      s.plain.deliver canon s.limits.gaps e.cursor e.mutations =
        if s.unavailableBlocks e then s.plain.lose e.cursor
        else if s.plain.Waits e.cursor e.mutations then
          if s.plain.keeps canon s.limits.gaps e.cursor e.mutations then
            { s.plain with pending := s.plain.pending.insert e.cursor (.clean e.mutations) }
          else s.plain.lose e.cursor
        else s.plain.fold e.cursor e.mutations := by
    intro hfresh hnext
    rw [deliver_fresh hfresh, PlainFold.fresh, plain_blocks hs.toCore,
      if_neg (plain_next.symm ▸ Nat.not_lt.mpr hnext)]
  rcases h.quiet_or_folds with ⟨hnot, hnot', -⟩ | ⟨barrier, sources, cache, -, hreaches, happ⟩
  · cases h with
    | @pendingDuplicate slot hslot hcovers =>
        cases slot with
        | candidate first =>
            rw [deliver_candidate hslot]
            exact (if_pos hcovers).symm
        | conflict first second =>
            rw [deliver_conflict hslot]
            rfl
    | pendingConflict hslot hne hbytes =>
        rw [deliver_candidate hslot, if_neg hne, plain_noteEquivocation, plain_conflictPending]
    | pendingAdditional hslot hfirst hsecond =>
        rw [deliver_conflict hslot, plain_noteEquivocation]
    | pastDuplicate hfresh hpast hslot hcovers => exact (hold hfresh hpast).symm
    | pastConflict hfresh hpast hslot hne =>
        rw [hold hfresh hpast, plain_noteEquivocation]
        rfl
    | pastAdditional hfresh hpast hslot hfirst hsecond =>
        rw [hold hfresh hpast, plain_noteEquivocation]
    | staleBarrier hfresh hpast hslot hclear => exact (hold hfresh hpast).symm
    | staleUnverifiable hfresh hpast hslot hclear => exact (hold hfresh hpast).symm
    | unverifiableGap hfresh hnext hblocks =>
        rw [hahead hfresh hnext, if_pos hblocks, plain_noteUnavailable _ _ hs.toCore]
    | gapLimit hfresh hnext hblocks heligible hanchored hspan =>
        have hfull : ¬ s.plain.keeps canon s.limits.gaps e.cursor e.mutations = true :=
          fun hkeeps => absurd ((plain_keeps hs.accounted).mp hkeeps).1 (Nat.not_le.mpr hspan)
        rw [hahead hfresh hnext.le, hblocks, if_neg Bool.false_ne_true,
          if_pos (waits_of_gap hs hnext heligible hanchored), if_neg hfull,
          plain_noteUnavailable _ _ hs.toCore]
    | pendingLimit hfresh hnext hblocks heligible hanchored hspan hroom =>
        have hfull : ¬ s.plain.keeps canon s.limits.gaps e.cursor e.mutations = true :=
          fun hkeeps => absurd ((plain_keeps hs.accounted).mp hkeeps).2 (by simp [hroom])
        rw [hahead hfresh hnext.le, hblocks, if_neg Bool.false_ne_true,
          if_pos (waits_of_gap hs hnext heligible hanchored), if_neg hfull,
          plain_noteUnavailable _ _ hs.toCore]
    | buffered hfresh hnext hblocks heligible hanchored hspan hroom =>
        rw [hahead hfresh hnext.le, hblocks, if_neg Bool.false_ne_true,
          if_pos (waits_of_gap hs hnext heligible hanchored),
          if_pos ((plain_keeps hs.accounted).mpr ⟨hspan, hroom⟩)]
        exact plain_bufferPending s e
    | barrierApplied hfresh hnext hblocks heligible happ => exact absurd rfl hnot'
    | applied hfresh hnext hblocks heligible hwhere happ => exact absurd rfl hnot
  · rw [hahead hreaches.fresh hreaches.next_le, hreaches.unblocked, if_neg Bool.false_ne_true,
      if_neg (not_waits_of_reaches hs hreaches)]
    exact plain_application hs hs' hreaches happ

theorem plain_fromBlueprint :
    (fromBlueprint blueprint : StreamState canon).plain = .start blueprint.registration := by
  apply PlainFold.ext
  · rfl
  · rfl
  · show (!decide _) = decide _
    rw [decide_not]
  · rfl
  · exact ExtTreeMap.isEmpty_iff.mp ((isEmpty_map ∅).trans ExtTreeMap.isEmpty_empty)
  · rfl

/-- Every run is a run of the machine. -/
theorem plain_run (hr : RunFrom (fromBlueprint blueprint) history s) :
    s.plain = (PlainFold.start blueprint.registration).run canon blueprint.limits.gaps
      (history.map fun x => x.1.plain) := by
  refine Run.invariant (fun history s => s.plain = (PlainFold.start blueprint.registration).run
    canon blueprint.limits.gaps (history.map fun x => x.1.plain)) plain_fromBlueprint ?_ hr
  intro history s e d s' hrun hplain hadmits
  have hlimits : s.limits = blueprint.limits := (same_run hrun).limits
  rw [plain_step (invariant_run hrun) hadmits.step, hlimits, hplain, List.map_append]
  exact (PlainFold.run_snoc ..).symm

end StreamState

end KvCrucible
