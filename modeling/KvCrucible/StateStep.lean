/-
KvCrucible/StateStep.lean

What one successful admission does: the inversion of `admit`.

`StreamState.Step` lists the ways `admit_inner` can succeed, each with the
guards that lead there and the state it leaves.  Every invariant of the
development is derived from it; no later proof unfolds `admit_inner`.
-/
import KvCrucible.Basis.Run
import KvCrucible.StateApply

namespace KvCrucible

open Basis Std

variable {canon : Canonical}

/-! ### Redelivery -/

/-- A retained slot already covers a fingerprint. -/
def RecentSlot.Covers : RecentSlot → SemanticFingerprint → Prop
  | .candidate first, fingerprint => first = fingerprint
  | .conflict first second, fingerprint => first = fingerprint ∨ second = fingerprint

theorem RecentSlot.classify_duplicate {slot : RecentSlot} {fingerprint : SemanticFingerprint} :
    slot.classify fingerprint = .duplicate ↔ slot.Covers fingerprint := by
  cases slot with
  | candidate first =>
      by_cases h : first = fingerprint
      · simp [classify, Covers, h]
      · simp [classify, Covers, h]
  | conflict first second =>
      by_cases h : first = fingerprint ∨ second = fingerprint
      · simp [classify, Covers, h]
      · simp [classify, Covers, h]

theorem RecentSlot.classify_conflict {slot : RecentSlot}
    {first fingerprint : SemanticFingerprint} :
    slot.classify fingerprint = .conflict first ↔
      slot = .candidate first ∧ first ≠ fingerprint := by
  cases slot with
  | candidate first' =>
      by_cases h : first' = fingerprint
      · simp only [classify, if_pos h, reduceCtorEq, candidate.injEq, false_iff, not_and, ne_eq,
          not_not]
        rintro rfl
        exact h
      · simp only [classify, if_neg h, Redelivery.conflict.injEq, candidate.injEq, ne_eq]
        constructor
        · rintro rfl
          exact ⟨rfl, h⟩
        · exact And.left
  | conflict first' second' =>
      simp only [classify, reduceCtorEq, false_and, iff_false]
      split <;> simp

theorem RecentSlot.classify_additional {slot : RecentSlot} {fingerprint : SemanticFingerprint} :
    slot.classify fingerprint = .additionalConflict ↔
      ∃ first second, slot = .conflict first second ∧ first ≠ fingerprint ∧
        second ≠ fingerprint := by
  cases slot with
  | candidate first =>
      simp only [classify, reduceCtorEq, false_and, exists_false, iff_false]
      split <;> simp
  | conflict first second =>
      by_cases h : first = fingerprint ∨ second = fingerprint
      · simp only [classify, if_pos h, reduceCtorEq, conflict.injEq, false_iff, not_exists,
          not_and, ne_eq, not_not]
        rintro f g ⟨rfl, rfl⟩ hf
        exact h.resolve_left hf
      · simp only [classify, if_neg h, true_iff]
        exact ⟨first, second, rfl, fun hf => h (.inl hf), fun hs => h (.inr hs)⟩

namespace StreamState

variable {s s' : StreamState canon} {e : PreparedEnvelope canon} {d : Disposition}

/-! ### The states the non-folding ways leave -/

/-- A conflicting redelivery is counted and raises the equivocation ceiling. -/
def noteEquivocation (s : StreamState canon) (cursor : Nat) (invalidatesView : Bool) :
    StreamState canon :=
  ((s.tally Diagnostics.bumpEquivocation).setEquivocation cursor invalidatesView).recomputeCertainty

section NoteEquivocation

variable (s) (cursor : Nat) (invalidatesView : Bool)

@[simp] theorem noteEquivocation_pending :
    (s.noteEquivocation cursor invalidatesView).pending = s.pending := by
  cases invalidatesView <;> rfl

@[simp] theorem noteEquivocation_recent :
    (s.noteEquivocation cursor invalidatesView).recent = s.recent := by
  cases invalidatesView <;> rfl

@[simp] theorem noteEquivocation_frontier :
    (s.noteEquivocation cursor invalidatesView).frontier = s.frontier := by
  cases invalidatesView <;> rfl

@[simp] theorem noteEquivocation_next :
    (s.noteEquivocation cursor invalidatesView).next = s.next := by
  cases invalidatesView <;> rfl

@[simp] theorem noteEquivocation_view :
    (s.noteEquivocation cursor invalidatesView).view = s.view := by
  cases invalidatesView <;> rfl

@[simp] theorem noteEquivocation_unavailableFloor :
    (s.noteEquivocation cursor invalidatesView).unavailableFloor = s.unavailableFloor := by
  cases invalidatesView <;> rfl

@[simp] theorem noteEquivocation_unavailableCeiling :
    (s.noteEquivocation cursor invalidatesView).unavailableCeiling = s.unavailableCeiling := by
  cases invalidatesView <;> rfl

@[simp] theorem noteEquivocation_equivocationCeiling :
    (s.noteEquivocation cursor invalidatesView).equivocationCeiling =
      some (s.equivocationCeiling.elim cursor (max · cursor)) := by
  cases invalidatesView <;> rfl

end NoteEquivocation

/-- A discarded delivery is counted and widens the unavailable horizon. -/
def noteUnavailable (s : StreamState canon) (bump : Nat → Diagnostics → Diagnostics)
    (cursor : Nat) : StreamState canon :=
  ((s.tally bump).setUnavailable cursor).recomputeCertainty

/-- A pending candidate turns into a conflict slot. -/
def conflictPending (s : StreamState canon) (cursor : Nat) (first second : SemanticFingerprint)
    (pendingBytes : Nat) : StreamState canon :=
  { s with
    pending := s.pending.insert cursor (.conflict first second)
    pendingBytes := pendingBytes }

/-- A retained fingerprint turns into a conflict slot. -/
def conflictRecent (s : StreamState canon) (cursor : Nat) (first second : SemanticFingerprint) :
    StreamState canon :=
  { s with recent := s.recent.insert cursor (.conflict first second) }

/-- A delivery is retained behind a gap. -/
def bufferPending (s : StreamState canon) (source : PreparedEnvelope canon) : StreamState canon :=
  { s with
    pendingBytes := s.pendingBytes + source.canonicalBytes
    pending := s.pending.insert source.cursor (.candidate source) }

/-! ### The ways to succeed -/

/-- The ways `admit_inner` can succeed on `e`. -/
inductive Step (s : StreamState canon) (e : PreparedEnvelope canon) :
    Disposition → StreamState canon → Prop
  | pendingDuplicate {slot : PendingSlot canon} (hslot : s.pending[e.cursor]? = some slot)
      (hcovers : slot.evidence.Covers e.fingerprint) :
      Step s e .duplicate (s.tally Diagnostics.bumpDuplicate)
  | pendingConflict {first : PreparedEnvelope canon}
      (hslot : s.pending[e.cursor]? = some (.candidate first))
      (hne : first.fingerprint ≠ e.fingerprint) (hbytes : first.canonicalBytes ≤ s.pendingBytes) :
      Step s e .equivocation ((s.conflictPending e.cursor first.fingerprint e.fingerprint
        (s.pendingBytes - first.canonicalBytes)).noteEquivocation e.cursor false)
  | pendingAdditional {first second : SemanticFingerprint}
      (hslot : s.pending[e.cursor]? = some (.conflict first second))
      (hfirst : first ≠ e.fingerprint) (hsecond : second ≠ e.fingerprint) :
      Step s e .equivocation (s.noteEquivocation e.cursor false)
  | pastDuplicate {slot : RecentSlot} (hfresh : s.pending[e.cursor]? = none)
      (hpast : e.cursor < s.next) (hslot : s.recent[e.cursor]? = some slot)
      (hcovers : slot.Covers e.fingerprint) :
      Step s e .duplicate (s.tally Diagnostics.bumpDuplicate)
  | pastConflict {first : SemanticFingerprint} (hfresh : s.pending[e.cursor]? = none)
      (hpast : e.cursor < s.next) (hslot : s.recent[e.cursor]? = some (.candidate first))
      (hne : first ≠ e.fingerprint) :
      Step s e .equivocation ((s.conflictRecent e.cursor first e.fingerprint).noteEquivocation
        e.cursor true)
  | pastAdditional {first second : SemanticFingerprint} (hfresh : s.pending[e.cursor]? = none)
      (hpast : e.cursor < s.next) (hslot : s.recent[e.cursor]? = some (.conflict first second))
      (hfirst : first ≠ e.fingerprint) (hsecond : second ≠ e.fingerprint) :
      Step s e .equivocation (s.noteEquivocation e.cursor true)
  | staleBarrier (hfresh : s.pending[e.cursor]? = none) (hpast : e.cursor < s.next)
      (hslot : s.recent[e.cursor]? = none) (hclear : e.hasClear = true) :
      Step s e .staleBarrier (s.tally Diagnostics.bumpStaleBarrier)
  | staleUnverifiable (hfresh : s.pending[e.cursor]? = none) (hpast : e.cursor < s.next)
      (hslot : s.recent[e.cursor]? = none) (hclear : e.hasClear = false) :
      Step s e .staleUnverifiable (s.tally Diagnostics.bumpStaleUnverifiable)
  | unverifiableGap (hfresh : s.pending[e.cursor]? = none) (hnext : s.next ≤ e.cursor)
      (hblocks : s.unavailableBlocks e = true) :
      Step s e .unverifiableGap (s.noteUnavailable Diagnostics.bumpUnverifiableGap e.cursor)
  | barrierApplied {s' : StreamState canon} {sources : List (PreparedEnvelope canon)}
      {cache : CacheTransaction} (hfresh : s.pending[e.cursor]? = none)
      (hnext : s.next ≤ e.cursor) (hblocks : s.unavailableBlocks e = false)
      (heligible : s.eligibleBarrier e = true)
      (happ : s.Application e true sources cache s') : Step s e .barrierApplied s'
  | applied {s' : StreamState canon} {sources : List (PreparedEnvelope canon)}
      {cache : CacheTransaction} (hfresh : s.pending[e.cursor]? = none)
      (hnext : s.next ≤ e.cursor) (hblocks : s.unavailableBlocks e = false)
      (heligible : s.eligibleBarrier e = false)
      (hwhere : e.cursor = s.next ∨ (s.baselineUnknown = true ∧ s.frontier = none))
      (happ : s.Application e false sources cache s') : Step s e .applied s'
  | gapLimit (hfresh : s.pending[e.cursor]? = none) (hnext : s.next < e.cursor)
      (hblocks : s.unavailableBlocks e = false) (heligible : s.eligibleBarrier e = false)
      (hanchored : ¬ (s.baselineUnknown = true ∧ s.frontier = none))
      (hspan : s.limits.maxGapSpanPerStream.toNat < e.cursor - s.next) :
      Step s e .gapLimit (s.noteUnavailable Diagnostics.bumpGapLimit e.cursor)
  | pendingLimit (hfresh : s.pending[e.cursor]? = none) (hnext : s.next < e.cursor)
      (hblocks : s.unavailableBlocks e = false) (heligible : s.eligibleBarrier e = false)
      (hanchored : ¬ (s.baselineUnknown = true ∧ s.frontier = none))
      (hspan : e.cursor - s.next ≤ s.limits.maxGapSpanPerStream.toNat)
      (hroom : s.pendingRoom e = false) :
      Step s e .pendingLimit (s.noteUnavailable Diagnostics.bumpPendingLimit e.cursor)
  | buffered (hfresh : s.pending[e.cursor]? = none) (hnext : s.next < e.cursor)
      (hblocks : s.unavailableBlocks e = false) (heligible : s.eligibleBarrier e = false)
      (hanchored : ¬ (s.baselineUnknown = true ∧ s.frontier = none))
      (hspan : e.cursor - s.next ≤ s.limits.maxGapSpanPerStream.toNat)
      (hroom : s.pendingRoom e = true) :
      Step s e .buffered (s.bufferPending e).recomputeCertainty

/-- Both pending ceilings leave room for a delivery. -/
theorem pendingRoom_iff :
    s.pendingRoom e = true ↔ s.pending.size < s.limits.maxPendingEnvelopesPerStream.toNat ∧
      s.pendingBytes + e.canonicalBytes ≤ s.limits.maxPendingCanonicalBytesPerStream.toNat := by
  have hmax := s.limits.maxPendingCanonicalBytesPerStream.toNat_lt
  unfold pendingRoom
  rcases hadd : checkedAdd s.pendingBytes e.canonicalBytes with - | total
  · have := checkedAdd_eq_none.mp hadd
    simp only [Option.all_none, Bool.or_true, Bool.not_true, Bool.false_eq_true, false_iff]
    omega
  · obtain ⟨rfl, -⟩ := checkedAdd_eq_some.mp hadd
    simp

theorem handlePendingRedelivery_ok {result : Option (Disposition × StreamState canon)}
    (h : s.handlePendingRedelivery e = .ok result) :
    (result = none ∧ s.pending[e.cursor]? = none) ∨
      ∃ d s', result = some (d, s') ∧ s.Step e d s' := by
  rw [handlePendingRedelivery] at h
  rcases hslot : s.pending[e.cursor]? with - | slot
  · simp only [hslot] at h
    exact .inl ⟨(Except.ok.inj h).symm, rfl⟩
  · simp only [hslot] at h
    right
    rcases hclass : slot.evidence.classify e.fingerprint with - | first | -
    · simp only [hclass] at h
      obtain rfl := Except.ok.inj h
      exact ⟨_, _, rfl, .pendingDuplicate hslot (RecentSlot.classify_duplicate.mp hclass)⟩
    · simp only [hclass] at h
      obtain ⟨hevidence, hne⟩ := RecentSlot.classify_conflict.mp hclass
      cases slot with
      | conflict f g => cases hevidence
      | candidate source =>
          obtain rfl : source.fingerprint = first := by simpa [PendingSlot.evidence] using hevidence
          obtain ⟨bytes, hbytes, h⟩ := bind_eq_ok.mp h
          obtain ⟨hle, rfl⟩ := checkedSub_eq_some.mp (expect_eq_ok.mp hbytes)
          obtain rfl := pure_eq_ok.mp h
          exact ⟨_, _, rfl, .pendingConflict hslot hne hle⟩
    · simp only [hclass] at h
      obtain ⟨first, second, hevidence, hfirst, hsecond⟩ :=
        RecentSlot.classify_additional.mp hclass
      obtain rfl := Except.ok.inj h
      cases slot with
      | candidate source => cases hevidence
      | conflict f g =>
          obtain ⟨rfl, rfl⟩ : f = first ∧ g = second := by
            simpa [PendingSlot.evidence] using hevidence
          exact ⟨_, _, rfl, .pendingAdditional hslot hfirst hsecond⟩

theorem handlePastDelivery_step (hfresh : s.pending[e.cursor]? = none)
    (hpast : e.cursor < s.next) (h : s.handlePastDelivery e = (d, s')) : s.Step e d s' := by
  rw [handlePastDelivery] at h
  rcases hslot : s.recent[e.cursor]? with - | slot
  · simp only [hslot] at h
    cases hclear : e.hasClear with
    | true =>
        obtain ⟨rfl, rfl⟩ : .staleBarrier = d ∧ _ = s' := by simpa [hclear] using h
        exact .staleBarrier hfresh hpast hslot hclear
    | false =>
        obtain ⟨rfl, rfl⟩ : .staleUnverifiable = d ∧ _ = s' := by simpa [hclear] using h
        exact .staleUnverifiable hfresh hpast hslot hclear
  · simp only [hslot] at h
    rcases hclass : slot.classify e.fingerprint with - | first | -
    · obtain ⟨rfl, rfl⟩ : .duplicate = d ∧ _ = s' := by simpa only [hclass, Prod.mk.injEq] using h
      exact .pastDuplicate hfresh hpast hslot (RecentSlot.classify_duplicate.mp hclass)
    · obtain ⟨rfl, hne⟩ := RecentSlot.classify_conflict.mp hclass
      obtain ⟨rfl, rfl⟩ : .equivocation = d ∧ _ = s' := by
        simpa only [hclass, Prod.mk.injEq] using h
      exact .pastConflict hfresh hpast hslot hne
    · obtain ⟨first, second, rfl, hfirst, hsecond⟩ := RecentSlot.classify_additional.mp hclass
      obtain ⟨rfl, rfl⟩ : .equivocation = d ∧ _ = s' := by
        simpa only [hclass, Prod.mk.injEq] using h
      exact .pastAdditional hfresh hpast hslot hfirst hsecond

theorem buffer_step (hfresh : s.pending[e.cursor]? = none) (hnext : s.next < e.cursor)
    (hblocks : s.unavailableBlocks e = false) (heligible : s.eligibleBarrier e = false)
    (hanchored : ¬ (s.baselineUnknown = true ∧ s.frontier = none))
    (h : s.buffer e s.next = .ok (d, s')) : s.Step e d s' := by
  obtain ⟨span, hspan, h⟩ := bind_eq_ok.mp h
  obtain ⟨-, rfl⟩ := checkedSub_eq_some.mp (expect_eq_ok.mp hspan)
  by_cases hgap : e.cursor - s.next > s.limits.maxGapSpanPerStream.toNat
  · rw [if_pos hgap] at h
    obtain ⟨rfl, rfl⟩ : .gapLimit = d ∧ _ = s' := by simpa using h
    exact .gapLimit hfresh hnext hblocks heligible hanchored hgap
  · rw [if_neg hgap] at h
    have hspan := Nat.le_of_not_lt hgap
    cases hroom : s.pendingRoom e with
    | false =>
        rw [if_pos (by simp [hroom])] at h
        obtain ⟨rfl, rfl⟩ : .pendingLimit = d ∧ _ = s' := by simpa using h
        exact .pendingLimit hfresh hnext hblocks heligible hanchored hspan hroom
    | true =>
        rw [if_neg (by simp [hroom])] at h
        obtain ⟨bytes, hbytes, h⟩ := bind_eq_ok.mp h
        obtain ⟨rfl, -⟩ := checkedAdd_eq_some.mp (expect_eq_ok.mp hbytes)
        obtain ⟨rfl, rfl⟩ : .buffered = d ∧ _ = s' := by simpa using h
        exact .buffered hfresh hnext hblocks heligible hanchored hspan hroom

theorem admitFresh_step (hinit : s.initialCursor ≤ e.cursor)
    (hfresh : s.pending[e.cursor]? = none) (h : s.admitFresh e = .ok (d, s')) :
    s.Step e d s' := by
  rw [admitFresh] at h
  cases hpast : s.isPast e.cursor with
  | true =>
      rw [if_pos hpast] at h
      exact handlePastDelivery_step hfresh ((isPast_iff hinit).mp hpast) (Except.ok.inj h)
  | false =>
      have hnext : s.next ≤ e.cursor := by
        refine Nat.le_of_not_lt fun hlt => ?_
        rw [(isPast_iff hinit).mpr hlt] at hpast
        cases hpast
      rw [hpast, if_neg Bool.false_ne_true] at h
      cases hblocks : s.unavailableBlocks e with
      | true =>
          rw [if_pos hblocks] at h
          obtain ⟨rfl, rfl⟩ : .unverifiableGap = d ∧ _ = s' := by simpa using h
          exact .unverifiableGap hfresh hnext hblocks
      | false =>
          rw [hblocks, if_neg Bool.false_ne_true] at h
          cases heligible : s.eligibleBarrier e with
          | true =>
              rw [if_pos heligible] at h
              obtain ⟨rfl, sources, cache, happ⟩ := applySource_ok h
              exact .barrierApplied hfresh hnext hblocks heligible happ
          | false =>
              rw [heligible, if_neg Bool.false_ne_true] at h
              by_cases hfirst : (s.baselineUnknown && s.frontier.isNone) = true
              · rw [if_pos hfirst] at h
                obtain ⟨rfl, sources, cache, happ⟩ := applySource_ok h
                exact .applied hfresh hnext hblocks heligible (.inr (by simpa using hfirst)) happ
              · rw [if_neg hfirst, admitExpected, expectedCursor_of_le hnext] at h
                have hanchored : ¬ (s.baselineUnknown = true ∧ s.frontier = none) := by
                  simpa using hfirst
                by_cases heq : e.cursor = s.next
                · simp only [heq, if_true] at h
                  obtain ⟨rfl, sources, cache, happ⟩ := applySource_ok h
                  exact .applied hfresh hnext hblocks heligible (.inl heq) happ
                · have hlt : s.next < e.cursor := by omega
                  simp only [if_neg heq, if_pos (show e.cursor > s.next from hlt)] at h
                  exact buffer_step hfresh hlt hblocks heligible hanchored h

/-- A delivery that belongs to the stream. -/
structure Accepts (s : StreamState canon) (e : PreparedEnvelope canon) : Prop where
  session : e.session = s.session
  streamId : e.streamId = s.streamId
  initialCursor : s.initialCursor ≤ e.cursor

/-- A successful `admit_inner` is one of the listed ways. -/
theorem admitInner_ok (h : s.admitInner e = .ok (d, s')) : s.Accepts e ∧ s.Step e d s' := by
  obtain ⟨_, hsession, h⟩ := bind_eq_ok.mp h
  obtain ⟨_, hstream, h⟩ := bind_eq_ok.mp h
  obtain ⟨_, hcursor, h⟩ := bind_eq_ok.mp h
  obtain ⟨result, hresult, h⟩ := bind_eq_ok.mp h
  rw [rejectIf_eq_ok] at hsession hstream hcursor
  have haccepts : s.Accepts e :=
    ⟨(not_not.mp hsession).symm, not_not.mp hstream, Nat.le_of_not_lt hcursor⟩
  refine ⟨haccepts, ?_⟩
  rcases handlePendingRedelivery_ok hresult with ⟨rfl, hfresh⟩ | ⟨d', s₁, rfl, hstep⟩
  · exact admitFresh_step haccepts.initialCursor hfresh h
  · obtain ⟨rfl, rfl⟩ : d' = d ∧ s₁ = s' := by simpa using h
    exact hstep

/-! ### Taking a way -/

/-- Past its ownership checks a delivery is first compared with what is
pending. -/
theorem Accepts.admitInner_eq (ha : s.Accepts e) :
    s.admitInner e = (s.handlePendingRedelivery e >>= fun result =>
      match result with
      | some result => .ok result
      | none => s.admitFresh e) := by
  have hsession : ¬ s.session ≠ e.session := not_not.mpr ha.session.symm
  have hstream : ¬ e.streamId ≠ s.streamId := not_not.mpr ha.streamId
  have hcursor : ¬ e.cursor < s.initialCursor := Nat.not_lt.mpr ha.initialCursor
  simp only [admitInner, rejectIf, if_neg hsession, if_neg hstream, if_neg hcursor]
  rfl

/-- With nothing pending at its cursor a delivery is fresh. -/
theorem Accepts.admitFresh_eq (ha : s.Accepts e) (hfresh : s.pending[e.cursor]? = none) :
    s.admitInner e = s.admitFresh e := by
  have hpending : s.handlePendingRedelivery e = .ok none := by
    simp only [handlePendingRedelivery, hfresh]
  rw [ha.admitInner_eq, hpending]
  rfl

/-- A fresh delivery at or below the frontier is compared with the window. -/
theorem Accepts.past_eq (ha : s.Accepts e) (hfresh : s.pending[e.cursor]? = none)
    (hpast : e.cursor < s.next) : s.admitInner e = .ok (s.handlePastDelivery e) := by
  rw [ha.admitFresh_eq hfresh, admitFresh, if_pos ((isPast_iff ha.initialCursor).mpr hpast)]

/-- Ahead of the frontier a fresh delivery is not past. -/
theorem Accepts.isPast_eq (ha : s.Accepts e) (hnext : s.next ≤ e.cursor) :
    s.isPast e.cursor = false := by
  rw [Bool.eq_false_iff, Ne, isPast_iff ha.initialCursor]
  exact Nat.not_lt.mpr hnext

/-- A way that folds nothing is taken whenever its guards hold. -/
theorem Step.admitInner_eq (h : s.Step e d s') (ha : s.Accepts e) (happlied : d ≠ .applied)
    (hbarrier : d ≠ .barrierApplied) : s.admitInner e = .ok (d, s') := by
  have hahead : ∀ {r : Except Failure (Disposition × StreamState canon)},
      s.pending[e.cursor]? = none → s.next < e.cursor → s.unavailableBlocks e = false →
      s.eligibleBarrier e = false → ¬ (s.baselineUnknown = true ∧ s.frontier = none) →
      s.buffer e s.next = r → s.admitInner e = r := by
    intro r hfresh hnext hblocks heligible hanchored hbuffer
    have hne : ¬ e.cursor = s.next := Nat.ne_of_gt hnext
    have hfirst : ¬ (s.baselineUnknown && s.frontier.isNone) = true := by simpa using hanchored
    rw [ha.admitFresh_eq hfresh, admitFresh, ha.isPast_eq (Nat.le_of_lt hnext)]
    simp only [Bool.false_eq_true, if_false, hblocks, heligible, if_neg hfirst, admitExpected,
      expectedCursor_of_le (Nat.le_of_lt hnext), if_neg hne]
    rw [if_pos hnext, hbuffer]
  have hspan : s.next < e.cursor →
      checkedSub e.cursor s.next = some (e.cursor - s.next) :=
    fun hnext => checkedSub_eq_some.mpr ⟨Nat.le_of_lt hnext, rfl⟩
  cases h with
  | pendingDuplicate hslot hcovers =>
      rw [ha.admitInner_eq]
      simp only [handlePendingRedelivery, hslot, RecentSlot.classify_duplicate.mpr hcovers]
      rfl
  | pendingConflict hslot hne hbytes =>
      have hclass : (PendingSlot.candidate _).evidence.classify e.fingerprint = .conflict _ :=
        RecentSlot.classify_conflict.mpr ⟨rfl, hne⟩
      have hsub := checkedSub_eq_some.mpr ⟨hbytes, rfl⟩
      rw [ha.admitInner_eq]
      simp only [handlePendingRedelivery, hslot, hclass, PendingSlot.canonicalBytes, hsub, expect]
      rfl
  | pendingAdditional hslot hfirst hsecond =>
      have hclass : (PendingSlot.conflict _ _ : PendingSlot canon).evidence.classify
          e.fingerprint = .additionalConflict :=
        RecentSlot.classify_additional.mpr ⟨_, _, rfl, hfirst, hsecond⟩
      rw [ha.admitInner_eq]
      simp only [handlePendingRedelivery, hslot, hclass]
      rfl
  | pastDuplicate hfresh hpast hslot hcovers =>
      rw [ha.past_eq hfresh hpast]
      simp only [handlePastDelivery, hslot, RecentSlot.classify_duplicate.mpr hcovers]
  | pastConflict hfresh hpast hslot hne =>
      rw [ha.past_eq hfresh hpast]
      simp only [handlePastDelivery, hslot, RecentSlot.classify_conflict.mpr ⟨rfl, hne⟩]
      rfl
  | pastAdditional hfresh hpast hslot hfirst hsecond =>
      have hclass := RecentSlot.classify_additional.mpr ⟨_, _, rfl, hfirst, hsecond⟩
      rw [ha.past_eq hfresh hpast]
      simp only [handlePastDelivery, hslot, hclass]
      rfl
  | staleBarrier hfresh hpast hslot hclear =>
      rw [ha.past_eq hfresh hpast]
      simp only [handlePastDelivery, hslot, hclear, if_true]
  | staleUnverifiable hfresh hpast hslot hclear =>
      rw [ha.past_eq hfresh hpast]
      simp only [handlePastDelivery, hslot, hclear, Bool.false_eq_true, if_false]
  | unverifiableGap hfresh hnext hblocks =>
      rw [ha.admitFresh_eq hfresh, admitFresh, ha.isPast_eq hnext]
      simp only [Bool.false_eq_true, if_false, hblocks, if_true]
      rfl
  | barrierApplied => exact absurd rfl hbarrier
  | applied => exact absurd rfl happlied
  | gapLimit hfresh hnext hblocks heligible hanchored hgap =>
      apply hahead hfresh hnext hblocks heligible hanchored
      simp only [buffer, hspan hnext, expect]
      exact if_pos hgap
  | pendingLimit hfresh hnext hblocks heligible hanchored hgap hroom =>
      apply hahead hfresh hnext hblocks heligible hanchored
      simp only [buffer, hspan hnext, expect, hroom]
      exact if_neg (Nat.not_lt.mpr hgap)
  | buffered hfresh hnext hblocks heligible hanchored hgap hroom =>
      have hbytes : checkedAdd s.pendingBytes e.canonicalBytes =
          some (s.pendingBytes + e.canonicalBytes) := by
        have hle := (pendingRoom_iff.mp hroom).2
        have hmax := s.limits.maxPendingCanonicalBytesPerStream.toNat_lt
        exact checkedAdd_eq_some.mpr ⟨rfl, by omega⟩
      apply hahead hfresh hnext hblocks heligible hanchored
      simp only [buffer, hspan hnext, expect, hroom, hbytes]
      exact if_neg (Nat.not_lt.mpr hgap)

/-! ### Runs -/

/-- `s` admits `e` with disposition `d`, under some session status. -/
def Admits (s : StreamState canon) (e : PreparedEnvelope canon) (d : Disposition)
    (s' : StreamState canon) : Prop :=
  ∃ status, s.admitDelivery status e = (.ok d, s')

theorem delivers_of_result {status : SessionStatus} (h : (s.admitDelivery status e).1 = .ok d) :
    s.admitDelivery status e = (.ok d, (s.admitDelivery status e).2) :=
  Prod.ext h rfl

/-- An admission that evaluates to a disposition. -/
theorem admits_of_result {status : SessionStatus}
    (h : (s.admitDelivery status e).1 = .ok d) : s.Admits e d (s.admitDelivery status e).2 :=
  ⟨status, delivers_of_result h⟩

/-- `admit` succeeds exactly when neither flag stops it and `admit_inner`
does. -/
theorem admitDelivery_eq_ok {status : SessionStatus} :
    s.admitDelivery status e = (.ok d, s') ↔
      s.failed = false ∧ status ≠ .failed ∧ s.admitInner e = .ok (d, s') := by
  unfold admitDelivery
  cases hfailed : s.failed with
  | true => simp
  | false =>
      by_cases hstatus : status = .failed
      · simp [hstatus]
      · simp only [Bool.false_eq_true, if_false, true_and, ne_eq, hstatus,
          not_false_eq_true]
        rcases s.admitInner e with failure | ⟨d', s₁⟩
        · simp
        · simp

theorem Admits.ok (h : s.Admits e d s') :
    s.failed = false ∧ s.admitInner e = .ok (d, s') := by
  obtain ⟨status, h⟩ := h
  obtain ⟨hfailed, -, hinner⟩ := admitDelivery_eq_ok.mp h
  exact ⟨hfailed, hinner⟩

theorem Admits.accepts (h : s.Admits e d s') : s.Accepts e := (admitInner_ok h.ok.2).1

theorem Admits.step (h : s.Admits e d s') : s.Step e d s' := (admitInner_ok h.ok.2).2

/-- A run of successful admissions, with the delivered history. -/
abbrev RunFrom (init : StreamState canon) :=
  Run (@Admits canon) init

end StreamState

/-! ### Sample runs -/

namespace Sample

open StreamState

/-- A fresh state of the sample stream. -/
def fresh (limits : Limits) : StreamState canonical := fromBlueprint (blueprint limits)

/-- The state after some deliveries. -/
def deliver (s : StreamState canonical) (sources : List (PreparedEnvelope canonical)) :
    StreamState canonical :=
  sources.foldl (fun s source => (s.admitDelivery .open_ source).2) s

/-- A store at the first cursor. -/
def late : PreparedEnvelope canonical := source "late" 0 [store 1]

/-- A store at the second cursor. -/
def early : PreparedEnvelope canonical := source "early" 1 [store 2]

/-- A clear above both. -/
def anchor : PreparedEnvelope canonical := source "anchor" 2 [clear]

/-- The second store waits for the first one. -/
theorem swapped_run : RunFrom (fresh .default) [(early, .buffered), (late, .applied)]
    (deliver (fresh .default) [early, late]) := by
  have hearly : (fresh .default).Admits early .buffered (deliver (fresh .default) [early]) :=
    admits_of_result (by decide +kernel)
  have hlate : (deliver (fresh .default) [early]).Admits late .applied
      (deliver (fresh .default) [early, late]) := admits_of_result (by decide +kernel)
  exact .snoc (.snoc .nil hearly) hlate

/-- Both stores in order, and the first one again. -/
theorem dense_run : RunFrom (fresh .default)
    [(late, .applied), (early, .applied), (late, .duplicate)]
    (deliver (fresh .default) [late, early, late]) := by
  have hlate : (fresh .default).Admits late .applied (deliver (fresh .default) [late]) :=
    admits_of_result (by decide +kernel)
  have hearly : (deliver (fresh .default) [late]).Admits early .applied
      (deliver (fresh .default) [late, early]) := admits_of_result (by decide +kernel)
  have hagain : (deliver (fresh .default) [late, early]).Admits late .duplicate
      (deliver (fresh .default) [late, early, late]) := admits_of_result (by decide +kernel)
  exact .snoc (.snoc (.snoc .nil hlate) hearly) hagain

/-- The default limits without room for pending deliveries. -/
def tight : Limits := { Limits.default with maxPendingEnvelopesPerStream := 0 }

/-- Without room the second store is discarded. -/
theorem discarding_run : RunFrom (fresh tight) [(early, .pendingLimit)]
    (deliver (fresh tight) [early]) :=
  .snoc .nil (admits_of_result (by decide +kernel))

/-- The clear then anchors the stream anew. -/
theorem anchor_admitted : (deliver (fresh tight) [early]).Admits anchor .barrierApplied
    (deliver (fresh tight) [early, anchor]) :=
  admits_of_result (by decide +kernel)

end Sample

end KvCrucible
