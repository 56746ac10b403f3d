/-
KvCrucible/StateSafety.lean

What the state invariant means for a caller: certainty is honest, memory is
bounded and accounted for, and no admission panics.
-/
import KvCrucible.Compare
import KvCrucible.StateInvariant

namespace KvCrucible

open Basis Std

variable {canon : Canonical}

/-! ### Reasons -/

theorem UnknownReasons.isEmpty_active {baseline equivocation unavailableGap unclosedGap : Bool} :
    ((active baseline equivocation unavailableGap).withUnclosedGap unclosedGap).isEmpty =
      (!baseline && !equivocation && !unavailableGap && !unclosedGap) := by
  cases baseline <;> cases equivocation <;> cases unavailableGap <;> cases unclosedGap <;> decide

namespace StreamState

variable {s s' : StreamState canon} {e : PreparedEnvelope canon} {d : Disposition}
  {blueprint : StreamBlueprint}

/-! ### Certainty -/

/-- The poison ceiling is set exactly when one of the ceilings it merges is. -/
theorem Core.poison_isSome (hs : s.Core) :
    s.poisonCeiling.isSome = (s.equivocationCeiling.isSome || s.unavailableCeiling.isSome) := by
  rw [hs.poison]
  cases s.equivocationCeiling <;> cases s.unavailableCeiling <;> rfl

theorem Core.floor_isSome (hs : s.Core) :
    s.unavailableFloor.isSome = s.unavailableCeiling.isSome := by
  cases hfloor : s.unavailableFloor with
  | none => rw [hs.horizon_none.mp hfloor]
  | some lo =>
      cases hceil : s.unavailableCeiling with
      | none =>
          rw [hs.horizon_none.mpr hceil] at hfloor
          cases hfloor
      | some hi => rfl

theorem Invariant.unknown_iff (hs : s.Invariant) :
    s.certainty = .unknown ↔ s.baselineUnknown = true ∨ s.equivocationCeiling.isSome = true ∨
      s.unavailableCeiling.isSome = true := by
  rw [hs.certainty, certaintyOf, hs.toCore.poison_isSome]
  by_cases h : (s.baselineUnknown ||
      (s.equivocationCeiling.isSome || s.unavailableCeiling.isSome)) = true
  · rw [if_pos h]
    simpa using h
  · rw [if_neg h]
    have h' := h
    simp only [Bool.or_eq_true] at h'
    constructor
    · intro hc
      split at hc <;> cases hc
    · intro hor
      exact absurd hor h'

/-- Off `unknown`, certainty tells whether anything is pending. -/
theorem Invariant.known (hs : s.Invariant) (h : s.certainty ≠ .unknown) :
    s.certainty = if s.pending.isEmpty then .exact else .recovering := by
  have hc := hs.certainty
  rw [certaintyOf] at hc
  by_cases hu : (s.baselineUnknown || s.poisonCeiling.isSome) = true
  · rw [if_pos hu] at hc
    exact absurd hc h
  · rwa [if_neg hu] at hc

/-- Authority is only ever missing under an unknown certainty. -/
theorem Invariant.authoritative (hs : s.Invariant) (h : s.certainty ≠ .unknown) :
    s.viewAuthoritative = true := by
  rw [Ne, hs.unknown_iff, not_or, not_or] at h
  obtain ⟨hbase, hequiv, -⟩ := h
  cases hauth : s.viewAuthoritative with
  | true => rfl
  | false =>
      rcases hs.authority_lost hauth with hb | he
      · exact absurd hb hbase
      · exact absurd (Option.isSome_iff_ne_none.mpr he) hequiv

theorem Invariant.reasons_isEmpty (hs : s.Invariant) {unclosedGap : Bool} :
    (s.unknownReasons.withUnclosedGap unclosedGap).isEmpty = true ↔
      s.certainty ≠ .unknown ∧ unclosedGap = false := by
  rw [unknownReasons, UnknownReasons.isEmpty_active, hs.toCore.floor_isSome, Ne, hs.unknown_iff]
  simp only [Bool.and_eq_true, Bool.not_eq_true', not_or, Bool.not_eq_true, and_assoc]

/-- What certainty and the fields behind it promise to a reader of one
state. -/
structure HonestCertainty (s : StreamState canon) : Prop where
  unknown : s.certainty = .unknown ↔ s.baselineUnknown = true ∨
    s.equivocationCeiling.isSome = true ∨ s.unavailableCeiling.isSome = true
  exact : s.certainty = .exact ↔ s.certainty ≠ .unknown ∧ s.pending.size = 0
  recovering : s.certainty = .recovering ↔ s.certainty ≠ .unknown ∧ s.pending.size ≠ 0
  reasons : s.unknownReasons.isEmpty = true ↔ s.certainty ≠ .unknown
  authoritative : s.certainty ≠ .unknown → s.viewAuthoritative = true
  horizon : (s.unavailableFloor = none ∧ s.unavailableCeiling = none) ∨
    ∃ lo hi, s.unavailableFloor = some lo ∧ s.unavailableCeiling = some hi ∧ lo ≤ hi
  conflicts : ∀ c first second, s.pending[c]? = some (.conflict first second) →
    ∃ hi, s.equivocationCeiling = some hi ∧ c ≤ hi
  ceiling : ∀ hi, s.equivocationCeiling = some hi →
    (∀ f, s.frontier = some f → f < hi) →
    ∃ first second, s.pending[hi]? = some (.conflict first second)

/-- What a summary promises. -/
structure HonestSummary (summary : StreamSummary) : Prop where
  not_recovering : summary.certainty ≠ .recovering
  exact_iff : summary.certainty = .exact ↔ summary.reasons.isEmpty = true
  eligible_iff : eligibleSummary summary = true ↔ summary.certainty = .exact

theorem Invariant.honest (hs : s.Invariant) : s.HonestCertainty where
  unknown := hs.unknown_iff
  exact := by
    rw [← ExtTreeMap.eq_empty_iff_size_eq_zero, ← ExtTreeMap.isEmpty_iff]
    constructor
    · intro hc
      have hne : s.certainty ≠ .unknown := by simp [hc]
      refine ⟨hne, ?_⟩
      cases hempty : s.pending.isEmpty with
      | true => rfl
      | false =>
          have hknown := hs.known hne
          rw [hc, hempty] at hknown
          cases hknown
    · rintro ⟨hne, hempty⟩
      rw [hs.known hne, if_pos hempty]
  recovering := by
    rw [Ne.eq_def s.pending.size, ← ExtTreeMap.eq_empty_iff_size_eq_zero,
      ← ExtTreeMap.isEmpty_iff]
    constructor
    · intro hc
      have hne : s.certainty ≠ .unknown := by simp [hc]
      refine ⟨hne, fun hempty => ?_⟩
      have hknown := hs.known hne
      rw [hc, if_pos hempty] at hknown
      cases hknown
    · rintro ⟨hne, hempty⟩
      rw [hs.known hne, if_neg hempty]
  reasons := by
    have h : (s.unknownReasons.withUnclosedGap false).isEmpty = true ↔
        s.certainty ≠ .unknown ∧ false = false := hs.reasons_isEmpty
    simpa [UnknownReasons.withUnclosedGap] using h
  authoritative := hs.authoritative
  horizon := by
    cases hfloor : s.unavailableFloor with
    | none => exact .inl ⟨rfl, hs.horizon_none.mp hfloor⟩
    | some lo =>
        have hsome := hs.toCore.floor_isSome
        rw [hfloor, Option.isSome_some] at hsome
        obtain ⟨hi, hhi⟩ := Option.isSome_iff_exists.mp hsome.symm
        exact .inr ⟨lo, hi, rfl, hhi, (hs.horizon hfloor hhi).2⟩
  conflicts := fun c first second hc => hs.conflict_le hc
  ceiling := by
    intro hi hhi habove
    refine hs.ceiling_conflict hhi ?_
    cases hf : s.frontier with
    | none =>
        rw [next_of_none hf]
        exact hs.ceiling_ge hhi
    | some f =>
        rw [next_of_some hf]
        exact habove f hf

/-- A summary is as honest as the state it finalizes. -/
theorem Invariant.honest_summary (hs : s.Invariant) {status : SessionStatus}
    {sealedSession : SealedSession} {summary : StreamSummary}
    (h : s.finish status sealedSession = .ok summary) : HonestSummary summary := by
  obtain ⟨_, -, h⟩ := bind_eq_ok.mp h
  obtain ⟨_, -, h⟩ := bind_eq_ok.mp h
  obtain ⟨_, -, h⟩ := bind_eq_ok.mp h
  cases hempty : s.pending.isEmpty with
  | true =>
      simp only [hempty, Bool.not_true, Bool.false_eq_true, if_false] at h
      obtain rfl := pure_eq_ok.mp h
      have hreasons : (s.unknownReasons.withUnclosedGap false).isEmpty = true ↔
          s.certainty ≠ .unknown ∧ false = false := hs.reasons_isEmpty
      have hpending : s.pending = ∅ := ExtTreeMap.isEmpty_iff.mp hempty
      have hbytes : s.pendingBytes = 0 := by rw [hs.accounted, hpending, weight_empty]
      have hexact : s.certainty = .exact ↔ s.certainty ≠ .unknown := by
        constructor
        · intro hc
          simp [hc]
        · intro hne
          rw [hs.known hne, if_pos hempty]
      refine ⟨?_, ?_, ?_⟩
      · show s.certainty ≠ .recovering
        intro hc
        have hknown := hs.known (by simp [hc])
        rw [hc, if_pos hempty] at hknown
        cases hknown
      · show s.certainty = .exact ↔ _
        rw [hexact, hreasons, and_iff_left rfl]
      · show eligibleSummary _ = true ↔ s.certainty = .exact
        simp only [eligibleSummary, Bool.and_eq_true, decide_eq_true_eq]
        constructor
        · rintro ⟨⟨⟨⟨hc, -⟩, -⟩, -⟩, -⟩
          exact hc
        · intro hc
          have hne := hexact.mp hc
          refine ⟨⟨⟨⟨hc, hs.authoritative hne⟩, hreasons.mpr ⟨hne, rfl⟩⟩, ?_⟩, hbytes⟩
          rw [hpending]
          rfl
  | false =>
      simp only [hempty, Bool.not_false, if_true] at h
      obtain rfl := pure_eq_ok.mp h
      have hreasons : (s.unknownReasons.withUnclosedGap true).isEmpty = true ↔
          s.certainty ≠ .unknown ∧ true = false := hs.reasons_isEmpty
      refine ⟨by simp, ?_, by simp [eligibleSummary]⟩
      show Certainty.unknown = .exact ↔ (s.unknownReasons.withUnclosedGap true).isEmpty = true
      simp [hreasons]

/-- Certainty is honest in every reachable state, after failing admissions
too, and in every summary. -/
theorem certainty_honest (hs : Reachable blueprint s) :
    s.HonestCertainty ∧ ∀ status sealedSession summary,
      s.finish status sealedSession = .ok summary → HonestSummary summary :=
  ⟨hs.invariant.honest, fun _ _ _ h => hs.invariant.honest_summary h⟩

/-- The certainty while a delivery is pending. -/
theorem certainty_honest_pending :
    (Sample.deliver (Sample.fresh .default) [Sample.early]).HonestCertainty :=
  (certainty_honest (.deliver .fresh .open_ Sample.early)).1

/-! ### No admission panics -/

/-- A computation that may fail with an error but never panics. -/
def NoPanic {α : Type*} (x : Except Failure α) : Prop := ∀ message, x ≠ .error (.panic message)

theorem NoPanic.ok {α : Type*} (a : α) : NoPanic (.ok a) := fun message h => by cases h

theorem NoPanic.bind {α β : Type} {x : Except Failure α} {f : α → Except Failure β}
    (hx : NoPanic x) (hf : ∀ a, x = .ok a → NoPanic (f a)) : NoPanic (x >>= f) := by
  rcases x with failure | a
  · intro message h
    obtain rfl : failure = .panic message := by simpa [Bind.bind, Except.bind] using h
    exact hx message rfl
  · exact hf a rfl

theorem NoPanic.rejectIf {p : Prop} [Decidable p] {error : StateError} :
    NoPanic (rejectIf p (.error error)) := by
  intro message h
  unfold Basis.rejectIf at h
  split at h <;> cases h

theorem NoPanic.mapError {α : Type*} {x : Except StateError α} :
    NoPanic (x.mapError Failure.error) := by
  rcases x with error | a
  · intro message h
    cases h
  · exact NoPanic.ok a

theorem NoPanic.of_ok {α : Type*} {x : Except Failure α} (h : ∃ a, x = .ok a) : NoPanic x := by
  obtain ⟨a, rfl⟩ := h
  exact NoPanic.ok a

theorem checkedSub_isSome {a b : Nat} (h : b ≤ a) : (checkedSub a b).isSome = true := by
  rw [checkedSub_eq_some.mpr ⟨h, rfl⟩]
  rfl

theorem checkedAdd_isSome {a b : Nat} (h : a + b < 2 ^ 64) : (checkedAdd a b).isSome = true := by
  rw [checkedAdd_eq_some.mpr ⟨rfl, h⟩]
  rfl

/-- An accounted total covers every slot it accounts for. -/
theorem Accounted.le (hs : s.Accounted) {c : Nat} {slot : PendingSlot canon}
    (h : s.pending[c]? = some slot) : slot.canonicalBytes ≤ s.pendingBytes := by
  rw [hs]
  exact le_weight PendingSlot.canonicalBytes h

theorem handlePendingRedelivery_total (hs : s.Invariant) :
    ∃ result, s.handlePendingRedelivery e = .ok result := by
  unfold handlePendingRedelivery
  cases hslot : s.pending[e.cursor]? with
  | none => exact ⟨_, rfl⟩
  | some slot =>
      dsimp only
      cases slot.evidence.classify e.fingerprint with
      | duplicate => exact ⟨_, rfl⟩
      | additionalConflict => exact ⟨_, rfl⟩
      | conflict first =>
          obtain ⟨bytes, hbytes⟩ := Option.isSome_iff_exists.mp
            (checkedSub_isSome (Accounted.le hs.accounted hslot))
          exact ⟨_, bind_ok (expect_eq_ok.mpr hbytes) rfl⟩

theorem buffer_total (hnext : s.next ≤ e.cursor) : ∃ result, s.buffer e s.next = .ok result := by
  obtain ⟨span, hspan⟩ := Option.isSome_iff_exists.mp (checkedSub_isSome hnext)
  unfold buffer
  rw [expect_eq_ok.mpr hspan]
  dsimp only [Bind.bind, Except.bind]
  split
  · exact ⟨_, rfl⟩
  · split
    · exact ⟨_, rfl⟩
    · -- with room for it, the sum is below a `u64` ceiling
      rename_i hroom
      have hroom' : s.pendingRoom e = true := by simpa using hroom
      have hbytes := (pendingRoom_iff.mp hroom').2
      have hmax := s.limits.maxPendingCanonicalBytesPerStream.toNat_lt
      obtain ⟨bytes, hsum⟩ := Option.isSome_iff_exists.mp
        (@checkedAdd_isSome s.pendingBytes e.canonicalBytes (by omega))
      exact ⟨_, bind_ok (expect_eq_ok.mpr hsum) rfl⟩

theorem removePending_total (hs : s.Accounted) (index cursor : Nat) :
    ∃ s', s.removePending index cursor = .ok s' := by
  unfold removePending
  by_cases hindex : index = 0
  · exact ⟨s, by rw [if_pos hindex]⟩
  · rw [if_neg hindex]
    cases hslot : s.pending[cursor]? with
    | none => exact ⟨s, rfl⟩
    | some slot =>
        obtain ⟨bytes, hbytes⟩ :=
          Option.isSome_iff_exists.mp (checkedSub_isSome (Accounted.le hs hslot))
        exact ⟨_, bind_eq_ok.mpr ⟨bytes, expect_eq_ok.mpr hbytes, rfl⟩⟩

theorem commitFacts_total (facts : List (AppliedFact × Nat)) :
    ∀ {s : StreamState canon}, s.Accounted →
      ∃ s', facts.foldlM (fun s fact => s.commitFact fact.1 fact.2) s = .ok s' := by
  induction facts with
  | nil =>
      intro s _
      exact ⟨s, rfl⟩
  | cons fact facts ih =>
      intro s hs
      obtain ⟨s₀, h₀⟩ := removePending_total hs fact.2 fact.1.cursor
      have h₁ : s.commitFact fact.1 fact.2 = .ok
          { s₀.retainFingerprint fact.1.cursor fact.1.fingerprint with
            frontier := some fact.1.cursor } :=
        bind_eq_ok.mpr ⟨s₀, h₀, rfl⟩
      obtain ⟨s', h'⟩ := ih ((commitFact_ok h₁).2 hs)
      refine ⟨s', ?_⟩
      rw [List.foldlM_cons]
      exact bind_eq_ok.mpr ⟨_, h₁, h'⟩

/-- The discarded part of the pending map weighs no more than the whole. -/
theorem commitAnchor_total (hacc : s.Accounted) (hlt : s.pendingBytes < 2 ^ 64) (cursor : Nat)
    (barrier : Bool) : ∃ s', s.commitAnchor cursor barrier = .ok s' := by
  have hweight : s.pendingBytes = weight PendingSlot.canonicalBytes s.pending := hacc
  cases barrier with
  | false => exact ⟨s, rfl⟩
  | true =>
      show ∃ s', s.commitBarrier cursor = .ok s'
      have hsplit := weight_splitPending s cursor
      obtain ⟨bytes, hbytes⟩ := Option.isSome_iff_exists.mp (checkedSub_isSome
        (show weight PendingSlot.canonicalBytes (s.splitPending cursor).1 ≤ s.pendingBytes by omega))
      exact ⟨_, bind_eq_ok.mpr ⟨_, pendingBytesOf_eq_ok.mpr ⟨rfl, by omega⟩,
        bind_eq_ok.mpr ⟨bytes, expect_eq_ok.mpr hbytes, rfl⟩⟩⟩

/-- Committing a plan never fails. -/
theorem commitApplication_total (hs : s.Accounted) (hlt : s.pendingBytes < 2 ^ 64)
    (plan : ApplicationPlan) (cursor : Nat) (barrier authoritative : Bool) :
    ∃ s', s.commitApplication plan cursor barrier authoritative = .ok s' := by
  obtain ⟨s₁, h₁⟩ := commitAnchor_total hs hlt cursor barrier
  have hacc : s₁.Accounted := by
    cases barrier with
    | false =>
        obtain rfl := Except.ok.inj h₁
        exact hs
    | true => exact (commitBarrier_ok h₁).2.2 hs
  have hacc' : ({ s₁ with view := plan.cache.commit s₁.view } : StreamState canon).Accounted := hacc
  obtain ⟨s₂, h₂⟩ := commitFacts_total plan.applied.zipIdx hacc'
  exact ⟨_, bind_ok h₁ (bind_ok h₂ rfl)⟩

theorem Invariant.pendingBytes_lt (hs : s.Invariant) : s.pendingBytes < 2 ^ 64 :=
  hs.pendingBytes_le.trans_lt s.limits.maxPendingCanonicalBytesPerStream.toNat_lt

/-- A barrier has a first clear, and it is one of its mutations. -/
theorem applicationStart_total {barrier : Bool} (hclear : barrier = true → e.hasClear = true) :
    ∃ start, applicationStart e barrier = .ok start ∧ start ≤ e.mutations.length := by
  cases barrier with
  | false => exact ⟨0, rfl, Nat.zero_le _⟩
  | true =>
      obtain ⟨start, hfirst⟩ := Option.isSome_iff_exists.mp (hclear rfl)
      have hindex : e.mutations.findIdx? Mutation.isClear = some start :=
        e.firstClear_eq ▸ hfirst
      obtain ⟨hlt, -⟩ := List.findIdx?_eq_some_iff_getElem.mp hindex
      exact ⟨start, expect_eq_ok.mpr hfirst, Nat.le_of_lt hlt⟩

/-- Folding a delivery panics neither on a missing clear nor on a slice out of
range. -/
theorem applySource_noPanic (hs : s.Invariant) {barrier : Bool}
    (hclear : barrier = true → e.hasClear = true) : NoPanic (s.applySource e barrier) := by
  obtain ⟨start, hstart, hle⟩ := applicationStart_total hclear
  refine NoPanic.bind (NoPanic.of_ok ⟨start, hstart⟩) fun start' h' => ?_
  obtain rfl : start = start' := Except.ok.inj (hstart.symm.trans h')
  refine NoPanic.bind ?_ fun plan _ => NoPanic.bind (NoPanic.of_ok
    (commitApplication_total hs.accounted hs.pendingBytes_lt plan _ _ _)) fun _ _ => NoPanic.ok _
  refine NoPanic.bind (NoPanic.of_ok ⟨_, sliceFrom_eq_ok.mpr ⟨hle, rfl⟩⟩) fun _ _ => ?_
  exact NoPanic.bind NoPanic.mapError fun _ _ => NoPanic.bind NoPanic.mapError fun _ _ =>
    NoPanic.ok _

theorem admitExpected_noPanic (hs : s.Invariant) (hnext : s.next ≤ e.cursor) :
    NoPanic (s.admitExpected e) := by
  unfold admitExpected
  rw [expectedCursor_of_le hnext]
  show NoPanic (if e.cursor = s.next then s.applySource e false
    else if e.cursor > s.next then s.buffer e s.next else .ok (s.handlePastDelivery e))
  split
  · exact applySource_noPanic hs fun hb => by cases hb
  · split
    · exact NoPanic.of_ok (buffer_total hnext)
    · exact NoPanic.ok _

theorem admitFresh_noPanic (hs : s.Invariant) (hinit : s.initialCursor ≤ e.cursor) :
    NoPanic (s.admitFresh e) := by
  unfold admitFresh
  by_cases hpast : s.isPast e.cursor = true
  · rw [if_pos hpast]
    exact NoPanic.ok _
  · rw [if_neg hpast]
    have hnext : s.next ≤ e.cursor := Nat.le_of_not_lt fun h => hpast ((isPast_iff hinit).mpr h)
    split
    · exact NoPanic.ok _
    · split
      · rename_i heligible
        exact applySource_noPanic hs fun _ => ((eligibleBarrier_iff hinit hnext).mp heligible).1
      · split
        · exact applySource_noPanic hs fun hb => by cases hb
        · exact admitExpected_noPanic hs hnext

theorem admitInner_noPanic (hs : s.Invariant) (e : PreparedEnvelope canon) :
    NoPanic (s.admitInner e) := by
  refine NoPanic.bind NoPanic.rejectIf fun _ _ => ?_
  refine NoPanic.bind NoPanic.rejectIf fun _ _ => ?_
  refine NoPanic.bind NoPanic.rejectIf fun _ hcursor => ?_
  have hinit : s.initialCursor ≤ e.cursor := Nat.le_of_not_lt (rejectIf_eq_ok.mp hcursor)
  refine NoPanic.bind (NoPanic.of_ok (handlePendingRedelivery_total hs)) fun result _ => ?_
  cases result with
  | some result => exact NoPanic.ok _
  | none => exact admitFresh_noPanic hs hinit

theorem admitDelivery_noPanic (hs : s.Invariant) (status : SessionStatus)
    (e : PreparedEnvelope canon) :
    NoPanic (s.admitDelivery status e).1 := by
  unfold admitDelivery
  split
  · intro message h
    cases h
  · split
    · intro message h
      cases h
    · have hinner := admitInner_noPanic hs e
      rcases h : s.admitInner e with failure | ⟨d, s₁⟩
      · intro message hm
        rw [h] at hinner
        exact hinner message (by simpa using hm)
      · exact NoPanic.ok _

/-! ### Bounds -/

/-- What every reachable state keeps within its limits. -/
structure WithinLimits (s : StreamState canon) : Prop where
  pending_size : s.pending.size ≤ s.limits.maxPendingEnvelopesPerStream.toNat
  pendingBytes_eq : s.pendingBytes = weight PendingSlot.canonicalBytes s.pending
  pendingBytes_le : s.pendingBytes ≤ s.limits.maxPendingCanonicalBytesPerStream.toNat
  recent_size : s.recent.size ≤ s.limits.maxRecentFingerprintsPerStream.toNat
  view_keys : s.view.keyCount ≤ s.limits.maxCacheKeysPerStream.toNat
  view_bytes_eq : s.view.identityBytes = ∑ key ∈ s.view.keys, key.size
  view_bytes_le : s.view.identityBytes ≤ s.limits.maxCacheIdentityBytesPerStream.toNat
  recent_past : ∀ c slot, s.recent[c]? = some slot → ∃ f, s.frontier = some f ∧ c ≤ f
  pending_ahead : ∀ c slot, s.pending[c]? = some slot → s.next < c ∨
    (c = s.next ∧ ((∃ first second, slot = .conflict first second) ∨ s.floorReached c = true))
  pending_span : ∀ c slot, s.pending[c]? = some slot →
    s.next ≤ c ∧ c - s.next ≤ s.limits.maxGapSpanPerStream.toNat
  pending_no_clear : ∀ (c : Nat) (source : PreparedEnvelope canon),
    s.pending[c]? = some (.candidate source) →
    source.hasClear = false
  floor_ahead : ∀ lo f, s.unavailableFloor = some lo → s.frontier = some f → f < lo
  frontier_lt : ∀ f, s.frontier = some f → f < 2 ^ 64
  pending_lt : ∀ c slot, s.pending[c]? = some slot → c < 2 ^ 64
  counters : s.diagnostics.Bounded s.limits.maxDiagnosticCount.toNat

theorem Invariant.withinLimits (hs : s.Invariant) : s.WithinLimits where
  pending_size := hs.pending_size
  pendingBytes_eq := hs.accounted
  pendingBytes_le := hs.pendingBytes_le
  recent_size := hs.recent_size
  view_keys := hs.view.keys_le
  view_bytes_eq := hs.view.identityBytes
  view_bytes_le := hs.view.bytes_le
  recent_past := fun c slot hc => by
    obtain ⟨hinit, hpast⟩ := hs.recent_past hc
    cases hf : s.frontier with
    | none =>
        rw [next_of_none hf] at hpast
        omega
    | some f =>
        rw [next_of_some hf] at hpast
        exact ⟨f, rfl, by omega⟩
  pending_ahead := fun c slot hc => by
    rcases Nat.lt_or_eq_of_le (hs.pending_next hc).1 with hlt | rfl
    · exact .inl hlt
    · refine .inr ⟨rfl, ?_⟩
      cases slot with
      | conflict first second => exact .inl ⟨first, second, rfl⟩
      | candidate source => exact .inr (hs.pending_blocked hc)
  pending_span := fun c slot hc => ⟨(hs.pending_next hc).1, (hs.pending_next hc).2.1⟩
  pending_no_clear := fun c source hc => (hs.candidate hc).2
  floor_ahead := fun lo f hlo hf => by
    have hsome := hs.toCore.floor_isSome
    rw [hlo, Option.isSome_some] at hsome
    obtain ⟨hi, hhi⟩ := Option.isSome_iff_exists.mp hsome.symm
    have hle := (hs.horizon hlo hhi).1
    rw [next_of_some hf] at hle
    omega
  frontier_lt := fun f hf => by
    have hle := hs.next_le
    rw [next_of_some hf] at hle
    omega
  pending_lt := fun c slot hc => (hs.pending_next hc).2.2
  counters := hs.diagnostics

/-- Every reachable state is within its limits and admits any delivery,
under any session status, without a panic. -/
theorem bounded_and_panic_free (hs : Reachable blueprint s) :
    s.WithinLimits ∧ ∀ status e message, (s.admitDelivery status e).1 ≠ .error (.panic message) :=
  ⟨hs.invariant.withinLimits, fun status e => admitDelivery_noPanic hs.invariant status e⟩

/-- The bounds while a delivery is pending. -/
theorem bounded_pending :
    (Sample.deliver (Sample.fresh .default) [Sample.early]).WithinLimits :=
  (bounded_and_panic_free (.deliver .fresh .open_ Sample.early)).1

end StreamState

end KvCrucible
