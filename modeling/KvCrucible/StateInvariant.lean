/-
KvCrucible/StateInvariant.lean

The state invariant of the delivery fold.

`Core` relates the separately stored fields: poison to the two ceilings it
merges, the unavailable horizon to the frontier, the equivocation ceiling and
the authority flag to the slots and the baseline, the pending and recent maps
to the cursors, the byte total and the view to their exact sums and ceilings.
`Invariant` adds what a step may break for a moment and restores before it
returns: the stored certainty, and that every conflict slot lies at or below
the equivocation ceiling.  `Invariant.step` goes through `Step` case by case.
-/
import KvCrucible.StateStep

namespace KvCrucible

open Basis Std

variable {canon : Canonical}

/-! ### Diagnostics stay below their ceiling -/

namespace Diagnostics

/-- All counters. -/
def counters (d : Diagnostics) : List Nat :=
  [d.duplicates, d.equivocations, d.staleUnverifiable, d.staleBarriers, d.missingRemovesExact,
    d.missingRemovesPartial, d.pendingLimits, d.gapLimits, d.unverifiableGaps, d.unclosedGaps]

/-- No counter exceeds `maximum`. -/
def Bounded (maximum : Nat) (d : Diagnostics) : Prop := ∀ counter ∈ d.counters, counter ≤ maximum

/-- A change of the diagnostics that keeps every counter below the ceiling. -/
def KeepsBound (bump : Nat → Diagnostics → Diagnostics) : Prop :=
  ∀ maximum d, d.Bounded maximum → (bump maximum d).Bounded maximum

theorem increment_le {counter maximum : Nat} {truncated : Bool} (h : counter ≤ maximum) :
    (increment counter truncated maximum).1 ≤ maximum := by
  unfold increment
  split
  · exact h
  · show counter + 1 ≤ maximum
    omega

theorem add_le {counter added maximum : Nat} {truncated : Bool} (h : counter ≤ maximum) :
    (add counter added truncated maximum).1 ≤ maximum := by
  unfold add
  by_cases hadd : added > maximum - counter
  · simp [hadd]
  · simp only [hadd, if_false]
    omega

theorem bounded_iff {maximum : Nat} {d : Diagnostics} :
    d.Bounded maximum ↔ d.duplicates ≤ maximum ∧ d.equivocations ≤ maximum ∧
      d.staleUnverifiable ≤ maximum ∧ d.staleBarriers ≤ maximum ∧
      d.missingRemovesExact ≤ maximum ∧ d.missingRemovesPartial ≤ maximum ∧
      d.pendingLimits ≤ maximum ∧ d.gapLimits ≤ maximum ∧ d.unverifiableGaps ≤ maximum ∧
      d.unclosedGaps ≤ maximum := by
  simp [Bounded, counters]

theorem bounded_default (maximum : Nat) : default.Bounded maximum := by
  simp [bounded_iff, default]

theorem keepsBound_bumpDuplicate : KeepsBound bumpDuplicate := by
  intro maximum d h
  rw [bounded_iff] at h ⊢
  exact ⟨increment_le h.1, h.2⟩

theorem keepsBound_bumpEquivocation : KeepsBound bumpEquivocation := by
  intro maximum d h
  rw [bounded_iff] at h ⊢
  exact ⟨h.1, increment_le h.2.1, h.2.2⟩

theorem keepsBound_bumpStaleUnverifiable : KeepsBound bumpStaleUnverifiable := by
  intro maximum d h
  rw [bounded_iff] at h ⊢
  exact ⟨h.1, h.2.1, increment_le h.2.2.1, h.2.2.2⟩

theorem keepsBound_bumpStaleBarrier : KeepsBound bumpStaleBarrier := by
  intro maximum d h
  rw [bounded_iff] at h ⊢
  exact ⟨h.1, h.2.1, h.2.2.1, increment_le h.2.2.2.1, h.2.2.2.2⟩

theorem keepsBound_bumpPendingLimit : KeepsBound bumpPendingLimit := by
  intro maximum d h
  rw [bounded_iff] at h ⊢
  obtain ⟨h₁, h₂, h₃, h₄, h₅, h₆, h₇, h₈⟩ := h
  exact ⟨h₁, h₂, h₃, h₄, h₅, h₆, increment_le h₇, h₈⟩

theorem keepsBound_bumpGapLimit : KeepsBound bumpGapLimit := by
  intro maximum d h
  rw [bounded_iff] at h ⊢
  obtain ⟨h₁, h₂, h₃, h₄, h₅, h₆, h₇, h₈, h₉⟩ := h
  exact ⟨h₁, h₂, h₃, h₄, h₅, h₆, h₇, increment_le h₈, h₉⟩

theorem keepsBound_bumpUnverifiableGap : KeepsBound bumpUnverifiableGap := by
  intro maximum d h
  rw [bounded_iff] at h ⊢
  obtain ⟨h₁, h₂, h₃, h₄, h₅, h₆, h₇, h₈, h₉, h₁₀⟩ := h
  exact ⟨h₁, h₂, h₃, h₄, h₅, h₆, h₇, h₈, increment_le h₉, h₁₀⟩

theorem keepsBound_addMissingRemoves (exact : Bool) (missingRemoves : Nat) :
    KeepsBound (addMissingRemoves exact missingRemoves) := by
  intro maximum d h
  rw [bounded_iff] at h ⊢
  obtain ⟨h₁, h₂, h₃, h₄, h₅, h₆, h₇⟩ := h
  cases exact with
  | true => exact ⟨h₁, h₂, h₃, h₄, add_le h₅, h₆, h₇⟩
  | false => exact ⟨h₁, h₂, h₃, h₄, h₅, add_le h₆, h₇⟩

end Diagnostics

namespace StreamState

variable {s s' : StreamState canon} {e : PreparedEnvelope canon} {d : Disposition}

/-- What relates the fields of a state at every moment. -/
structure Core (s : StreamState canon) : Prop where
  poison : s.poisonCeiling = mergeCeilings s.equivocationCeiling s.unavailableCeiling
  horizon_none : s.unavailableFloor = none ↔ s.unavailableCeiling = none
  horizon : ∀ {lo hi}, s.unavailableFloor = some lo → s.unavailableCeiling = some hi →
    s.next ≤ lo ∧ lo ≤ hi
  authority : s.viewAuthoritative = true → s.baselineUnknown = false
  authority_lost : s.viewAuthoritative = false →
    s.baselineUnknown = true ∨ s.equivocationCeiling ≠ none
  unanchored : s.baselineUnknown = true → s.frontier = none →
    s.pending = ∅ ∧ s.unavailableFloor = none
  ceiling_ge : ∀ {hi}, s.equivocationCeiling = some hi → s.initialCursor ≤ hi
  ceiling_conflict : ∀ {hi}, s.equivocationCeiling = some hi → s.next ≤ hi →
    ∃ first second, s.pending[hi]? = some (.conflict first second)
  pending_next : ∀ {c slot}, s.pending[c]? = some slot →
    s.next ≤ c ∧ c - s.next ≤ s.limits.maxGapSpanPerStream.toNat ∧ c < 2 ^ 64
  pending_blocked : ∀ {source : PreparedEnvelope canon},
    s.pending[s.next]? = some (.candidate source) →
    s.floorReached s.next = true
  candidate : ∀ {c : Nat} {source : PreparedEnvelope canon},
    s.pending[c]? = some (.candidate source) →
    source.cursor = c ∧ source.hasClear = false
  accounted : s.Accounted
  pendingBytes_le : s.pendingBytes ≤ s.limits.maxPendingCanonicalBytesPerStream.toNat
  pending_size : s.pending.size ≤ s.limits.maxPendingEnvelopesPerStream.toNat
  recent_past : ∀ {c slot}, s.recent[c]? = some slot → s.initialCursor ≤ c ∧ c < s.next
  recent_size : s.recent.size ≤ s.limits.maxRecentFingerprintsPerStream.toNat
  view : s.view.Bounded s.limits
  initialCursor_le : s.initialCursor ≤ s.next
  frontier_ge : ∀ {f}, s.frontier = some f → s.initialCursor ≤ f
  next_le : s.next ≤ 2 ^ 64
  diagnostics : s.diagnostics.Bounded s.limits.maxDiagnosticCount.toNat

/-- The invariant of every reachable state. -/
structure Invariant (s : StreamState canon) : Prop extends Core s where
  certainty : s.certainty = s.certaintyOf
  conflict_le : ∀ {c first second}, s.pending[c]? = some (.conflict first second) →
    ∃ hi, s.equivocationCeiling = some hi ∧ c ≤ hi

/-! ### The initial state -/

theorem invariant_fromBlueprint (blueprint : StreamBlueprint) :
    (fromBlueprint blueprint : StreamState canon).Invariant where
  poison := rfl
  horizon_none := Iff.rfl
  horizon := fun h => by cases h
  authority := fun h => by simpa [fromBlueprint] using h
  authority_lost := fun h => .inl (by simpa [fromBlueprint] using h)
  unanchored := fun _ _ => ⟨rfl, rfl⟩
  ceiling_ge := fun h => by cases h
  ceiling_conflict := fun h => by cases h
  pending_next := fun h => by simp [fromBlueprint] at h
  pending_blocked := fun h => by simp [fromBlueprint] at h
  candidate := fun h => by simp [fromBlueprint] at h
  accounted := (weight_empty _).symm
  pendingBytes_le := Nat.zero_le _
  pending_size := Nat.zero_le _
  recent_past := fun h => by simp [fromBlueprint] at h
  recent_size := Nat.zero_le _
  view := CacheView.bounded_empty _ _
  initialCursor_le := Nat.le_refl _
  frontier_ge := fun h => by cases h
  next_le := Nat.le_of_lt blueprint.registration.initialCursor_lt
  diagnostics := Diagnostics.bounded_default _
  certainty := by
    by_cases h : blueprint.registration.authority = .trustDeclaredEmpty
    · simp [fromBlueprint, certaintyOf, h]
    · simp [fromBlueprint, certaintyOf, h]
  conflict_le := fun h => by simp [fromBlueprint] at h

/-! ### Ceilings -/

theorem mergeCeilings_eq_none {left right : Option Nat} :
    mergeCeilings left right = none ↔ left = none ∧ right = none := by
  cases left <;> cases right <;> simp [mergeCeilings]

theorem dropBelow_eq_some {ceiling value : Option Nat} {cursor v : Nat} :
    dropBelow ceiling cursor value = some v ↔
      value = some v ∧ ∀ hi, ceiling = some hi → cursor ≤ hi := by
  cases ceiling with
  | none => simp [dropBelow]
  | some hi =>
      by_cases h : hi < cursor
      · simp only [dropBelow, Option.any_some, h, decide_true, if_true, reduceCtorEq,
          Option.some.injEq, forall_eq', false_iff, not_and]
        omega
      · simp only [dropBelow, Option.any_some, h, decide_false, Bool.false_eq_true, if_false,
          Option.some.injEq, forall_eq', iff_self_and]
        omega

namespace Core

/-- An exact state has no active ceiling. -/
theorem of_exact (hs : s.Core) (hc : s.certaintyOf = .exact) :
    s.baselineUnknown = false ∧ s.equivocationCeiling = none ∧ s.unavailableFloor = none ∧
      s.unavailableCeiling = none ∧ s.pending = ∅ := by
  unfold certaintyOf at hc
  by_cases hunknown : (s.baselineUnknown || s.poisonCeiling.isSome) = true
  · rw [if_pos hunknown] at hc
    cases hc
  · rw [if_neg hunknown] at hc
    simp only [Bool.or_eq_true, not_or, Bool.not_eq_true, Option.isSome_eq_false_iff,
      Option.isNone_iff_eq_none] at hunknown
    obtain ⟨hbase, hpoison⟩ := hunknown
    rw [hs.poison, mergeCeilings_eq_none] at hpoison
    by_cases hempty : s.pending.isEmpty = true
    · exact ⟨hbase, hpoison.1, hs.horizon_none.mpr hpoison.2, hpoison.2,
        ExtTreeMap.isEmpty_iff.mp hempty⟩
    · rw [if_neg hempty] at hc
      cases hc

/-! ### Counting -/

theorem tally (hs : s.Core) {bump : Nat → Diagnostics → Diagnostics}
    (hbump : Diagnostics.KeepsBound bump) : (s.tally bump).Core :=
  { hs with diagnostics := hbump _ _ hs.diagnostics }

/-! ### Equivocation -/

/-- Raising the equivocation ceiling to a past cursor, or to a cursor with a
conflict slot. -/
theorem setEquivocation (hs : s.Core) {cursor : Nat} {invalidatesView : Bool}
    (hcursor : (s.initialCursor ≤ cursor ∧ cursor < s.next) ∨
      ∃ first second, s.pending[cursor]? = some (.conflict first second)) :
    (s.setEquivocation cursor invalidatesView).Core := by
  have hinit : s.initialCursor ≤ cursor := by
    rcases hcursor with ⟨hinit, -⟩ | ⟨f, g, hslot⟩
    · exact hinit
    · exact hs.initialCursor_le.trans (hs.pending_next hslot).1
  have hge : ∀ {hi}, some (s.equivocationCeiling.elim cursor (max · cursor)) = some hi →
      s.initialCursor ≤ hi := by
    intro hi heq
    obtain rfl := Option.some.inj heq
    cases s.equivocationCeiling with
    | none => exact hinit
    | some old => exact hinit.trans (Nat.le_max_right old cursor)
  have hconflict : ∀ {hi}, some (s.equivocationCeiling.elim cursor (max · cursor)) = some hi →
      s.next ≤ hi → ∃ first second, s.pending[hi]? = some (.conflict first second) := by
    intro hi heq hle
    cases hceil : s.equivocationCeiling with
    | none =>
        obtain rfl : cursor = hi := by simpa [hceil] using heq
        exact hcursor.resolve_left (by omega)
    | some old =>
        obtain rfl : max old cursor = hi := by simpa [hceil] using heq
        rcases Nat.le_total cursor old with hco | hoc
        · rw [Nat.max_eq_left hco] at hle ⊢
          exact hs.ceiling_conflict hceil hle
        · rw [Nat.max_eq_right hoc] at hle ⊢
          exact hcursor.resolve_left (by omega)
  cases invalidatesView with
  | true =>
      exact { hs with
        poison := rfl
        ceiling_ge := hge
        ceiling_conflict := hconflict
        authority := fun h => by cases h
        authority_lost := fun _ => .inr (Option.some_ne_none _) }
  | false =>
      exact { hs with
        poison := rfl
        ceiling_ge := hge
        ceiling_conflict := hconflict
        authority_lost := fun _ => .inr (Option.some_ne_none _) }

/-- A pending candidate may turn into a conflict slot. -/
theorem conflictPending (hs : s.Core) {source : PreparedEnvelope canon}
    {first second : SemanticFingerprint} {cursor : Nat}
    (hslot : s.pending[cursor]? = some (.candidate source)) :
    (s.conflictPending cursor first second (s.pendingBytes - source.canonicalBytes)).Core := by
  have hget : ∀ {c slot}, (s.pending.insert cursor (.conflict first second))[c]? = some slot →
      (c = cursor ∧ slot = .conflict first second) ∨ s.pending[c]? = some slot := by
    intro c slot h
    rw [ExtTreeMap.getElem?_insert] at h
    by_cases hc : compare cursor c = .eq
    · rw [if_pos hc] at h
      exact .inl ⟨(Nat.compare_eq_eq.mp hc).symm, (Option.some.inj h).symm⟩
    · rw [if_neg hc] at h
      exact .inr h
  have hweight := weight_insert_of_some PendingSlot.canonicalBytes hslot (.conflict first second)
  have hself : (PendingSlot.conflict first second : PendingSlot canon).canonicalBytes = 0 := rfl
  have hsource : (PendingSlot.candidate source).canonicalBytes = source.canonicalBytes := rfl
  have hacc : s.pendingBytes = weight PendingSlot.canonicalBytes s.pending := hs.accounted
  exact { hs with
    unanchored := fun hbase hf => by
      rw [(hs.unanchored hbase hf).1] at hslot
      simp at hslot
    ceiling_conflict := fun {hi} heq hle => by
      obtain ⟨f, g, hold⟩ := hs.ceiling_conflict heq hle
      by_cases hc : hi = cursor
      · subst hc
        exact ⟨first, second, ExtTreeMap.getElem?_insert_self⟩
      · refine ⟨f, g, ?_⟩
        show (s.pending.insert cursor _)[hi]? = _
        rw [ExtTreeMap.getElem?_insert, if_neg (by rw [Nat.compare_eq_eq]; omega), hold]
    pending_next := fun h => by
      rcases hget h with ⟨rfl, -⟩ | h
      · exact hs.pending_next hslot
      · exact hs.pending_next h
    pending_blocked := fun h => by
      rcases hget h with ⟨-, h⟩ | h
      · cases h
      · exact hs.pending_blocked h
    candidate := fun h => by
      rcases hget h with ⟨-, h⟩ | h
      · cases h
      · exact hs.candidate h
    accounted := by
      show s.pendingBytes - source.canonicalBytes = weight _ (s.pending.insert cursor _)
      omega
    pendingBytes_le := (Nat.sub_le _ _).trans hs.pendingBytes_le
    pending_size := by
      show (s.pending.insert cursor _).size ≤ _
      rw [size_insert_of_some hslot]
      exact hs.pending_size }

/-- A retained fingerprint may turn into a conflict slot. -/
theorem conflictRecent (hs : s.Core) {slot : RecentSlot} {first second : SemanticFingerprint}
    {cursor : Nat} (hslot : s.recent[cursor]? = some slot) :
    (s.conflictRecent cursor first second).Core := by
  exact { hs with
    recent_past := fun {c slot'} h => by
      have h' : (s.recent.insert cursor (.conflict first second))[c]? = some slot' := h
      rw [ExtTreeMap.getElem?_insert] at h'
      by_cases hc : compare cursor c = .eq
      · obtain rfl := Nat.compare_eq_eq.mp hc
        exact hs.recent_past hslot
      · rw [if_neg hc] at h'
        exact hs.recent_past h'
    recent_size := by
      show (s.recent.insert cursor _).size ≤ _
      rw [size_insert_of_some hslot]
      exact hs.recent_size }

/-! ### The unavailable horizon -/

/-- Widening the horizon to a cursor ahead of the frontier of an anchored
stream. -/
theorem setUnavailable (hs : s.Core) {cursor : Nat} (hnext : s.next ≤ cursor)
    (hanchored : ¬ (s.baselineUnknown = true ∧ s.frontier = none)) :
    (s.setUnavailable cursor).Core := by
  exact { hs with
    poison := rfl
    horizon_none := by
      show (some _ = none) ↔ (some _ = none)
      simp
    horizon := fun {lo hi} hlo hhi => by
      obtain rfl := Option.some.inj hlo
      obtain rfl := Option.some.inj hhi
      show s.next ≤ _ ∧ _
      cases hfloor : s.unavailableFloor with
      | none =>
          rw [hs.horizon_none.mp hfloor]
          exact ⟨hnext, Nat.le_refl _⟩
      | some lo =>
          cases hceil : s.unavailableCeiling with
          | none =>
              rw [hs.horizon_none.mpr hceil] at hfloor
              cases hfloor
          | some hi =>
              obtain ⟨hlo, hle⟩ := hs.horizon hfloor hceil
              simp only [Option.elim_some]
              omega
    unanchored := fun hbase hf => absurd ⟨hbase, hf⟩ hanchored
    pending_blocked := fun h => by
      obtain ⟨lo, hlo, hle⟩ := floorReached_iff.mp (hs.pending_blocked h)
      refine floorReached_iff.mpr ⟨_, rfl, ?_⟩
      rw [hlo]
      exact (Nat.min_le_left _ _).trans hle }

/-! ### Buffering -/

/-- A clear-free delivery behind a gap may be retained when there is room. -/
theorem bufferPending (hs : s.Core) (hfresh : s.pending[e.cursor]? = none)
    (hnext : s.next < e.cursor) (hclear : e.hasClear = false)
    (hanchored : ¬ (s.baselineUnknown = true ∧ s.frontier = none))
    (hspan : e.cursor - s.next ≤ s.limits.maxGapSpanPerStream.toNat)
    (hroom : s.pendingRoom e = true) : (s.bufferPending e).Core := by
  obtain ⟨hsize, hbytes⟩ := pendingRoom_iff.mp hroom
  have hget : ∀ {c slot}, (s.pending.insert e.cursor (.candidate e))[c]? = some slot →
      (c = e.cursor ∧ slot = .candidate e) ∨ s.pending[c]? = some slot := by
    intro c slot h
    rw [ExtTreeMap.getElem?_insert] at h
    by_cases hc : compare e.cursor c = .eq
    · rw [if_pos hc] at h
      exact .inl ⟨(Nat.compare_eq_eq.mp hc).symm, (Option.some.inj h).symm⟩
    · rw [if_neg hc] at h
      exact .inr h
  have hacc : s.pendingBytes = weight PendingSlot.canonicalBytes s.pending := hs.accounted
  have hweight := weight_insert_of_none PendingSlot.canonicalBytes hfresh (.candidate e)
  have hself : (PendingSlot.candidate e).canonicalBytes = e.canonicalBytes := rfl
  exact { hs with
    unanchored := fun hbase hf => absurd ⟨hbase, hf⟩ hanchored
    ceiling_conflict := fun {hi} heq hle => by
      obtain ⟨f, g, hold⟩ := hs.ceiling_conflict heq hle
      refine ⟨f, g, ?_⟩
      have hne : e.cursor ≠ hi := by
        rintro rfl
        rw [hfresh] at hold
        cases hold
      show (s.pending.insert e.cursor _)[hi]? = _
      rw [ExtTreeMap.getElem?_insert, if_neg (by rwa [Nat.compare_eq_eq]), hold]
    pending_next := fun h => by
      rcases hget h with ⟨rfl, -⟩ | h
      · exact ⟨Nat.le_of_lt hnext, hspan, e.cursor_lt⟩
      · exact hs.pending_next h
    pending_blocked := fun h => by
      rcases hget h with ⟨heq, -⟩ | h
      · exact absurd heq (Nat.ne_of_lt hnext)
      · exact hs.pending_blocked h
    candidate := fun h => by
      rcases hget h with ⟨rfl, hself⟩ | h
      · obtain rfl := PendingSlot.candidate.inj hself
        exact ⟨rfl, hclear⟩
      · exact hs.candidate h
    accounted := by
      show s.pendingBytes + e.canonicalBytes = weight _ (s.pending.insert e.cursor _)
      omega
    pendingBytes_le := hbytes
    pending_size := by
      show (s.pending.insert e.cursor _).size ≤ _
      rw [size_insert_of_none hfresh]
      exact hsize }

end Core

/-! ### Applications -/

namespace Invariant

variable {barrier : Bool} {sources : List (PreparedEnvelope canon)} {cache : CacheTransaction}

/-- What leads to an application: a fresh delivery ahead of the frontier that
the horizon does not block, and either a barrier or the next delivery. -/
structure Reaches (s : StreamState canon) (e : PreparedEnvelope canon) (barrier : Bool) :
    Prop where
  fresh : s.pending[e.cursor]? = none
  next_le : s.next ≤ e.cursor
  unblocked : s.unavailableBlocks e = false
  eligible : s.eligibleBarrier e = barrier
  where_ : barrier = false → e.cursor = s.next ∨ (s.baselineUnknown = true ∧ s.frontier = none)

/-- The floor of an unblocked delivery lies above it, or the delivery is a
barrier above the whole horizon. -/
theorem floor_of_reaches (hs : s.Invariant) (h : Reaches s e barrier) {lo : Nat}
    (hlo : s.unavailableFloor = some lo) :
    (e.cursor < lo ∧ s.supersedes e.cursor barrier = false) ∨
      (barrier = true ∧ ∃ hi, s.unavailableCeiling = some hi ∧ hi < e.cursor) := by
  obtain ⟨hi, hhi⟩ : ∃ hi, s.unavailableCeiling = some hi := by
    cases hceil : s.unavailableCeiling with
    | none =>
        rw [hs.horizon_none.mpr hceil] at hlo
        cases hlo
    | some hi => exact ⟨hi, rfl⟩
  obtain ⟨-, hle⟩ := hs.horizon hlo hhi
  by_cases hbelow : e.cursor < lo
  · refine .inl ⟨hbelow, ?_⟩
    rw [Bool.eq_false_iff, Ne, supersedes_iff]
    rintro ⟨-, hi', hhi', hlt⟩
    obtain rfl := Option.some.inj (hhi.symm.trans hhi')
    omega
  · -- unblocked at or above the floor means a clear above the ceiling
    have hub : ¬ s.unavailableBlocks e = true := by simp [h.unblocked]
    rw [unavailableBlocks_iff] at hub
    have hclear : e.hasClear = true ∧ hi < e.cursor := by
      by_contra hcon
      refine hub ⟨lo, hlo, Nat.le_of_not_lt hbelow, fun hclear hi' hhi' => ?_⟩
      obtain rfl := Option.some.inj (hhi.symm.trans hhi')
      exact Nat.le_of_not_lt fun hlt => hcon ⟨hclear, hlt⟩
    refine .inr ⟨?_, hi, hhi, hclear.2⟩
    -- such a clear is eligible: an active ceiling excludes certainty `exact`
    rw [← h.eligible, eligibleBarrier_iff (hs.initialCursor_le.trans h.next_le) h.next_le]
    refine ⟨hclear.1, fun hexact => ?_⟩
    rw [hs.certainty] at hexact
    rw [(hs.toCore.of_exact hexact).2.2.2.1] at hhi
    cases hhi

variable (hs : s.Invariant) (h : Reaches s e barrier)
  (happ : s.Application e barrier sources cache s')

include hs h happ

/-- After an application the pending map is what was pending at or above the
new next cursor. -/
theorem pending_after (k : Nat) :
    s'.pending[k]? = if k < s'.next then none else s.pending[k]? := by
  rw [happ.pending, happ.next_eq]
  by_cases hk : k < e.cursor + sources.length + 1
  · rw [if_pos hk]
    by_cases hcond : (e.cursor < k ∧ k ≤ e.cursor + sources.length) ∨
        (barrier = true ∧ (k ≤ e.cursor ∨ u64Max ≤ e.cursor))
    · rw [if_pos hcond]
    · rw [if_neg hcond]
      -- not drained and not passed by a barrier: nothing was pending there
      simp only [not_or, not_and] at hcond
      have hkle : k ≤ e.cursor := by
        have := hcond.1
        omega
      have hbarrier : barrier = false := by
        cases barrier with
        | false => rfl
        | true => exact absurd hkle (hcond.2 rfl).1
      rcases h.where_ hbarrier with heq | hfirst
      · rcases Nat.lt_or_eq_of_le hkle with hlt | rfl
        · cases hslot : s.pending[k]? with
          | none => rfl
          | some slot =>
              have := (hs.pending_next hslot).1
              omega
        · exact h.fresh
      · rw [(hs.unanchored hfirst.1 hfirst.2).1]
        simp
  · rw [if_neg hk]
    by_cases hcond : (e.cursor < k ∧ k ≤ e.cursor + sources.length) ∨
        (barrier = true ∧ (k ≤ e.cursor ∨ u64Max ≤ e.cursor))
    · rw [if_pos hcond]
      cases hslot : s.pending[k]? with
      | none => rfl
      | some slot =>
          have := (hs.pending_next hslot).2.2
          unfold u64Max at hcond
          omega
    · rw [if_neg hcond]

/-- The drained candidates stop below the floor that remains. -/
theorem horizon_after {lo : Nat} (hlo : s'.unavailableFloor = some lo) :
    s.unavailableFloor = some lo ∧ s'.next ≤ lo ∧ s.supersedes e.cursor barrier = false := by
  have hold : s.unavailableFloor = some lo ∧
      (barrier = true → ∀ hi, s.unavailableCeiling = some hi → e.cursor ≤ hi) := by
    rw [happ.unavailableFloor] at hlo
    cases barrier with
    | false => exact ⟨hlo, fun hb => by cases hb⟩
    | true =>
        obtain ⟨hv, hc⟩ := dropBelow_eq_some.mp hlo
        exact ⟨hv, fun _ => hc⟩
  rcases hs.floor_of_reaches h hold.1 with ⟨hbelow, hsup⟩ | ⟨hb, hi, hhi, hlt⟩
  · refine ⟨hold.1, ?_, hsup⟩
    rw [happ.next_eq]
    rcases Nat.eq_zero_or_pos sources.length with hzero | hpos
    · omega
    · have hlast := happ.drained.floor (sources.length - 1) (by omega) hsup
      rw [Bool.eq_false_iff, Ne, floorReached_iff] at hlast
      have : ¬ lo ≤ e.cursor + 1 + (sources.length - 1) := fun hle => hlast ⟨lo, hold.1, hle⟩
      omega
  · have := hold.2 hb hi hhi
    omega

/-- An application keeps the invariant. -/
theorem application : s'.Invariant := by
  have hnext : s.next ≤ s'.next := by
    rw [happ.next_eq]
    have := h.next_le
    omega
  have hsub : ∀ (k : Nat) (slot : PendingSlot canon), s'.pending[k]? = some slot →
      s'.next ≤ k ∧ s.pending[k]? = some slot := by
    intro k slot hk
    rw [hs.pending_after h happ] at hk
    split at hk
    · cases hk
    · exact ⟨by omega, hk⟩
  have hacc : s'.Accounted := happ.accounted hs.accounted
  have hmax := happ.drained.le_max
  have hfloorCeil : s'.unavailableFloor = none ↔ s'.unavailableCeiling = none := by
    rw [happ.unavailableFloor, happ.unavailableCeiling]
    cases barrier with
    | false => exact hs.horizon_none
    | true =>
        unfold dropBelow
        by_cases hb : s.unavailableCeiling.any (· < e.cursor) = true
        · simp [hb]
        · simpa [hb] using hs.horizon_none
  have hceil : ∀ {hi}, s'.unavailableCeiling = some hi → s.unavailableCeiling = some hi := by
    intro hi hhi
    rw [happ.unavailableCeiling] at hhi
    cases barrier with
    | false => exact hhi
    | true => exact (dropBelow_eq_some.mp hhi).1
  have heqCeil : ∀ {hi}, s'.equivocationCeiling = some hi → s.equivocationCeiling = some hi := by
    intro hi hhi
    rw [happ.equivocationCeiling] at hhi
    cases barrier with
    | false => exact hhi
    | true => exact (dropBelow_eq_some.mp hhi).1
  exact
    { poison := by
        rw [happ.poisonCeiling]
        cases barrier with
        | true => rfl
        | false =>
            rw [if_neg Bool.false_ne_true, hs.poison, happ.equivocationCeiling,
              happ.unavailableCeiling]
            rfl
      horizon_none := hfloorCeil
      horizon := fun {lo hi} hlo hhi => by
        obtain ⟨hold, hle, -⟩ := hs.horizon_after h happ hlo
        exact ⟨hle, (hs.horizon hold (hceil hhi)).2⟩
      authority := fun hauth => by
        rw [happ.baselineUnknown]
        rw [happ.viewAuthoritative] at hauth
        cases barrier with
        | true => rfl
        | false => exact hs.authority hauth
      authority_lost := fun hauth => by
        rw [happ.viewAuthoritative] at hauth
        rw [happ.baselineUnknown, happ.equivocationCeiling]
        cases barrier with
        | true => cases hauth
        | false => exact hs.authority_lost hauth
      unanchored := fun _ hf => by
        rw [happ.frontier] at hf
        cases hf
      ceiling_ge := fun heq => by
        rw [happ.initialCursor]
        exact hs.ceiling_ge (heqCeil heq)
      ceiling_conflict := fun {hi} heq hle => by
        obtain ⟨f, g, hold⟩ := hs.ceiling_conflict (heqCeil heq) (hnext.trans hle)
        refine ⟨f, g, ?_⟩
        rw [hs.pending_after h happ, if_neg (by omega), hold]
      pending_next := fun {c slot} hc => by
        obtain ⟨hle, hold⟩ := hsub c slot hc
        obtain ⟨-, hspan, hlt⟩ := hs.pending_next hold
        rw [happ.limits]
        exact ⟨hle, by omega, hlt⟩
      pending_blocked := fun {source} hc => by
        obtain ⟨-, hold⟩ := hsub _ _ hc
        have hlt := (hs.pending_next hold).2.2
        rw [happ.next_eq] at hold hlt
        rw [show e.cursor + sources.length + 1 = e.cursor + 1 + sources.length by omega] at hold
        -- the drain stopped in front of a candidate, so it met the floor
        rcases happ.drained.stop with hstop | ⟨hsup, hfloor⟩ | hstop
        · unfold u64Max at hstop
          omega
        · obtain ⟨lo, hlo, hle⟩ := floorReached_iff.mp hfloor
          refine floorReached_iff.mpr ⟨lo, ?_, by rw [happ.next_eq]; omega⟩
          rw [happ.unavailableFloor]
          cases barrier with
          | false => exact hlo
          | true =>
              refine dropBelow_eq_some.mpr ⟨hlo, fun hi hhi => ?_⟩
              rw [Bool.eq_false_iff, Ne, supersedes_iff] at hsup
              exact Nat.le_of_not_lt fun hlt => hsup ⟨rfl, hi, hhi, hlt⟩
        · exact absurd hold (hstop source)
      candidate := fun hc => hs.candidate (hsub _ _ hc).2
      accounted := hacc
      pendingBytes_le := by
        have hle := weight_le_of_subset PendingSlot.canonicalBytes fun k v hk => (hsub k v hk).2
        rw [hacc, happ.limits]
        exact hle.trans (hs.accounted ▸ hs.pendingBytes_le)
      pending_size := by
        rw [happ.limits]
        exact (size_le_of_subset fun k v hk => (hsub k v hk).2).trans hs.pending_size
      recent_past := fun {c slot} hc => by
        have hle := hs.initialCursor_le.trans h.next_le
        rw [happ.recent] at hc
        rw [happ.initialCursor, happ.next_eq]
        rcases getElem?_retainAll hc with ⟨fact, hfact, rfl, -⟩ | hc
        · rcases List.mem_cons.mp hfact with rfl | hfact
          · show s.initialCursor ≤ e.cursor ∧ e.cursor < _
            omega
          · obtain ⟨k, hk, rfl⟩ := mem_factsFrom.mp hfact
            show s.initialCursor ≤ e.cursor + 1 + k ∧ e.cursor + 1 + k < _
            omega
        · cases barrier with
          | true => simp at hc
          | false =>
              obtain ⟨hlo, hhi⟩ := hs.recent_past hc
              have := h.next_le
              omega
      recent_size := by
        rw [happ.recent, happ.limits]
        exact size_retainAll (List.cons_ne_nil _ _)
      view := by
        rw [happ.limits]
        exact (happ.view_ok hs.view).2
      initialCursor_le := by
        rw [happ.initialCursor]
        exact hs.initialCursor_le.trans hnext
      frontier_ge := fun hf => by
        rw [happ.frontier] at hf
        obtain rfl := Option.some.inj hf
        rw [happ.initialCursor]
        exact (hs.initialCursor_le.trans h.next_le).trans (Nat.le_add_right _ _)
      next_le := by
        rw [happ.next_eq]
        unfold u64Max at hmax
        omega
      diagnostics := by
        rw [happ.diagnostics, happ.limits]
        exact Diagnostics.keepsBound_addMissingRemoves _ _ _ _ hs.diagnostics
      certainty := happ.certainty
      conflict_le := fun {c f g} hc => by
        obtain ⟨hle, hold⟩ := hsub _ _ hc
        obtain ⟨hi, hhi, hchi⟩ := hs.conflict_le hold
        refine ⟨hi, ?_, hchi⟩
        rw [happ.equivocationCeiling]
        cases barrier with
        | false => exact hhi
        | true =>
            refine dropBelow_eq_some.mpr ⟨hhi, fun hi' hhi' => ?_⟩
            obtain rfl := Option.some.inj (hhi.symm.trans hhi')
            rw [happ.next_eq] at hle
            omega }

end Invariant

/-! ### Steps and runs -/

/-- Recomputing the certainty completes the invariant. -/
theorem Core.recomputeCertainty (hs : s.Core)
    (hconflict : ∀ {c first second}, s.pending[c]? = some (.conflict first second) →
      ∃ hi, s.equivocationCeiling = some hi ∧ c ≤ hi) : s.recomputeCertainty.Invariant :=
  { hs with certainty := rfl, conflict_le := hconflict }

/-- Noting an equivocation completes the invariant when every conflict slot
is at the noted cursor or below the old ceiling. -/
theorem Core.noteEquivocation (hs : s.Core) {cursor : Nat} {invalidatesView : Bool}
    (hcursor : (s.initialCursor ≤ cursor ∧ cursor < s.next) ∨
      ∃ first second, s.pending[cursor]? = some (.conflict first second))
    (hconflict : ∀ {c first second}, s.pending[c]? = some (.conflict first second) →
      c = cursor ∨ ∃ hi, s.equivocationCeiling = some hi ∧ c ≤ hi) :
    (s.noteEquivocation cursor invalidatesView).Invariant := by
  have hcore : ((s.tally Diagnostics.bumpEquivocation).setEquivocation cursor
      invalidatesView).Core :=
    (hs.tally Diagnostics.keepsBound_bumpEquivocation).setEquivocation hcursor
  refine hcore.recomputeCertainty fun {c first second} hc => ?_
  refine ⟨s.equivocationCeiling.elim cursor (max · cursor), ?_, ?_⟩
  · cases invalidatesView <;> rfl
  · have hc' : s.pending[c]? = some (.conflict first second) := by
      cases invalidatesView <;> exact hc
    rcases hconflict hc' with rfl | ⟨hi, hhi, hle⟩
    · cases s.equivocationCeiling with
      | none => exact Nat.le_refl _
      | some old => exact Nat.le_max_right old c
    · rw [hhi]
      exact hle.trans (Nat.le_max_left hi cursor)

namespace Invariant

theorem tally (hs : s.Invariant) {bump : Nat → Diagnostics → Diagnostics}
    (hbump : Diagnostics.KeepsBound bump) : (s.tally bump).Invariant :=
  { hs.toCore.tally hbump with certainty := hs.certainty, conflict_le := hs.conflict_le }

theorem noteUnavailable (hs : s.Invariant) {bump : Nat → Diagnostics → Diagnostics}
    (hbump : Diagnostics.KeepsBound bump) {cursor : Nat} (hnext : s.next ≤ cursor)
    (hanchored : ¬ (s.baselineUnknown = true ∧ s.frontier = none)) :
    (s.noteUnavailable bump cursor).Invariant :=
  ((hs.toCore.tally hbump).setUnavailable hnext hanchored).recomputeCertainty hs.conflict_le

/-- A delivery ahead of the expected cursor is buffered only without a clear:
with one it would have been a barrier. -/
theorem no_clear_of_not_eligible (hs : s.Invariant) (hnext : s.next < e.cursor)
    (h : s.eligibleBarrier e = false) : e.hasClear = false := by
  have hne : ¬ s.eligibleBarrier e = true := by simp [h]
  rw [eligibleBarrier_iff (hs.initialCursor_le.trans (Nat.le_of_lt hnext))
    (Nat.le_of_lt hnext)] at hne
  cases hclear : e.hasClear with
  | false => rfl
  | true => exact absurd ⟨hclear, fun _ => hnext⟩ hne

/-- A horizon is only ever opened on an anchored stream. -/
theorem anchored_of_floor (hs : s.Invariant) {lo : Nat} (hlo : s.unavailableFloor = some lo) :
    ¬ (s.baselineUnknown = true ∧ s.frontier = none) := by
  rintro ⟨hbase, hf⟩
  rw [(hs.unanchored hbase hf).2] at hlo
  cases hlo

/-- Every way to succeed keeps the invariant. -/
theorem step (hs : s.Invariant) (h : s.Step e d s') : s'.Invariant := by
  cases h with
  | pendingDuplicate hslot hcovers => exact hs.tally Diagnostics.keepsBound_bumpDuplicate
  | pastDuplicate hfresh hpast hslot hcovers => exact hs.tally Diagnostics.keepsBound_bumpDuplicate
  | staleBarrier hfresh hpast hslot hclear => exact hs.tally Diagnostics.keepsBound_bumpStaleBarrier
  | staleUnverifiable hfresh hpast hslot hclear =>
      exact hs.tally Diagnostics.keepsBound_bumpStaleUnverifiable
  | pendingConflict hslot hne hbytes =>
      refine (hs.toCore.conflictPending hslot).noteEquivocation
        (.inr ⟨_, _, ExtTreeMap.getElem?_insert_self⟩) fun {c f g} hc => ?_
      by_cases heq : c = e.cursor
      · exact .inl heq
      · have hc' : (s.pending.insert e.cursor _)[c]? = some (.conflict f g) := hc
        rw [ExtTreeMap.getElem?_insert, if_neg (by rw [Nat.compare_eq_eq]; omega)] at hc'
        exact .inr (hs.conflict_le hc')
  | pendingAdditional hslot hfirst hsecond =>
      exact hs.toCore.noteEquivocation (.inr ⟨_, _, hslot⟩) fun hc => .inr (hs.conflict_le hc)
  | pastConflict hfresh hpast hslot hne =>
      exact (hs.toCore.conflictRecent hslot).noteEquivocation
        (.inl ⟨(hs.recent_past hslot).1, hpast⟩) fun hc => .inr (hs.conflict_le hc)
  | pastAdditional hfresh hpast hslot hfirst hsecond =>
      exact hs.toCore.noteEquivocation (.inl ⟨(hs.recent_past hslot).1, hpast⟩)
        fun hc => .inr (hs.conflict_le hc)
  | unverifiableGap hfresh hnext hblocks =>
      obtain ⟨lo, hlo, -⟩ := unavailableBlocks_iff.mp hblocks
      exact hs.noteUnavailable Diagnostics.keepsBound_bumpUnverifiableGap hnext
        (hs.anchored_of_floor hlo)
  | barrierApplied hfresh hnext hblocks heligible happ =>
      exact hs.application ⟨hfresh, hnext, hblocks, heligible, fun hb => by cases hb⟩ happ
  | applied hfresh hnext hblocks heligible hwhere happ =>
      exact hs.application ⟨hfresh, hnext, hblocks, heligible, fun _ => hwhere⟩ happ
  | gapLimit hfresh hnext hblocks heligible hanchored hspan =>
      exact hs.noteUnavailable Diagnostics.keepsBound_bumpGapLimit (Nat.le_of_lt hnext) hanchored
  | pendingLimit hfresh hnext hblocks heligible hanchored hspan hroom =>
      exact hs.noteUnavailable Diagnostics.keepsBound_bumpPendingLimit (Nat.le_of_lt hnext)
        hanchored
  | buffered hfresh hnext hblocks heligible hanchored hspan hroom =>
      have hclear := hs.no_clear_of_not_eligible hnext heligible
      refine (hs.toCore.bufferPending hfresh hnext hclear hanchored hspan
        hroom).recomputeCertainty fun {c f g} hc => ?_
      have hc' : (s.pending.insert e.cursor _)[c]? = some (.conflict f g) := hc
      rw [ExtTreeMap.getElem?_insert] at hc'
      split at hc'
      · cases hc'
      · exact hs.conflict_le hc'

/-- Every admission, failing ones included, keeps the invariant. -/
theorem admitDelivery (hs : s.Invariant) (status : SessionStatus) (e : PreparedEnvelope canon) :
    (s.admitDelivery status e).2.Invariant := by
  unfold StreamState.admitDelivery
  by_cases hfailed : s.failed = true
  · rw [if_pos hfailed]
    exact hs
  · rw [if_neg hfailed]
    by_cases hstatus : status = .failed
    · rw [if_pos hstatus]
      exact hs
    · rw [if_neg hstatus]
      rcases hinner : s.admitInner e with failure | ⟨d, s₁⟩
      · exact { hs with }
      · exact hs.step (admitInner_ok hinner).2

end Invariant

variable {blueprint : StreamBlueprint} {history : List (PreparedEnvelope canon × Disposition)}

/-- The states that admissions reach from a fresh state, failing ones
included. -/
inductive Reachable (blueprint : StreamBlueprint) : StreamState canon → Prop
  | fresh : Reachable blueprint (fromBlueprint blueprint)
  | deliver {s : StreamState canon} (hs : Reachable blueprint s) (status : SessionStatus)
      (e : PreparedEnvelope canon) : Reachable blueprint (s.admitDelivery status e).2

/-- Every reachable state satisfies the invariant. -/
theorem Reachable.invariant (hs : Reachable blueprint s) : s.Invariant := by
  induction hs with
  | fresh => exact invariant_fromBlueprint blueprint
  | deliver hs status e ih => exact ih.admitDelivery status e

/-- Every state a run of successful admissions ends in satisfies the
invariant. -/
theorem invariant_run (hr : RunFrom (fromBlueprint blueprint) history s) : s.Invariant :=
  Run.invariant_state Invariant (invariant_fromBlueprint blueprint)
    (fun hs h => hs.step (Admits.step h)) hr

/-! ### What steps do not change -/

/-- The fields that identify the stream. -/
structure SameStream (s s' : StreamState canon) : Prop where
  session : s'.session = s.session
  limits : s'.limits = s.limits
  streamId : s'.streamId = s.streamId
  initialCursor : s'.initialCursor = s.initialCursor
  scope : s'.view.scope = s.view.scope
  failed : s'.failed = s.failed

/-- A change that folds nothing. -/
structure Quiet (s s' : StreamState canon) : Prop extends SameStream s s' where
  view : s'.view = s.view
  frontier : s'.frontier = s.frontier
  baselineUnknown : s'.baselineUnknown = s.baselineUnknown

namespace SameStream

theorem refl (s : StreamState canon) : s.SameStream s := ⟨rfl, rfl, rfl, rfl, rfl, rfl⟩

theorem trans {s₁ s₂ s₃ : StreamState canon} (h₁ : s₁.SameStream s₂) (h₂ : s₂.SameStream s₃) :
    s₁.SameStream s₃ :=
  ⟨h₂.session.trans h₁.session, h₂.limits.trans h₁.limits, h₂.streamId.trans h₁.streamId,
    h₂.initialCursor.trans h₁.initialCursor, h₂.scope.trans h₁.scope, h₂.failed.trans h₁.failed⟩

theorem application {barrier : Bool} {sources : List (PreparedEnvelope canon)}
    {cache : CacheTransaction} (h : s.Application e barrier sources cache s') : s.SameStream s' :=
  ⟨h.session, h.limits, h.streamId, h.initialCursor, h.scope, h.failed⟩

end SameStream

namespace Quiet

theorem trans {s₁ s₂ s₃ : StreamState canon} (h₁ : s₁.Quiet s₂) (h₂ : s₂.Quiet s₃) :
    s₁.Quiet s₃ :=
  ⟨h₁.toSameStream.trans h₂.toSameStream, h₂.view.trans h₁.view, h₂.frontier.trans h₁.frontier,
    h₂.baselineUnknown.trans h₁.baselineUnknown⟩

theorem next_eq (h : s.Quiet s') : s'.next = s.next := by
  unfold StreamState.next
  rw [h.frontier, h.initialCursor]

theorem tally (s : StreamState canon) (bump : Nat → Diagnostics → Diagnostics) :
    s.Quiet (s.tally bump) :=
  ⟨⟨rfl, rfl, rfl, rfl, rfl, rfl⟩, rfl, rfl, rfl⟩

theorem recomputeCertainty (s : StreamState canon) : s.Quiet s.recomputeCertainty :=
  ⟨⟨rfl, rfl, rfl, rfl, rfl, rfl⟩, rfl, rfl, rfl⟩

theorem setEquivocation (s : StreamState canon) (cursor : Nat) (invalidatesView : Bool) :
    s.Quiet (s.setEquivocation cursor invalidatesView) := by
  cases invalidatesView <;> exact ⟨⟨rfl, rfl, rfl, rfl, rfl, rfl⟩, rfl, rfl, rfl⟩

theorem setUnavailable (s : StreamState canon) (cursor : Nat) :
    s.Quiet (s.setUnavailable cursor) :=
  ⟨⟨rfl, rfl, rfl, rfl, rfl, rfl⟩, rfl, rfl, rfl⟩

theorem conflictPending (s : StreamState canon) (cursor : Nat)
    (first second : SemanticFingerprint) (pendingBytes : Nat) :
    s.Quiet (s.conflictPending cursor first second pendingBytes) :=
  ⟨⟨rfl, rfl, rfl, rfl, rfl, rfl⟩, rfl, rfl, rfl⟩

theorem conflictRecent (s : StreamState canon) (cursor : Nat)
    (first second : SemanticFingerprint) : s.Quiet (s.conflictRecent cursor first second) :=
  ⟨⟨rfl, rfl, rfl, rfl, rfl, rfl⟩, rfl, rfl, rfl⟩

theorem bufferPending (s : StreamState canon) (source : PreparedEnvelope canon) :
    s.Quiet (s.bufferPending source) :=
  ⟨⟨rfl, rfl, rfl, rfl, rfl, rfl⟩, rfl, rfl, rfl⟩

theorem noteEquivocation (s : StreamState canon) (cursor : Nat) (invalidatesView : Bool) :
    s.Quiet (s.noteEquivocation cursor invalidatesView) :=
  ((tally s _).trans (setEquivocation _ cursor invalidatesView)).trans (recomputeCertainty _)

theorem noteUnavailable (s : StreamState canon) (bump : Nat → Diagnostics → Diagnostics)
    (cursor : Nat) : s.Quiet (s.noteUnavailable bump cursor) :=
  ((tally s bump).trans (setUnavailable _ cursor)).trans (recomputeCertainty _)

end Quiet

/-- A step either folds nothing, or it is an application with the disposition
of one. -/
theorem Step.quiet_or_folds (h : s.Step e d s') :
    (d ≠ .applied ∧ d ≠ .barrierApplied ∧ s.Quiet s') ∨
      ∃ barrier sources cache, d = (if barrier then .barrierApplied else .applied) ∧
        Invariant.Reaches s e barrier ∧ s.Application e barrier sources cache s' := by
  cases h with
  | pendingDuplicate hslot hcovers => exact .inl ⟨nofun, nofun, .tally s _⟩
  | pastDuplicate hfresh hpast hslot hcovers => exact .inl ⟨nofun, nofun, .tally s _⟩
  | staleBarrier hfresh hpast hslot hclear => exact .inl ⟨nofun, nofun, .tally s _⟩
  | staleUnverifiable hfresh hpast hslot hclear => exact .inl ⟨nofun, nofun, .tally s _⟩
  | pendingConflict hslot hne hbytes =>
      exact .inl ⟨nofun, nofun, (Quiet.conflictPending s _ _ _ _).trans (.noteEquivocation _ _ _)⟩
  | pendingAdditional hslot hfirst hsecond =>
      exact .inl ⟨nofun, nofun, .noteEquivocation s _ _⟩
  | pastConflict hfresh hpast hslot hne =>
      exact .inl ⟨nofun, nofun, (Quiet.conflictRecent s _ _ _).trans (.noteEquivocation _ _ _)⟩
  | pastAdditional hfresh hpast hslot hfirst hsecond =>
      exact .inl ⟨nofun, nofun, .noteEquivocation s _ _⟩
  | unverifiableGap hfresh hnext hblocks => exact .inl ⟨nofun, nofun, .noteUnavailable s _ _⟩
  | gapLimit hfresh hnext hblocks heligible hanchored hspan =>
      exact .inl ⟨nofun, nofun, .noteUnavailable s _ _⟩
  | pendingLimit hfresh hnext hblocks heligible hanchored hspan hroom =>
      exact .inl ⟨nofun, nofun, .noteUnavailable s _ _⟩
  | buffered hfresh hnext hblocks heligible hanchored hspan hroom =>
      exact .inl ⟨nofun, nofun, (Quiet.bufferPending s e).trans (.recomputeCertainty _)⟩
  | barrierApplied hfresh hnext hblocks heligible happ =>
      exact .inr ⟨true, _, _, rfl, ⟨hfresh, hnext, hblocks, heligible, nofun⟩, happ⟩
  | applied hfresh hnext hblocks heligible hwhere happ =>
      exact .inr ⟨false, _, _, rfl, ⟨hfresh, hnext, hblocks, heligible, fun _ => hwhere⟩, happ⟩

theorem Step.same (h : s.Step e d s') : s.SameStream s' := by
  rcases h.quiet_or_folds with ⟨-, -, hquiet⟩ | ⟨_, _, _, -, -, happ⟩
  · exact hquiet.toSameStream
  · exact .application happ

/-- A run stays with its stream. -/
theorem same_run {init : StreamState canon} (hr : RunFrom init history s) : init.SameStream s :=
  Run.invariant_state (SameStream init) (SameStream.refl init)
    (fun hs h => hs.trans (Admits.step h).same) hr

end StreamState

end KvCrucible
