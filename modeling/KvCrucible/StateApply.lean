/-
KvCrucible/StateApply.lean

What a successful application does (`application_plan` and
`commit_application`).

`Drained` describes the candidates folded behind a delivery, and
`Application` every field of the state after commit in terms of the state
before.  Nothing here assumes an invariant: a byte total that was exact stays
exact, and lookups in the new pending map are given by those in the old one.
-/
import KvCrucible.CacheFold
import KvCrucible.State

namespace KvCrucible

open Basis Std

variable {canon : Canonical}

theorem expect_eq_ok {α : Type*} {value : Option α} {message : String} {a : α} :
    expect value message = .ok a ↔ value = some a := by
  cases value with
  | none => simp [expect]
  | some b => simp [expect]

namespace StreamState

variable {s s' : StreamState canon} {e : PreparedEnvelope canon} {d : Disposition}

/-! ### Guards -/

/-- The first cursor above the frontier. -/
def next (s : StreamState canon) : Nat := s.frontier.elim s.initialCursor (· + 1)

theorem next_of_none (h : s.frontier = none) : s.next = s.initialCursor := by
  simp [next, h]

theorem next_of_some {f : Nat} (h : s.frontier = some f) : s.next = f + 1 := by
  simp [next, h]

theorem isPast_iff {cursor : Nat} (h : s.initialCursor ≤ cursor) :
    s.isPast cursor = true ↔ cursor < s.next := by
  cases hf : s.frontier with
  | none =>
      simp only [isPast, next, hf, Option.any_none, Option.elim_none, Bool.false_eq_true,
        false_iff]
      omega
  | some f =>
      simp only [isPast, next, hf, Option.any_some, decide_eq_true_eq, Option.elim_some]
      omega

/-- Ahead of the frontier there is an expected cursor, because cursors are
`u64`. -/
theorem expectedCursor_of_le (h : s.next ≤ e.cursor) : s.expectedCursor = some s.next := by
  have hlt := e.cursor_lt
  cases hf : s.frontier with
  | none => simp [expectedCursor, next, hf]
  | some f =>
      have hnext : s.next = f + 1 := next_of_some hf
      simp only [expectedCursor, hf]
      exact checkedAdd_eq_some.mpr ⟨hnext.symm, by omega⟩

/-- A clear ahead of the frontier is a barrier unless it is simply the next
delivery of an exact state. -/
theorem eligibleBarrier_iff (hinit : s.initialCursor ≤ e.cursor) (h : s.next ≤ e.cursor) :
    s.eligibleBarrier e = true ↔
      e.hasClear = true ∧ (s.certainty = .exact → s.next < e.cursor) := by
  have hpast : s.isPast e.cursor = false := by
    rw [Bool.eq_false_iff, Ne, isPast_iff hinit]
    omega
  have hexp := expectedCursor_of_le h
  cases hclear : e.hasClear with
  | false => simp [eligibleBarrier, hclear]
  | true =>
      cases hc : s.certainty with
      | exact => simp [eligibleBarrier, hclear, hpast, hc, hexp]
      | recovering => simp [eligibleBarrier, hclear, hpast, hc]
      | unknown => simp [eligibleBarrier, hclear, hpast, hc]

theorem floorReached_iff {next : Nat} :
    s.floorReached next = true ↔ ∃ lo, s.unavailableFloor = some lo ∧ lo ≤ next := by
  cases h : s.unavailableFloor with
  | none => simp [floorReached, h]
  | some lo => simp [floorReached, h]

theorem unavailableBlocks_iff :
    s.unavailableBlocks e = true ↔
      ∃ lo, s.unavailableFloor = some lo ∧ lo ≤ e.cursor ∧
        (e.hasClear = true → ∀ hi, s.unavailableCeiling = some hi → e.cursor ≤ hi) := by
  cases h : s.unavailableFloor with
  | none => simp [unavailableBlocks, h]
  | some lo =>
      by_cases hlo : e.cursor < lo
      · simp only [unavailableBlocks, h, if_pos hlo, Bool.false_eq_true, Option.some.injEq,
          false_iff, not_exists, not_and]
        rintro lo' rfl
        omega
      · have hle : lo ≤ e.cursor := by omega
        cases hclear : e.hasClear with
        | false => simp [unavailableBlocks, h, hlo, hclear, hle]
        | true => simp [unavailableBlocks, h, hlo, hclear, hle, Option.all_eq_true]

theorem supersedes_iff {cursor : Nat} {barrier : Bool} :
    s.supersedes cursor barrier = true ↔
      barrier = true ∧ ∃ hi, s.unavailableCeiling = some hi ∧ hi < cursor := by
  cases h : s.unavailableCeiling with
  | none => simp [supersedes, h]
  | some hi => simp [supersedes, h]

/-! ### Draining -/

/-- `sources` are the candidates that `application_plan` folds behind
`cursor`: contiguous, below the floor unless it is superseded, and as many as
there are. -/
structure Drained (s : StreamState canon) (supersedes : Bool) (cursor : Nat)
    (sources : List (PreparedEnvelope canon)) : Prop where
  pending : ∀ k, ∀ hk : k < sources.length,
    s.pending[cursor + 1 + k]? = some (.candidate sources[k])
  floor : ∀ k < sources.length, supersedes = false → s.floorReached (cursor + 1 + k) = false
  stop : cursor + sources.length = u64Max ∨
    (supersedes = false ∧ s.floorReached (cursor + 1 + sources.length) = true) ∨
    ∀ source, s.pending[cursor + 1 + sources.length]? ≠ some (.candidate source)
  le_max : cursor + sources.length ≤ u64Max

theorem Drained.nil {supersedes : Bool} {cursor : Nat} (hmax : cursor ≤ u64Max)
    (h : cursor = u64Max ∨ (supersedes = false ∧ s.floorReached (cursor + 1) = true) ∨
      ∀ source, s.pending[cursor + 1]? ≠ some (.candidate source)) :
    s.Drained supersedes cursor [] where
  pending := fun k hk => absurd hk (Nat.not_lt_zero k)
  floor := fun k hk => absurd hk (Nat.not_lt_zero k)
  stop := h
  le_max := hmax

theorem Drained.cons {supersedes : Bool} {cursor : Nat} {source : PreparedEnvelope canon}
    {sources : List (PreparedEnvelope canon)}
    (hpending : s.pending[cursor + 1]? = some (.candidate source))
    (hfloor : supersedes = false → s.floorReached (cursor + 1) = false)
    (h : s.Drained supersedes (cursor + 1) sources) :
    s.Drained supersedes cursor (source :: sources) := by
  have hlen : cursor + 1 + (source :: sources).length = cursor + 1 + 1 + sources.length := by
    simp only [List.length_cons]
    omega
  have hlen' : cursor + (source :: sources).length = cursor + 1 + sources.length := by
    simp only [List.length_cons]
    omega
  refine ⟨?_, ?_, ?_, ?_⟩
  · intro k hk
    cases k with
    | zero => exact hpending
    | succ k =>
        have := h.pending k (by simpa using hk)
        rwa [show cursor + 1 + 1 + k = cursor + 1 + (k + 1) by omega] at this
  · intro k hk hsup
    cases k with
    | zero => exact hfloor hsup
    | succ k =>
        have := h.floor k (by simpa using hk) hsup
        rwa [show cursor + 1 + 1 + k = cursor + 1 + (k + 1) by omega] at this
  · rw [hlen, hlen']
    exact h.stop
  · rw [hlen']
    exact h.le_max

/-- The facts that `application_plan` records for contiguous candidates. -/
def factsFrom : Nat → List (PreparedEnvelope canon) → List AppliedFact
  | _, [] => []
  | cursor, source :: sources => ⟨cursor, source.fingerprint⟩ :: factsFrom (cursor + 1) sources

/-- Fold the mutations of candidates in order. -/
def applyAll (limits : Limits) (cache : CacheTransaction)
    (sources : List (PreparedEnvelope canon)) : Except StateError CacheTransaction :=
  sources.foldlM (fun cache source => cache.apply source.mutations limits) cache

/-- The candidates that the loop of `application_plan` comes to behind
`cursor`, if the cache takes them all. -/
def drainable (s : StreamState canon) (supersedes : Bool) :
    (room cursor : Nat) → List (PreparedEnvelope canon)
  | 0, _ => []
  | room + 1, cursor =>
      if !supersedes && s.floorReached (cursor + 1) then []
      else
        match s.pending[cursor + 1]? with
        | some (.candidate source) => source :: s.drainable supersedes room (cursor + 1)
        | _ => []

/-- The loop of `application_plan` folds the drainable candidates. -/
theorem drain_eq {supersedes : Bool} {room : Nat} :
    ∀ {cursor : Nat} {cache : CacheTransaction} {applied : List AppliedFact},
      s.drain supersedes room cursor cache applied =
        (applyAll s.limits cache (s.drainable supersedes room cursor) >>= fun cache =>
          .ok (cache, applied ++ factsFrom (cursor + 1) (s.drainable supersedes room cursor))) := by
  induction room with
  | zero =>
      intro cursor cache applied
      rw [drain, drainable, factsFrom, List.append_nil]
      rfl
  | succ room ih =>
      intro cursor cache applied
      have hstop : (.ok (cache, applied) : Except StateError (CacheTransaction × List AppliedFact)) =
          (applyAll s.limits cache ([] : List (PreparedEnvelope canon)) >>= fun cache =>
            .ok (cache, applied ++
              factsFrom (cursor + 1) ([] : List (PreparedEnvelope canon)))) := by
        rw [factsFrom, List.append_nil]
        rfl
      rw [drain, drainable]
      by_cases hfloor : (!supersedes && s.floorReached (cursor + 1)) = true
      · rw [if_pos hfloor, if_pos hfloor]
        exact hstop
      · rw [if_neg hfloor, if_neg hfloor]
        rcases hp : s.pending[cursor + 1]? with - | slot
        · exact hstop
        · cases slot with
          | conflict first second => exact hstop
          | candidate source =>
              dsimp only
              rw [applyAll, List.foldlM_cons]
              cases happly : cache.apply source.mutations s.limits with
              | error error => rfl
              | ok cache₁ =>
                  show s.drain supersedes room (cursor + 1) cache₁ _ = _
                  rw [ih, factsFrom, List.append_assoc]
                  rfl

/-- The drainable candidates are a maximal contiguous run. -/
theorem drained_drainable {supersedes : Bool} {room : Nat} :
    ∀ {cursor : Nat}, cursor + room = u64Max →
      s.Drained supersedes cursor (s.drainable supersedes room cursor) := by
  induction room with
  | zero =>
      intro cursor hroom
      exact .nil (by omega) (.inl hroom)
  | succ room ih =>
      intro cursor hroom
      rw [drainable]
      by_cases hfloor : (!supersedes && s.floorReached (cursor + 1)) = true
      · rw [if_pos hfloor]
        simp only [Bool.and_eq_true, Bool.not_eq_true'] at hfloor
        exact .nil (by omega) (.inr (.inl hfloor))
      · rw [if_neg hfloor]
        have hfloor' : supersedes = false → s.floorReached (cursor + 1) = false := by
          intro hsup
          simpa [hsup] using hfloor
        rcases hp : s.pending[cursor + 1]? with - | slot
        · exact .nil (by omega) (.inr (.inr fun source => by simp [hp]))
        · cases slot with
          | conflict first second => exact .nil (by omega) (.inr (.inr fun source => by simp [hp]))
          | candidate source => exact .cons hp hfloor' (ih (by omega))

/-- A maximal contiguous run is determined by its start. -/
theorem Drained.unique {supersedes : Bool} {cursor : Nat} {xs ys : List (PreparedEnvelope canon)}
    (hx : s.Drained supersedes cursor xs) (hy : s.Drained supersedes cursor ys) : xs = ys := by
  have hle : ∀ {xs ys : List (PreparedEnvelope canon)}, s.Drained supersedes cursor xs →
      s.Drained supersedes cursor ys → ys.length ≤ xs.length := by
    intro xs ys hx hy
    refine Nat.le_of_not_lt fun hlt => ?_
    rcases hx.stop with hmax | ⟨hsup, hfloor⟩ | hnone
    · have := hy.le_max
      omega
    · rw [hy.floor _ hlt hsup] at hfloor
      cases hfloor
    · exact hnone _ (hy.pending _ hlt)
  have hlength : xs.length = ys.length := Nat.le_antisymm (hle hy hx) (hle hx hy)
  refine List.ext_getElem hlength fun k hk hk' => ?_
  have hslot := (hx.pending k hk).symm.trans (hy.pending k hk')
  exact PendingSlot.candidate.inj (Option.some.inj hslot)

/-- The loop of `application_plan` drains a maximal contiguous run. -/
theorem drain_ok {supersedes : Bool} {room cursor : Nat} {cache cache' : CacheTransaction}
    {applied applied' : List AppliedFact} (hroom : cursor + room = u64Max)
    (h : s.drain supersedes room cursor cache applied = .ok (cache', applied')) :
    ∃ sources, s.Drained supersedes cursor sources ∧
      applied' = applied ++ factsFrom (cursor + 1) sources ∧
      applyAll s.limits cache sources = .ok cache' := by
  rw [drain_eq] at h
  obtain ⟨cache₁, hcache, h⟩ := bind_eq_ok.mp h
  obtain ⟨rfl, rfl⟩ : cache₁ = cache' ∧ _ = applied' := by simpa using h
  exact ⟨_, drained_drainable hroom, rfl, hcache⟩

/-! ### Committing -/

/-- The pending byte total is exact. -/
def Accounted (s : StreamState canon) : Prop :=
  s.pendingBytes = weight PendingSlot.canonicalBytes s.pending

/-- Insert one applied fact into the window. -/
def retain (limit : Nat) (recent : ExtTreeMap Nat RecentSlot) (fact : AppliedFact) :
    ExtTreeMap Nat RecentSlot :=
  dropTo limit (recent.insert fact.cursor (.candidate fact.fingerprint)).size
    (recent.insert fact.cursor (.candidate fact.fingerprint))

/-- Insert applied facts into the window, oldest first. -/
def retainAll (limit : Nat) (recent : ExtTreeMap Nat RecentSlot) (facts : List AppliedFact) :
    ExtTreeMap Nat RecentSlot :=
  facts.foldl (retain limit) recent

/-- Erase the cursors of drained facts. -/
def eraseAll (pending : ExtTreeMap Nat (PendingSlot canon)) (facts : List AppliedFact) :
    ExtTreeMap Nat (PendingSlot canon) :=
  facts.foldl (fun pending fact => pending.erase fact.cursor) pending

theorem removePending_ok {index cursor : Nat} (h : s.removePending index cursor = .ok s') :
    s' = { s with
      pending := if index = 0 then s.pending else s.pending.erase cursor
      pendingBytes := s'.pendingBytes } ∧ (s.Accounted → s'.Accounted) := by
  by_cases hindex : index = 0
  · rw [removePending, if_pos hindex] at h
    obtain rfl := Except.ok.inj h
    exact ⟨by rw [if_pos hindex], id⟩
  · rw [removePending, if_neg hindex] at h
    rcases hp : s.pending[cursor]? with - | slot
    · simp only [hp] at h
      obtain rfl := Except.ok.inj h
      exact ⟨by rw [if_neg hindex, erase_of_getElem?_eq_none hp], id⟩
    · simp only [hp] at h
      obtain ⟨bytes, hbytes, h⟩ := bind_eq_ok.mp h
      obtain ⟨hle, rfl⟩ := checkedSub_eq_some.mp (expect_eq_ok.mp hbytes)
      obtain rfl := pure_eq_ok.mp h
      refine ⟨by rw [if_neg hindex], fun hacc => ?_⟩
      have hweight := weight_eq_add_erase PendingSlot.canonicalBytes hp
      show s.pendingBytes - slot.canonicalBytes = weight _ (s.pending.erase cursor)
      rw [hacc, hweight]
      omega

theorem commitFact_ok {fact : AppliedFact} {index : Nat}
    (h : s.commitFact fact index = .ok s') :
    s' = { s with
      pending := if index = 0 then s.pending else s.pending.erase fact.cursor
      pendingBytes := s'.pendingBytes
      recent := retain s.limits.maxRecentFingerprintsPerStream.toNat s.recent fact
      frontier := some fact.cursor } ∧ (s.Accounted → s'.Accounted) := by
  obtain ⟨s₁, h₁, h⟩ := bind_eq_ok.mp h
  obtain ⟨hs₁, hacc⟩ := removePending_ok h₁
  obtain rfl := pure_eq_ok.mp h
  refine ⟨?_, hacc⟩
  rw [hs₁]
  rfl

/-- Committing the facts behind the first one. -/
theorem commitFacts_ok {facts : List AppliedFact} :
    ∀ {index : Nat} {s s' : StreamState canon}, 0 < index →
      (facts.zipIdx index).foldlM (fun s fact => s.commitFact fact.1 fact.2) s = .ok s' →
      s' = { s with
        pending := eraseAll s.pending facts
        pendingBytes := s'.pendingBytes
        recent := retainAll s.limits.maxRecentFingerprintsPerStream.toNat s.recent facts
        frontier := facts.foldl (fun _ fact => some fact.cursor) s.frontier } ∧
        (s.Accounted → s'.Accounted) := by
  induction facts with
  | nil =>
      intro index s s' _ h
      obtain rfl := pure_eq_ok.mp h
      exact ⟨rfl, id⟩
  | cons fact facts ih =>
      intro index s s' hindex h
      rw [List.zipIdx_cons, List.foldlM_cons] at h
      obtain ⟨s₁, h₁, h₂⟩ := bind_eq_ok.mp h
      obtain ⟨hs₁, hacc₁⟩ := commitFact_ok h₁
      obtain ⟨hs', hacc'⟩ := ih (Nat.succ_pos index) h₂
      refine ⟨?_, fun hacc => hacc' (hacc₁ hacc)⟩
      rw [hs', hs₁, if_neg (Nat.pos_iff_ne_zero.mp hindex)]
      rfl

theorem getElem?_eraseAll {sources : List (PreparedEnvelope canon)} :
    ∀ {cursor : Nat} {pending : ExtTreeMap Nat (PendingSlot canon)} {k : Nat},
      (eraseAll pending (factsFrom (cursor + 1) sources))[k]? =
        if cursor < k ∧ k ≤ cursor + sources.length then none else pending[k]? := by
  induction sources with
  | nil =>
      intro cursor pending k
      rw [if_neg (by simp only [List.length_nil]; omega)]
      rfl
  | cons source sources ih =>
      intro cursor pending k
      show (eraseAll (pending.erase (cursor + 1)) (factsFrom (cursor + 1 + 1) sources))[k]? = _
      rw [ih, ExtTreeMap.getElem?_erase, List.length_cons]
      by_cases hk : k = cursor + 1
      · subst hk
        rw [if_pos (by omega : cursor < cursor + 1 ∧ _)]
        simp
      · have hne : ¬ compare (cursor + 1) k = .eq := by
          rw [Nat.compare_eq_eq]
          omega
        rw [if_neg hne]
        exact if_congr (by omega) rfl rfl

theorem frontier_factsFrom {sources : List (PreparedEnvelope canon)} :
    ∀ {cursor : Nat}, (factsFrom (cursor + 1) sources).foldl
      (fun _ fact => some fact.cursor) (some cursor) = some (cursor + sources.length) := by
  induction sources with
  | nil => intro cursor; rfl
  | cons source sources ih =>
      intro cursor
      show (factsFrom (cursor + 1 + 1) sources).foldl _ (some (cursor + 1)) = _
      rw [ih, List.length_cons]
      congr 1
      omega

/-- Committing all facts of one application. -/
theorem commitApplied_ok {source : PreparedEnvelope canon} {sources : List (PreparedEnvelope canon)}
    {facts : List AppliedFact}
    (hfacts : facts = ⟨source.cursor, source.fingerprint⟩ :: factsFrom (source.cursor + 1) sources)
    (h : facts.zipIdx.foldlM (fun s fact => s.commitFact fact.1 fact.2) s = .ok s') :
    (∃ bytes, s' = { s with
      pending := eraseAll s.pending (factsFrom (source.cursor + 1) sources)
      pendingBytes := bytes
      recent := retainAll s.limits.maxRecentFingerprintsPerStream.toNat s.recent facts
      frontier := some (source.cursor + sources.length) }) ∧ (s.Accounted → s'.Accounted) := by
  subst hfacts
  rw [List.zipIdx_cons, List.foldlM_cons] at h
  obtain ⟨s₁, h₁, h₂⟩ := bind_eq_ok.mp h
  obtain ⟨hs₁, hacc₁⟩ := commitFact_ok h₁
  obtain ⟨hs', hacc'⟩ := commitFacts_ok (Nat.succ_pos 0) h₂
  refine ⟨⟨s'.pendingBytes, ?_⟩, fun hacc => hacc' (hacc₁ hacc)⟩
  rw [hs', hs₁, if_pos rfl]
  simp only [frontier_factsFrom]
  rfl

/-- A checked sum of slot sizes is the exact sum, when that fits a `u64`. -/
theorem foldlM_checkedAdd_eq_some {entries : List (Nat × PendingSlot canon)} :
    ∀ {total n : Nat}, total < 2 ^ 64 →
      (entries.foldlM (fun total e => checkedAdd total e.2.canonicalBytes) total = some n ↔
        total + (entries.map fun e => e.2.canonicalBytes).sum = n ∧ n < 2 ^ 64) := by
  induction entries with
  | nil =>
      intro total n ht
      show some total = some n ↔ _
      rw [Option.some.injEq, List.map_nil, List.sum_nil, Nat.add_zero]
      constructor
      · rintro rfl
        exact ⟨rfl, ht⟩
      · exact And.left
  | cons e entries ih =>
      intro total n ht
      rw [List.foldlM_cons, List.map_cons, List.sum_cons]
      rcases hadd : checkedAdd total e.2.canonicalBytes with - | total'
      · have := checkedAdd_eq_none.mp hadd
        show (none : Option Nat) = some n ↔ _
        simp only [reduceCtorEq, false_iff]
        omega
      · obtain ⟨rfl, hlt⟩ := checkedAdd_eq_some.mp hadd
        show entries.foldlM _ _ = some n ↔ _
        rw [ih hlt, Nat.add_assoc]

theorem pendingBytesOf_eq_ok {pending : ExtTreeMap Nat (PendingSlot canon)} {n : Nat} :
    pendingBytesOf pending = .ok n ↔
      weight PendingSlot.canonicalBytes pending = n ∧ n < 2 ^ 64 := by
  rw [pendingBytesOf, expect_eq_ok, foldlM_checkedAdd_eq_some (Nat.two_pow_pos 64), Nat.zero_add]
  rfl

/-- The part of a pending map that a barrier keeps. -/
theorem getElem?_splitOff_snd {β : Type*} {m : ExtTreeMap Nat β} {next k : Nat} :
    (splitOff m next).2[k]? = if k < next then none else m[k]? := by
  by_cases hk : k < next
  · simp [splitOff, hk]
  · rw [splitOff, ExtTreeMap.getElem?_filter', if_neg hk]
    cases m[k]? with
    | none => rfl
    | some slot => simp [hk]

theorem getElem?_splitPending {cursor k : Nat} :
    (s.splitPending cursor).2[k]? =
      if k ≤ cursor ∨ u64Max ≤ cursor then none else s.pending[k]? := by
  unfold splitPending
  rcases hadd : checkedAdd cursor 1 with - | bound
  · have hmax := checkedAdd_eq_none.mp hadd
    rw [if_pos (.inr (by unfold u64Max; omega))]
    exact ExtTreeMap.getElem?_empty
  · obtain ⟨rfl, hlt⟩ := checkedAdd_eq_some.mp hadd
    show (splitOff s.pending (cursor + 1)).2[k]? = _
    rw [getElem?_splitOff_snd]
    exact if_congr (by unfold u64Max; omega) rfl rfl

/-- Nothing is lost between the two parts. -/
theorem weight_splitPending (s : StreamState canon) (cursor : Nat) :
    weight PendingSlot.canonicalBytes (s.splitPending cursor).1 +
      weight PendingSlot.canonicalBytes (s.splitPending cursor).2 =
        weight PendingSlot.canonicalBytes s.pending := by
  unfold splitPending
  cases checkedAdd cursor 1 with
  | none =>
      show weight _ s.pending + weight _ ∅ = _
      rw [weight_empty, Nat.add_zero]
  | some next => exact weight_filter_add _ s.pending _

/-- A barrier drops what it passes, forgets the window, lifts the ceilings
below it and restores authority. -/
theorem commitBarrier_ok {cursor : Nat} (h : s.commitBarrier cursor = .ok s') :
    (∃ pending bytes, s' = { s with
      pending := pending
      pendingBytes := bytes
      recent := ∅
      baselineUnknown := false
      viewAuthoritative := true
      equivocationCeiling := dropBelow s.equivocationCeiling cursor s.equivocationCeiling
      unavailableFloor := dropBelow s.unavailableCeiling cursor s.unavailableFloor
      unavailableCeiling := dropBelow s.unavailableCeiling cursor s.unavailableCeiling
      poisonCeiling := mergeCeilings
        (dropBelow s.equivocationCeiling cursor s.equivocationCeiling)
        (dropBelow s.unavailableCeiling cursor s.unavailableCeiling) }) ∧
    (∀ k, s'.pending[k]? = if k ≤ cursor ∨ u64Max ≤ cursor then none else s.pending[k]?) ∧
    (s.Accounted → s'.Accounted) := by
  obtain ⟨discarded, hdiscarded, h⟩ := bind_eq_ok.mp h
  obtain ⟨bytes, hbytes, h⟩ := bind_eq_ok.mp h
  obtain ⟨hweight, -⟩ := pendingBytesOf_eq_ok.mp hdiscarded
  obtain ⟨-, rfl⟩ := checkedSub_eq_some.mp (expect_eq_ok.mp hbytes)
  obtain rfl := pure_eq_ok.mp h
  refine ⟨⟨_, _, rfl⟩, fun k => getElem?_splitPending, fun hacc => ?_⟩
  show s.pendingBytes - discarded = weight _ (s.splitPending cursor).2
  rw [hacc, ← weight_splitPending s cursor, ← hweight]
  exact Nat.add_sub_cancel_left ..

/-! ### The whole application -/

/-- The plan that `apply_source` commits. -/
def planFor (s : StreamState canon) (source : PreparedEnvelope canon) (barrier : Bool) :
    Except Failure ApplicationPlan := do
  let start ← applicationStart source barrier
  s.applicationPlan source start (if barrier then true else s.viewAuthoritative) barrier

/-- The state `s'` that applying `source` leaves, after draining `sources`. -/
structure Application (s : StreamState canon) (source : PreparedEnvelope canon) (barrier : Bool)
    (sources : List (PreparedEnvelope canon)) (cache : CacheTransaction)
    (s' : StreamState canon) : Prop where
  drained : s.Drained (s.supersedes source.cursor barrier) source.cursor sources
  cache_ok : ∃ start first, (if barrier then source.firstClear = some start else start = 0) ∧
    (CacheTransaction.new s.view).apply (source.mutations.drop start) s.limits = .ok first ∧
    applyAll s.limits first sources = .ok cache
  plan_ok : ∃ plan, s.planFor source barrier = .ok plan ∧
    plan.applied = ⟨source.cursor, source.fingerprint⟩ :: factsFrom (source.cursor + 1) sources
  session : s'.session = s.session
  limits : s'.limits = s.limits
  streamId : s'.streamId = s.streamId
  initialCursor : s'.initialCursor = s.initialCursor
  failed : s'.failed = s.failed
  certainty : s'.certainty = s'.certaintyOf
  frontier : s'.frontier = some (source.cursor + sources.length)
  baselineUnknown : s'.baselineUnknown = if barrier then false else s.baselineUnknown
  viewAuthoritative : s'.viewAuthoritative = if barrier then true else s.viewAuthoritative
  poisonCeiling : s'.poisonCeiling = if barrier then
    mergeCeilings s'.equivocationCeiling s'.unavailableCeiling else s.poisonCeiling
  equivocationCeiling : s'.equivocationCeiling = if barrier then
    dropBelow s.equivocationCeiling source.cursor s.equivocationCeiling
    else s.equivocationCeiling
  unavailableFloor : s'.unavailableFloor = if barrier then
    dropBelow s.unavailableCeiling source.cursor s.unavailableFloor else s.unavailableFloor
  unavailableCeiling : s'.unavailableCeiling = if barrier then
    dropBelow s.unavailableCeiling source.cursor s.unavailableCeiling else s.unavailableCeiling
  view : s'.view = cache.finish.commit s.view
  pending : ∀ k, s'.pending[k]? =
    if (source.cursor < k ∧ k ≤ source.cursor + sources.length) ∨
      (barrier = true ∧ (k ≤ source.cursor ∨ u64Max ≤ source.cursor)) then none
    else s.pending[k]?
  accounted : s.Accounted → s'.Accounted
  recent : s'.recent = retainAll s.limits.maxRecentFingerprintsPerStream.toNat
    (if barrier then ∅ else s.recent)
    (⟨source.cursor, source.fingerprint⟩ :: factsFrom (source.cursor + 1) sources)
  diagnostics : s'.diagnostics = Diagnostics.addMissingRemoves
    (if barrier then true else s.viewAuthoritative) cache.missingRemoves
    s.limits.maxDiagnosticCount.toNat s.diagnostics

theorem sliceFrom_eq_ok {mutations rest : List Mutation} {start : Nat} :
    sliceFrom mutations start = .ok rest ↔
      start ≤ mutations.length ∧ mutations.drop start = rest := by
  unfold sliceFrom
  split <;> simp [*]

theorem applicationPlan_ok {start : Nat} {authoritative barrier : Bool} {plan : ApplicationPlan}
    (h : s.applicationPlan e start authoritative barrier = .ok plan) :
    ∃ sources first cache, s.Drained (s.supersedes e.cursor barrier) e.cursor sources ∧
      (CacheTransaction.new s.view).apply (e.mutations.drop start) s.limits = .ok first ∧
      applyAll s.limits first sources = .ok cache ∧
      plan = {
        missingRemoves := cache.missingRemoves
        cache := cache.finish
        missingRemovesAreExact := authoritative
        applied := ⟨e.cursor, e.fingerprint⟩ :: factsFrom (e.cursor + 1) sources } := by
  have hlt := e.cursor_lt
  obtain ⟨mutations, hslice, h⟩ := bind_eq_ok.mp h
  obtain ⟨first, hfirst, h⟩ := bind_eq_ok.mp h
  obtain ⟨⟨cache, applied⟩, hdrain, h⟩ := bind_eq_ok.mp h
  obtain ⟨-, rfl⟩ := sliceFrom_eq_ok.mp hslice
  rw [mapError_eq_ok] at hfirst hdrain
  obtain ⟨sources, hdrained, rfl, hcache⟩ := drain_ok (by unfold u64Max; omega) hdrain
  exact ⟨sources, first, cache, hdrained, hfirst, hcache, (pure_eq_ok.mp h).symm⟩

/-- Folding a delivery is an `Application`. -/
theorem applySource_ok {barrier : Bool} (h : s.applySource e barrier = .ok (d, s')) :
    d = (if barrier then .barrierApplied else .applied) ∧
      ∃ sources cache, s.Application e barrier sources cache s' := by
  obtain ⟨start, hstart, h⟩ := bind_eq_ok.mp h
  obtain ⟨plan, hplan, h⟩ := bind_eq_ok.mp h
  obtain ⟨s₅, hcommit, h⟩ := bind_eq_ok.mp h
  obtain ⟨rfl, rfl⟩ : (if barrier then Disposition.barrierApplied else .applied) = d ∧ s₅ = s' := by
    simpa using pure_eq_ok.mp h
  have hplanned : ∃ plan', s.planFor e barrier = .ok plan' ∧ plan'.applied = plan.applied :=
    ⟨plan, bind_eq_ok.mpr ⟨start, hstart, hplan⟩, rfl⟩
  obtain ⟨sources, first, cache, hdrained, hfirst, hcache, hplan⟩ := applicationPlan_ok hplan
  obtain ⟨s₁, hbarrier, hcommit⟩ := bind_eq_ok.mp hcommit
  obtain ⟨s₃, hfacts, hcommit⟩ := bind_eq_ok.mp hcommit
  obtain ⟨⟨bytes, hs₃⟩, hacc₃⟩ := commitApplied_ok (by rw [hplan]) hfacts
  obtain rfl := pure_eq_ok.mp hcommit
  refine ⟨rfl, sources, cache, ?_⟩
  cases barrier with
  | true =>
      obtain ⟨⟨pending, bytes₁, hs₁⟩, hpending, hacc₁⟩ := commitBarrier_ok hbarrier
      have hkeep : s₃.pending = eraseAll s₁.pending (factsFrom (e.cursor + 1) sources) := by
        rw [hs₃]
      subst hs₃ hs₁ hplan
      refine
        { drained := hdrained
          plan_ok := hplanned
          cache_ok := ⟨start, first, expect_eq_ok.mp hstart, hfirst, hcache⟩
          pending := fun k => ?_
          accounted := fun hacc => hacc₃ (hacc₁ hacc)
          session := rfl, limits := rfl, streamId := rfl, initialCursor := rfl, failed := rfl
          certainty := rfl, frontier := rfl, baselineUnknown := rfl, viewAuthoritative := rfl
          poisonCeiling := rfl, equivocationCeiling := rfl, unavailableFloor := rfl
          unavailableCeiling := rfl, view := rfl, recent := rfl, diagnostics := rfl }
      show (eraseAll pending (factsFrom (e.cursor + 1) sources))[k]? = _
      rw [getElem?_eraseAll, hpending]
      by_cases hk : e.cursor < k ∧ k ≤ e.cursor + sources.length
      · rw [if_pos hk, if_pos (.inl hk)]
      · rw [if_neg hk]
        exact if_congr (by simp [hk]) rfl rfl
  | false =>
      obtain rfl := Except.ok.inj hbarrier
      subst hs₃ hplan
      refine
        { drained := hdrained
          plan_ok := hplanned
          cache_ok := ⟨start, first, (Except.ok.inj hstart).symm, hfirst, hcache⟩
          pending := fun k => ?_
          accounted := hacc₃
          session := rfl, limits := rfl, streamId := rfl, initialCursor := rfl, failed := rfl
          certainty := rfl, frontier := rfl, baselineUnknown := rfl, viewAuthoritative := rfl
          poisonCeiling := rfl, equivocationCeiling := rfl, unavailableFloor := rfl
          unavailableCeiling := rfl, view := rfl, recent := rfl, diagnostics := rfl }
      show (eraseAll s.pending (factsFrom (e.cursor + 1) sources))[k]? = _
      rw [getElem?_eraseAll]
      exact if_congr (by simp) rfl rfl

/-! ### What an application leaves behind -/

/-- Fold the mutation lists of payloads, in order, into a set of keys. -/
def foldSources (sources : List (PreparedEnvelope canon)) (keys : Finset CacheKey) :
    Finset CacheKey :=
  sources.foldl (fun keys source => runMutations source.mutations keys) keys

theorem applyAll_ok {limits : Limits} {base : CacheView} {sources : List (PreparedEnvelope canon)}
    {first cache : CacheTransaction} {keys : Finset CacheKey}
    (hfirst : first.Projects limits base keys) (h : applyAll limits first sources = .ok cache) :
    cache.Projects limits base (foldSources sources keys) := by
  have hstep : ∀ source ∈ sources, ∀ {u u' : CacheTransaction} {ks : Finset CacheKey},
      u.Projects limits base ks → u.apply source.mutations limits = .ok u' →
      u'.Projects limits base (runMutations source.mutations ks) :=
    fun source _ _ _ _ hu hs => CacheTransaction.apply_ok hu hs
  exact foldlM_simulation hstep hfirst h

namespace Application

variable {barrier : Bool} {sources : List (PreparedEnvelope canon)} {cache : CacheTransaction}

theorem next_eq (h : s.Application e barrier sources cache s') :
    s'.next = e.cursor + sources.length + 1 :=
  next_of_some h.frontier

/-- The view of a committed application is the old view with the payloads of
the delivery and of the drained candidates folded in. -/
theorem view_ok (h : s.Application e barrier sources cache s') (hview : s.view.Bounded s.limits) :
    s'.view.keys = foldSources (e :: sources) s.view.keys ∧ s'.view.Bounded s.limits := by
  obtain ⟨start, first, hstart, hfirst, hcache⟩ := h.cache_ok
  have hnew := CacheTransaction.projects_new hview
  have hrun : runMutations (e.mutations.drop start) s.view.keys =
      runMutations e.mutations s.view.keys := by
    cases barrier with
    | true => exact runMutations_drop_clear (e.firstClear_eq ▸ hstart) _ _
    | false =>
        obtain rfl : start = 0 := hstart
        rw [List.drop_zero]
  have hproj := applyAll_ok (CacheTransaction.apply_ok hnew hfirst) hcache
  rw [hrun] at hproj
  rw [h.view]
  exact CacheTransaction.commit_ok hproj

/-- A barrier's payload erases whatever the view held. -/
theorem reset (h : s.Application e true sources cache s') (keys keys' : Finset CacheKey) :
    runMutations e.mutations keys = runMutations e.mutations keys' := by
  obtain ⟨start, first, hstart, -⟩ := h.cache_ok
  exact runMutations_reset (e.firstClear_eq ▸ hstart) keys keys'

theorem scope (h : s.Application e barrier sources cache s') : s'.view.scope = s.view.scope := by
  rw [h.view, CacheTransaction.commit_scope]

end Application

theorem mem_factsFrom {sources : List (PreparedEnvelope canon)} {fact : AppliedFact} :
    ∀ {cursor : Nat}, fact ∈ factsFrom cursor sources ↔
      ∃ k, ∃ hk : k < sources.length, fact = ⟨cursor + k, sources[k].fingerprint⟩ := by
  induction sources with
  | nil =>
      intro cursor
      simp [factsFrom]
  | cons source sources ih =>
      intro cursor
      rw [factsFrom, List.mem_cons, ih]
      constructor
      · rintro (rfl | ⟨k, hk, rfl⟩)
        · exact ⟨0, by simp, rfl⟩
        · exact ⟨k + 1, by simpa using hk, by simp; omega⟩
      · rintro ⟨k, hk, rfl⟩
        cases k with
        | zero => exact .inl rfl
        | succ k => exact .inr ⟨k, by simpa using hk, by simp; omega⟩

theorem getElem?_retain {limit : Nat} {recent : ExtTreeMap Nat RecentSlot} {fact : AppliedFact}
    {k : Nat} {slot : RecentSlot} (h : (retain limit recent fact)[k]? = some slot) :
    (fact.cursor = k ∧ slot = .candidate fact.fingerprint) ∨ recent[k]? = some slot := by
  have hins := getElem?_dropTo h
  rw [ExtTreeMap.getElem?_insert] at hins
  by_cases hk : compare fact.cursor k = .eq
  · rw [if_pos hk] at hins
    exact .inl ⟨Nat.compare_eq_eq.mp hk, (Option.some.inj hins).symm⟩
  · rw [if_neg hk] at hins
    exact .inr hins

/-- Whatever the window retains was there before or was just applied. -/
theorem getElem?_retainAll {limit : Nat} {facts : List AppliedFact} :
    ∀ {recent : ExtTreeMap Nat RecentSlot} {k : Nat} {slot : RecentSlot},
      (retainAll limit recent facts)[k]? = some slot →
      (∃ fact ∈ facts, fact.cursor = k ∧ slot = .candidate fact.fingerprint) ∨
        recent[k]? = some slot := by
  induction facts with
  | nil =>
      intro recent k slot h
      exact .inr h
  | cons fact facts ih =>
      intro recent k slot h
      have h' : (retainAll limit (retain limit recent fact) facts)[k]? = some slot := h
      rcases ih h' with ⟨f, hf, hk⟩ | h
      · exact .inl ⟨f, List.mem_cons_of_mem _ hf, hk⟩
      · rcases getElem?_retain h with hk | h
        · exact .inl ⟨fact, List.mem_cons_self, hk⟩
        · exact .inr h

theorem size_retain (limit : Nat) (recent : ExtTreeMap Nat RecentSlot) (fact : AppliedFact) :
    (retain limit recent fact).size ≤ limit := by
  rw [retain, size_dropTo limit (Nat.le_refl _)]
  exact Nat.min_le_left _ _

theorem size_retainAll {limit : Nat} {facts : List AppliedFact} :
    ∀ {recent : ExtTreeMap Nat RecentSlot}, facts ≠ [] →
      (retainAll limit recent facts).size ≤ limit := by
  induction facts with
  | nil =>
      intro recent h
      exact absurd rfl h
  | cons fact facts ih =>
      intro recent _
      cases facts with
      | nil => exact size_retain limit recent fact
      | cons fact' facts => exact ih (by simp)

end StreamState

end KvCrucible
