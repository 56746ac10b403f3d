/-
KvCrucible/History.lean

What a state remembers of its delivery history.

`firstAt history c` is the first payload ever delivered at cursor `c`.
`Delivered` says where every delivery went (behind the frontier, into a
pending slot or into the unavailable horizon) and that candidates and
retained fingerprints belong to first payloads.  From it follows the one fact
the later developments rest on: a delivery that is folded or buffered is the
first one at its cursor (`Delivered.fresh`).
-/
import KvCrucible.StateInvariant

namespace KvCrucible

open Basis Std

variable {canon : Canonical}

/-- The deliveries of a run with their dispositions, oldest first. -/
abbrev History (canon : Canonical) := List (PreparedEnvelope canon × Disposition)

/-- The first payload delivered at a cursor. -/
def firstAt (history : History canon) (cursor : Nat) : Option (PreparedEnvelope canon) :=
  (history.map Prod.fst).find? fun e => decide (e.cursor = cursor)

/-- The fingerprint a slot started with. -/
def RecentSlot.first : RecentSlot → SemanticFingerprint
  | .candidate first => first
  | .conflict first _ => first

section First

variable {history : History canon} {cursor : Nat}

theorem firstAt_snoc {e : PreparedEnvelope canon} {d : Disposition} :
    firstAt (history ++ [(e, d)]) cursor =
      (firstAt history cursor).or (if e.cursor = cursor then some e else none) := by
  unfold firstAt
  rw [List.map_append, List.find?_append, List.map_cons, List.map_nil, List.find?_singleton]
  by_cases h : e.cursor = cursor
  · simp [h]
  · simp [h]

theorem firstAt_eq_none : firstAt history cursor = none ↔ ∀ x ∈ history, x.1.cursor ≠ cursor := by
  unfold firstAt
  simp [List.find?_eq_none]

/-- What was first stays first. -/
theorem firstAt_snoc_of_some {e source : PreparedEnvelope canon} {d : Disposition}
    (h : firstAt history cursor = some source) :
    firstAt (history ++ [(e, d)]) cursor = some source := by
  rw [firstAt_snoc, h, Option.some_or]

theorem firstAt_snoc_self {e : PreparedEnvelope canon} {d : Disposition}
    (h : firstAt history e.cursor = none) : firstAt (history ++ [(e, d)]) e.cursor = some e := by
  rw [firstAt_snoc, h, Option.none_or, if_pos rfl]

/-- The first payload at a cursor was delivered there. -/
theorem firstAt_mem {source : PreparedEnvelope canon} (h : firstAt history cursor = some source) :
    source.cursor = cursor ∧ ∃ d, (source, d) ∈ history := by
  have hcursor := List.find?_some h
  obtain ⟨⟨e, d⟩, hmem, rfl⟩ := List.mem_map.mp (List.mem_of_find?_eq_some h)
  exact ⟨by simpa using hcursor, d, hmem⟩

end First

namespace StreamState

variable {s s' : StreamState canon} {e : PreparedEnvelope canon} {d : Disposition}
  {history : History canon}

/-- Where the deliveries of `history` are in `s`. -/
structure Delivered (history : History canon) (s : StreamState canon) : Prop where
  placed : ∀ x ∈ history, x.1.cursor < s.next ∨ s.pending[x.1.cursor]? ≠ none ∨
    ∃ lo hi, s.unavailableFloor = some lo ∧ s.unavailableCeiling = some hi ∧
      lo ≤ x.1.cursor ∧ x.1.cursor ≤ hi
  candidate_first : ∀ {c : Nat} {source : PreparedEnvelope canon},
    s.pending[c]? = some (.candidate source) → firstAt history c = some source
  candidate_agree : ∀ {c : Nat} {source : PreparedEnvelope canon},
    s.pending[c]? = some (.candidate source) →
      ∀ x ∈ history, x.1.cursor = c → x.1.fingerprint = source.fingerprint
  pending_delivered : ∀ {c : Nat}, s.pending[c]? ≠ none → firstAt history c ≠ none
  recent_first : ∀ {c : Nat} {slot : RecentSlot}, s.recent[c]? = some slot →
    ∃ source, firstAt history c = some source ∧ slot.first = source.fingerprint

theorem Delivered.nil (blueprint : StreamBlueprint) :
    Delivered [] (fromBlueprint blueprint : StreamState canon) where
  placed := fun x hx => by cases hx
  candidate_first := fun h => by simp [fromBlueprint] at h
  candidate_agree := fun h => by simp [fromBlueprint] at h
  pending_delivered := fun h => by simp [fromBlueprint] at h
  recent_first := fun h => by simp [fromBlueprint] at h

namespace Delivered

/-- A delivery that is neither pending nor past nor blocked is the first one
at its cursor. -/
theorem fresh (hd : Delivered history s) (hfresh : s.pending[e.cursor]? = none)
    (hnext : s.next ≤ e.cursor) (hblocks : s.unavailableBlocks e = false) :
    firstAt history e.cursor = none := by
  rw [firstAt_eq_none]
  intro x hx heq
  have hplaced := hd.placed x hx
  rw [heq] at hplaced
  rcases hplaced with hpast | hpending | ⟨lo, hi, hlo, hhi, hle, hge⟩
  · omega
  · exact hpending hfresh
  · have hnot : ¬ s.unavailableBlocks e = true := by simp [hblocks]
    refine hnot (unavailableBlocks_iff.mpr ⟨lo, hlo, hle, fun _ hi' hhi' => ?_⟩)
    obtain rfl := Option.some.inj (hhi.symm.trans hhi')
    exact hge

/-- A step that keeps the pending map, the window, the frontier and the
horizon only has to place its own delivery. -/
theorem keep (hd : Delivered history s) (hpending : s'.pending = s.pending)
    (hrecent : s'.recent = s.recent) (hnext : s'.next = s.next)
    (hfloor : s'.unavailableFloor = s.unavailableFloor)
    (hceiling : s'.unavailableCeiling = s.unavailableCeiling)
    (hplaced : e.cursor < s.next ∨ s.pending[e.cursor]? ≠ none)
    (hagree : ∀ {source : PreparedEnvelope canon},
      s.pending[e.cursor]? = some (.candidate source) → e.fingerprint = source.fingerprint) :
    Delivered (history ++ [(e, d)]) s' where
  placed := by
    rw [hpending, hnext, hfloor, hceiling]
    intro x hx
    rcases List.mem_append.mp hx with hx | hx
    · exact hd.placed x hx
    · obtain rfl := List.mem_singleton.mp hx
      exact hplaced.imp_right Or.inl
  candidate_first := fun h => by
    rw [hpending] at h
    exact firstAt_snoc_of_some (hd.candidate_first h)
  candidate_agree := fun h x hx hc => by
    rw [hpending] at h
    rcases List.mem_append.mp hx with hx | hx
    · exact hd.candidate_agree h x hx hc
    · obtain rfl := List.mem_singleton.mp hx
      subst hc
      exact hagree h
  pending_delivered := fun {c} h => by
    rw [hpending] at h
    obtain ⟨source, hsource⟩ := Option.ne_none_iff_exists'.mp (hd.pending_delivered h)
    rw [firstAt_snoc_of_some hsource]
    exact Option.some_ne_none source
  recent_first := fun h => by
    rw [hrecent] at h
    obtain ⟨source, hfirst, hslot⟩ := hd.recent_first h
    exact ⟨source, firstAt_snoc_of_some hfirst, hslot⟩

/-- Turning a pending slot into a conflict slot. -/
theorem conflictPending (hd : Delivered history s) {first second : SemanticFingerprint}
    {pendingBytes : Nat} (hslot : s.pending[e.cursor]? ≠ none) :
    Delivered history (s.conflictPending e.cursor first second pendingBytes) := by
  have hget : ∀ c, (s.conflictPending e.cursor first second pendingBytes).pending[c]? =
      if e.cursor = c then some (.conflict first second) else s.pending[c]? := by
    intro c
    show (s.pending.insert e.cursor _)[c]? = _
    rw [ExtTreeMap.getElem?_insert]
    exact if_congr Nat.compare_eq_eq rfl rfl
  have hcand : ∀ {c : Nat} {source : PreparedEnvelope canon},
      (s.conflictPending e.cursor first second pendingBytes).pending[c]? =
        some (.candidate source) → s.pending[c]? = some (.candidate source) := by
    intro c source h
    rw [hget] at h
    split at h
    · cases h
    · exact h
  exact { hd with
    placed := fun x hx => by
      rcases hd.placed x hx with hpast | hpending | hhorizon
      · exact .inl hpast
      · refine .inr (.inl ?_)
        rw [hget]
        split
        · exact Option.some_ne_none _
        · exact hpending
      · exact .inr (.inr hhorizon)
    candidate_first := fun h => hd.candidate_first (hcand h)
    candidate_agree := fun h => hd.candidate_agree (hcand h)
    pending_delivered := fun {c} h => by
      rw [hget] at h
      split at h
      · rename_i heq
        subst heq
        exact hd.pending_delivered hslot
      · exact hd.pending_delivered h }

/-- Turning a retained fingerprint into a conflict slot keeps the first. -/
theorem conflictRecent (hd : Delivered history s) {cursor : Nat}
    {first second : SemanticFingerprint} (hslot : s.recent[cursor]? = some (.candidate first)) :
    Delivered history (s.conflictRecent cursor first second) :=
  { hd with
    recent_first := fun {c slot} h => by
      have h' : (s.recent.insert cursor (.conflict first second))[c]? = some slot := h
      rw [ExtTreeMap.getElem?_insert] at h'
      by_cases hc : compare cursor c = .eq
      · obtain rfl := Nat.compare_eq_eq.mp hc
        rw [if_pos hc] at h'
        obtain rfl := Option.some.inj h'
        obtain ⟨source, hsource, hfirst⟩ := hd.recent_first hslot
        exact ⟨source, hsource, hfirst⟩
      · rw [if_neg hc] at h'
        exact hd.recent_first h' }

/-- Widening the horizon to the discarded delivery. -/
theorem noteUnavailable (hd : Delivered history s) {bump : Nat → Diagnostics → Diagnostics}
    (hs : s.Core) (hfresh : s.pending[e.cursor]? = none) :
    Delivered (history ++ [(e, d)]) (s.noteUnavailable bump e.cursor) where
  placed := by
    have hfloor : ∀ lo, s.unavailableFloor = some lo →
        (s.noteUnavailable bump e.cursor).unavailableFloor = some (min lo e.cursor) := by
      intro lo hlo
      show some (s.unavailableFloor.elim e.cursor (min · e.cursor)) = _
      rw [hlo]
      rfl
    have hceil : ∀ hi, s.unavailableCeiling = some hi →
        (s.noteUnavailable bump e.cursor).unavailableCeiling = some (max hi e.cursor) := by
      intro hi hhi
      show some (s.unavailableCeiling.elim e.cursor (max · e.cursor)) = _
      rw [hhi]
      rfl
    intro x hx
    rcases List.mem_append.mp hx with hx | hx
    · rcases hd.placed x hx with hpast | hpending | ⟨lo, hi, hlo, hhi, hle, hge⟩
      · exact .inl hpast
      · exact .inr (.inl hpending)
      · refine .inr (.inr ⟨_, _, hfloor lo hlo, hceil hi hhi, ?_, ?_⟩)
        · exact (Nat.min_le_left _ _).trans hle
        · exact hge.trans (Nat.le_max_left _ _)
    · obtain rfl := List.mem_singleton.mp hx
      refine .inr (.inr ?_)
      cases hlo : s.unavailableFloor with
      | none =>
          have hhi := hs.horizon_none.mp hlo
          refine ⟨e.cursor, e.cursor, ?_, ?_, Nat.le_refl _, Nat.le_refl _⟩
          · show some (s.unavailableFloor.elim e.cursor (min · e.cursor)) = _
            rw [hlo]
            rfl
          · show some (s.unavailableCeiling.elim e.cursor (max · e.cursor)) = _
            rw [hhi]
            rfl
      | some lo =>
          cases hhi : s.unavailableCeiling with
          | none =>
              rw [hs.horizon_none.mpr hhi] at hlo
              cases hlo
          | some hi =>
              exact ⟨_, _, hfloor lo hlo, hceil hi hhi, Nat.min_le_right _ _,
                Nat.le_max_right _ _⟩
  candidate_first := fun h => firstAt_snoc_of_some (hd.candidate_first h)
  candidate_agree := fun {c source} h x hx hc => by
    rcases List.mem_append.mp hx with hx | hx
    · exact hd.candidate_agree h x hx hc
    · obtain rfl := List.mem_singleton.mp hx
      have h' : s.pending[c]? = some (.candidate source) := h
      rw [← hc] at h'
      rw [hfresh] at h'
      cases h'
  pending_delivered := fun {c} h => by
    obtain ⟨source, hsource⟩ := Option.ne_none_iff_exists'.mp (hd.pending_delivered h)
    rw [firstAt_snoc_of_some hsource]
    exact Option.some_ne_none source
  recent_first := fun h => by
    obtain ⟨source, hfirst, hslot⟩ := hd.recent_first h
    exact ⟨source, firstAt_snoc_of_some hfirst, hslot⟩

/-- Retaining a first delivery behind a gap. -/
theorem bufferPending (hd : Delivered history s) (hfirst : firstAt history e.cursor = none) :
    Delivered (history ++ [(e, d)]) (s.bufferPending e).recomputeCertainty := by
  have hget : ∀ c, (s.bufferPending e).recomputeCertainty.pending[c]? =
      if e.cursor = c then some (.candidate e) else s.pending[c]? := by
    intro c
    show (s.pending.insert e.cursor _)[c]? = _
    rw [ExtTreeMap.getElem?_insert]
    exact if_congr Nat.compare_eq_eq rfl rfl
  have hcand : ∀ {c : Nat} {source : PreparedEnvelope canon},
      (s.bufferPending e).recomputeCertainty.pending[c]? = some (.candidate source) →
        (e.cursor = c ∧ source = e) ∨ (e.cursor ≠ c ∧ s.pending[c]? = some (.candidate source)) := by
    intro c source h
    rw [hget] at h
    split at h
    · rename_i heq
      exact .inl ⟨heq, (PendingSlot.candidate.inj (Option.some.inj h)).symm⟩
    · rename_i hne
      exact .inr ⟨hne, h⟩
  refine ⟨?_, ?_, ?_, ?_, ?_⟩
  · intro x hx
    rw [hget]
    rcases List.mem_append.mp hx with hx | hx
    · rcases hd.placed x hx with hpast | hpending | hhorizon
      · exact .inl hpast
      · refine .inr (.inl ?_)
        split
        · exact Option.some_ne_none _
        · exact hpending
      · exact .inr (.inr hhorizon)
    · obtain rfl := List.mem_singleton.mp hx
      refine .inr (.inl ?_)
      rw [if_pos rfl]
      exact Option.some_ne_none _
  · intro c source h
    rcases hcand h with ⟨rfl, rfl⟩ | ⟨-, h⟩
    · exact firstAt_snoc_self hfirst
    · exact firstAt_snoc_of_some (hd.candidate_first h)
  · intro c source h x hx hc
    rcases hcand h with ⟨rfl, rfl⟩ | ⟨hne, h⟩
    · rcases List.mem_append.mp hx with hx | hx
      · exact absurd hc (firstAt_eq_none.mp hfirst x hx)
      · obtain rfl := List.mem_singleton.mp hx
        rfl
    · rcases List.mem_append.mp hx with hx | hx
      · exact hd.candidate_agree h x hx hc
      · obtain rfl := List.mem_singleton.mp hx
        exact absurd hc hne
  · intro c h
    rw [hget] at h
    split at h
    · rename_i heq
      subst heq
      rw [firstAt_snoc_self hfirst]
      exact Option.some_ne_none _
    · obtain ⟨source, hsource⟩ := Option.ne_none_iff_exists'.mp (hd.pending_delivered h)
      rw [firstAt_snoc_of_some hsource]
      exact Option.some_ne_none source
  · intro c slot h
    obtain ⟨source, hsource, hslot⟩ := hd.recent_first h
    exact ⟨source, firstAt_snoc_of_some hsource, hslot⟩

section Application

variable {barrier : Bool} {sources : List (PreparedEnvelope canon)} {cache : CacheTransaction}
  (hd : Delivered history s) (hs : s.Invariant) (h : Invariant.Reaches s e barrier)
  (happ : s.Application e barrier sources cache s')

include hd hs h happ

omit h in
/-- A drained candidate is the first payload at its cursor, and every
delivery there agrees with it. -/
theorem drained_first {k : Nat} (hk : k < sources.length) :
    sources[k].cursor = e.cursor + 1 + k ∧
      firstAt history (e.cursor + 1 + k) = some sources[k] ∧
      ∀ x ∈ history, x.1.cursor = e.cursor + 1 + k → x.1.fingerprint = sources[k].fingerprint :=
  have hslot := happ.drained.pending k hk
  ⟨(hs.candidate hslot).1, hd.candidate_first hslot, hd.candidate_agree hslot⟩

/-- Folding a delivery and what it drains. -/
theorem application : Delivered (history ++ [(e, d)]) s' where
  placed := by
    have hpast : ∀ c, c ≤ e.cursor → c < s'.next := by
      intro c hc
      rw [happ.next_eq]
      omega
    intro x hx
    rcases List.mem_append.mp hx with hx | hx
    · rcases hd.placed x hx with hold | hpending | ⟨lo, hi, hlo, hhi, hle, hge⟩
      · exact .inl (hpast _ (by have := h.next_le; omega))
      · by_cases hc : x.1.cursor < s'.next
        · exact .inl hc
        · refine .inr (.inl ?_)
          rwa [hs.pending_after h happ, if_neg hc]
      · by_cases hsuper : barrier = true ∧ hi < e.cursor
        · exact .inl (hpast _ (by omega))
        · -- the horizon survives the application
          refine .inr (.inr ⟨lo, hi, ?_, ?_, hle, hge⟩)
          · rw [happ.unavailableFloor]
            cases barrier with
            | false => exact hlo
            | true =>
                refine dropBelow_eq_some.mpr ⟨hlo, fun hi' hhi' => ?_⟩
                obtain rfl := Option.some.inj (hhi.symm.trans hhi')
                exact Nat.le_of_not_lt fun hlt => hsuper ⟨rfl, hlt⟩
          · rw [happ.unavailableCeiling]
            cases barrier with
            | false => exact hhi
            | true =>
                refine dropBelow_eq_some.mpr ⟨hhi, fun hi' hhi' => ?_⟩
                obtain rfl := Option.some.inj (hhi.symm.trans hhi')
                exact Nat.le_of_not_lt fun hlt => hsuper ⟨rfl, hlt⟩
    · obtain rfl := List.mem_singleton.mp hx
      exact .inl (hpast _ (Nat.le_refl _))
  candidate_first := fun {c source} hc => by
    rw [hs.pending_after h happ] at hc
    split at hc
    · cases hc
    · exact firstAt_snoc_of_some (hd.candidate_first hc)
  candidate_agree := fun {c source} hc x hx heq => by
    rw [hs.pending_after h happ] at hc
    split at hc
    · cases hc
    · rename_i hge
      rcases List.mem_append.mp hx with hx | hx
      · exact hd.candidate_agree hc x hx heq
      · obtain rfl := List.mem_singleton.mp hx
        rw [happ.next_eq] at hge
        have heq' : e.cursor = c := heq
        omega
  pending_delivered := fun {c} hc => by
    rw [hs.pending_after h happ] at hc
    split at hc
    · exact absurd rfl hc
    · obtain ⟨source, hsource⟩ := Option.ne_none_iff_exists'.mp (hd.pending_delivered hc)
      rw [firstAt_snoc_of_some hsource]
      exact Option.some_ne_none source
  recent_first := fun {c slot} hc => by
    rw [happ.recent] at hc
    rcases getElem?_retainAll hc with ⟨fact, hfact, rfl, rfl⟩ | hc
    · rcases List.mem_cons.mp hfact with rfl | hfact
      · exact ⟨e, firstAt_snoc_self (hd.fresh h.fresh h.next_le h.unblocked), rfl⟩
      · obtain ⟨k, hk, rfl⟩ := mem_factsFrom.mp hfact
        obtain ⟨-, hfirst, -⟩ := hd.drained_first hs happ hk
        exact ⟨sources[k], firstAt_snoc_of_some hfirst, rfl⟩
    · cases barrier with
      | true => simp at hc
      | false =>
          obtain ⟨source, hsource, hslot⟩ := hd.recent_first hc
          exact ⟨source, firstAt_snoc_of_some hsource, hslot⟩

end Application

/-- A step places its delivery. -/
theorem step (hd : Delivered history s) (hs : s.Invariant) (h : s.Step e d s') :
    Delivered (history ++ [(e, d)]) s' := by
  have hpast : ∀ {c : Nat} {source : PreparedEnvelope canon}, c < s.next →
      s.pending[c]? = some (.candidate source) → e.fingerprint = source.fingerprint :=
    fun hlt hslot => absurd (hs.pending_next hslot).1 (Nat.not_le_of_lt hlt)
  cases h with
  | pendingDuplicate hslot hcovers =>
      refine hd.keep rfl rfl rfl rfl rfl (.inr (by rw [hslot]; exact Option.some_ne_none _)) ?_
      intro source hsource
      obtain rfl := Option.some.inj (hslot.symm.trans hsource)
      exact hcovers.symm
  | pendingConflict hslot hne hbytes =>
      have hnone : s.pending[e.cursor]? ≠ none := by
        rw [hslot]
        exact Option.some_ne_none _
      have hself : ∀ {f g b}, (s.conflictPending e.cursor f g b).pending[e.cursor]? =
          some (.conflict f g) := ExtTreeMap.getElem?_insert_self
      refine (hd.conflictPending hnone).keep (noteEquivocation_pending _ _ _)
        (noteEquivocation_recent _ _ _) (noteEquivocation_next _ _ _)
        (noteEquivocation_unavailableFloor _ _ _) (noteEquivocation_unavailableCeiling _ _ _)
        (.inr (by rw [hself]; exact Option.some_ne_none _)) ?_
      intro source hsource
      rw [hself] at hsource
      cases hsource
  | pendingAdditional hslot hfirst hsecond =>
      refine hd.keep (by simp) (by simp) (by simp) (by simp) (by simp)
        (.inr (by rw [hslot]; exact Option.some_ne_none _)) ?_
      intro source hsource
      cases hslot.symm.trans hsource
  | pastDuplicate hfresh hlt hslot hcovers =>
      exact hd.keep rfl rfl rfl rfl rfl (.inl hlt) (hpast hlt)
  | staleBarrier hfresh hlt hslot hclear =>
      exact hd.keep rfl rfl rfl rfl rfl (.inl hlt) (hpast hlt)
  | staleUnverifiable hfresh hlt hslot hclear =>
      exact hd.keep rfl rfl rfl rfl rfl (.inl hlt) (hpast hlt)
  | pastConflict hfresh hlt hslot hne =>
      exact (hd.conflictRecent hslot).keep (noteEquivocation_pending _ _ _)
        (noteEquivocation_recent _ _ _) (noteEquivocation_next _ _ _)
        (noteEquivocation_unavailableFloor _ _ _) (noteEquivocation_unavailableCeiling _ _ _)
        (.inl hlt) (hpast hlt)
  | pastAdditional hfresh hlt hslot hfirst hsecond =>
      exact hd.keep (by simp) (by simp) (by simp) (by simp) (by simp) (.inl hlt) (hpast hlt)
  | unverifiableGap hfresh hnext hblocks => exact hd.noteUnavailable hs.toCore hfresh
  | gapLimit hfresh hnext hblocks heligible hanchored hspan =>
      exact hd.noteUnavailable hs.toCore hfresh
  | pendingLimit hfresh hnext hblocks heligible hanchored hspan hroom =>
      exact hd.noteUnavailable hs.toCore hfresh
  | buffered hfresh hnext hblocks heligible hanchored hspan hroom =>
      exact hd.bufferPending (hd.fresh hfresh (Nat.le_of_lt hnext) hblocks)
  | barrierApplied hfresh hnext hblocks heligible happ =>
      exact hd.application hs ⟨hfresh, hnext, hblocks, heligible, fun hb => by cases hb⟩ happ
  | applied hfresh hnext hblocks heligible hwhere happ =>
      exact hd.application hs ⟨hfresh, hnext, hblocks, heligible, fun _ => hwhere⟩ happ

end Delivered

variable {blueprint : StreamBlueprint}

/-- Invariant and history facts hold together along a run. -/
theorem delivered_run (hr : RunFrom (fromBlueprint blueprint) history s) :
    s.Invariant ∧ Delivered history s :=
  Run.invariant (fun history s => s.Invariant ∧ Delivered history s)
    ⟨invariant_fromBlueprint blueprint, Delivered.nil blueprint⟩
    (fun _ hi h => ⟨hi.1.step (Admits.step h), hi.2.step hi.1 (Admits.step h)⟩) hr

end StreamState

end KvCrucible
