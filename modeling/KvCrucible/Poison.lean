/-
KvCrucible/Poison.lean

Poison: the dispositions that make a stream unknown, and what leaves that
state again.

`Step.effect` reads off a step what it does to the ceilings.  `Poisoned`
ties the two ceilings to the history: each is the cursor of an earlier
poisoned delivery, and every such delivery lies behind the frontier or below
its ceiling.  So the one barrier that lifts both ceilings is the clear above
all poison.
-/
import KvCrucible.History
import KvCrucible.StateSafety

namespace KvCrucible

open Basis Std

variable {canon : Canonical}

/-- The dispositions that discard a delivery ahead of the frontier. -/
def Disposition.Discards (d : Disposition) : Prop :=
  d = .pendingLimit ∨ d = .gapLimit ∨ d = .unverifiableGap

/-- The dispositions that poison a stream. -/
def Disposition.Poisons (d : Disposition) : Prop := d = .equivocation ∨ d.Discards

instance (d : Disposition) : Decidable d.Discards := inferInstanceAs (Decidable (_ ∨ _))

instance (d : Disposition) : Decidable d.Poisons := inferInstanceAs (Decidable (_ ∨ _))

namespace StreamState

variable {s s' : StreamState canon} {e : PreparedEnvelope canon} {d : Disposition}
  {history : History canon}

/-! ### What a step does to the ceilings -/

/-- The ceilings and the floor stay where they are. -/
structure SameCeilings (s s' : StreamState canon) : Prop where
  equivocation : s'.equivocationCeiling = s.equivocationCeiling
  floor : s'.unavailableFloor = s.unavailableFloor
  ceiling : s'.unavailableCeiling = s.unavailableCeiling

/-- A step keeps the ceilings, notes an equivocation, discards its delivery,
or folds it. -/
inductive Effect (s : StreamState canon) (e : PreparedEnvelope canon) (d : Disposition)
    (s' : StreamState canon) : Prop
  | keeps (hd : ¬ d.Poisons ∧ d ≠ .barrierApplied) (hquiet : s.Quiet s') (hsame : s.SameCeilings s')
  | equivocates (hd : d = .equivocation) (hquiet : s.Quiet s')
      (hequivocation : s'.equivocationCeiling =
        some (s.equivocationCeiling.elim e.cursor (max · e.cursor)))
      (hfloor : s'.unavailableFloor = s.unavailableFloor)
      (hceiling : s'.unavailableCeiling = s.unavailableCeiling)
  | discards (hd : d.Discards) (hquiet : s.Quiet s') (hnext : s.next ≤ e.cursor)
      (hequivocation : s'.equivocationCeiling = s.equivocationCeiling)
      (hfloor : s'.unavailableFloor = some (s.unavailableFloor.elim e.cursor (min · e.cursor)))
      (hceiling : s'.unavailableCeiling =
        some (s.unavailableCeiling.elim e.cursor (max · e.cursor)))
  | folds (barrier : Bool) (sources : List (PreparedEnvelope canon)) (cache : CacheTransaction)
      (hd : d = if barrier then .barrierApplied else .applied)
      (hreaches : Invariant.Reaches s e barrier)
      (happ : s.Application e barrier sources cache s')

theorem Effect.equivocation_noted {s₀ : StreamState canon} {invalidatesView : Bool}
    (hquiet : s.Quiet s₀) (hsame : s.SameCeilings s₀) :
    s.Effect e .equivocation (s₀.noteEquivocation e.cursor invalidatesView) := by
  refine .equivocates rfl (hquiet.trans (.noteEquivocation _ _ _)) ?_ ?_ ?_
  · rw [noteEquivocation_equivocationCeiling, hsame.equivocation]
  · rw [noteEquivocation_unavailableFloor, hsame.floor]
  · rw [noteEquivocation_unavailableCeiling, hsame.ceiling]

theorem Effect.unavailable_noted {bump : Nat → Diagnostics → Diagnostics} (hd : d.Discards)
    (hnext : s.next ≤ e.cursor) : s.Effect e d (s.noteUnavailable bump e.cursor) :=
  .discards hd (.noteUnavailable s bump e.cursor) hnext rfl rfl rfl

theorem Step.effect (h : s.Step e d s') : s.Effect e d s' := by
  cases h with
  | pendingDuplicate hslot hcovers => exact .keeps (by decide) (.tally s _) ⟨rfl, rfl, rfl⟩
  | pastDuplicate hfresh hpast hslot hcovers =>
      exact .keeps (by decide) (.tally s _) ⟨rfl, rfl, rfl⟩
  | staleBarrier hfresh hpast hslot hclear =>
      exact .keeps (by decide) (.tally s _) ⟨rfl, rfl, rfl⟩
  | staleUnverifiable hfresh hpast hslot hclear =>
      exact .keeps (by decide) (.tally s _) ⟨rfl, rfl, rfl⟩
  | buffered hfresh hnext hblocks heligible hanchored hspan hroom =>
      exact .keeps (by decide) ((Quiet.bufferPending s e).trans (.recomputeCertainty _))
        ⟨rfl, rfl, rfl⟩
  | pendingConflict hslot hne hbytes =>
      exact .equivocation_noted (.conflictPending s _ _ _ _) ⟨rfl, rfl, rfl⟩
  | pendingAdditional hslot hfirst hsecond =>
      exact .equivocation_noted ⟨.refl s, rfl, rfl, rfl⟩ ⟨rfl, rfl, rfl⟩
  | pastConflict hfresh hpast hslot hne =>
      exact .equivocation_noted (.conflictRecent s _ _ _) ⟨rfl, rfl, rfl⟩
  | pastAdditional hfresh hpast hslot hfirst hsecond =>
      exact .equivocation_noted ⟨.refl s, rfl, rfl, rfl⟩ ⟨rfl, rfl, rfl⟩
  | unverifiableGap hfresh hnext hblocks => exact .unavailable_noted (by decide) hnext
  | gapLimit hfresh hnext hblocks heligible hanchored hspan =>
      exact .unavailable_noted (by decide) (Nat.le_of_lt hnext)
  | pendingLimit hfresh hnext hblocks heligible hanchored hspan hroom =>
      exact .unavailable_noted (by decide) (Nat.le_of_lt hnext)
  | barrierApplied hfresh hnext hblocks heligible happ =>
      exact .folds true _ _ rfl ⟨hfresh, hnext, hblocks, heligible, nofun⟩ happ
  | applied hfresh hnext hblocks heligible hwhere happ =>
      exact .folds false _ _ rfl ⟨hfresh, hnext, hblocks, heligible, fun _ => hwhere⟩ happ

/-- A fold moves the frontier to its own cursor or beyond. -/
theorem Application.next_lt {barrier : Bool} {sources : List (PreparedEnvelope canon)}
    {cache : CacheTransaction} (happ : s.Application e barrier sources cache s') :
    e.cursor < s'.next := by
  rw [happ.next_eq]
  omega

/-! ### Ceilings and history -/

/-- A cursor behind the frontier or at most at a ceiling. -/
def Covered (next : Nat) (ceiling : Option Nat) (cursor : Nat) : Prop :=
  cursor < next ∨ ∃ hi, ceiling = some hi ∧ cursor ≤ hi

theorem Covered.mono {next next' cursor : Nat} {ceiling : Option Nat}
    (h : Covered next ceiling cursor) (hnext : next ≤ next') : Covered next' ceiling cursor :=
  h.imp_left fun hlt => Nat.lt_of_lt_of_le hlt hnext

theorem Covered.raise {next cursor raised : Nat} {ceiling : Option Nat}
    (h : Covered next ceiling cursor) :
    Covered next (some (ceiling.elim raised (max · raised))) cursor := by
  refine h.imp_right ?_
  rintro ⟨hi, rfl, hle⟩
  exact ⟨max hi raised, rfl, hle.trans (Nat.le_max_left hi raised)⟩

theorem Covered.raise_self {next cursor : Nat} {ceiling : Option Nat} :
    Covered next (some (ceiling.elim cursor (max · cursor))) cursor := by
  refine .inr ⟨_, rfl, ?_⟩
  cases ceiling with
  | none => exact Nat.le_refl _
  | some hi => exact Nat.le_max_right hi cursor

/-- A barrier that drops a ceiling passes everything the ceiling covered. -/
theorem Covered.dropBelow {next next' cursor dropped : Nat} {ceiling : Option Nat}
    (h : Covered next ceiling cursor) (hnext : next ≤ next') (hdropped : dropped < next') :
    Covered next' (dropBelow ceiling dropped ceiling) cursor := by
  rcases h with hlt | ⟨hi, rfl, hle⟩
  · exact .inl (Nat.lt_of_lt_of_le hlt hnext)
  · by_cases hpassed : hi < dropped
    · exact .inl (by omega)
    · refine .inr ⟨hi, dropBelow_eq_some.mpr ⟨rfl, fun hi' heq => ?_⟩, hle⟩
      obtain rfl := Option.some.inj heq
      exact Nat.le_of_not_lt hpassed

/-- A raised ceiling is the old one or the cursor it is raised to. -/
theorem raise_eq {ceiling : Option Nat} {cursor hi : Nat}
    (h : ceiling.elim cursor (max · cursor) = hi) : ceiling = some hi ∨ cursor = hi := by
  cases ceiling with
  | none => exact .inr h
  | some old =>
      have hmax : max old cursor = hi := h
      rcases Nat.le_total cursor old with hle | hle
      · rw [Nat.max_eq_left hle] at hmax
        exact .inl (congrArg some hmax)
      · rw [Nat.max_eq_right hle] at hmax
        exact .inr hmax

/-- One ceiling against the deliveries of a history that raise it: it is one
of their cursors, and covers them all. -/
structure Traces (history : History canon) (raises : Disposition → Prop) (next : Nat)
    (ceiling : Option Nat) : Prop where
  covers : ∀ x ∈ history, raises x.2 → Covered next ceiling x.1.cursor
  attained : ∀ hi, ceiling = some hi → ∃ x ∈ history, raises x.2 ∧ x.1.cursor = hi

namespace Traces

variable {raises : Disposition → Prop} {next next' : Nat} {ceiling : Option Nat}

theorem nil : Traces ([] : History canon) raises next none := ⟨nofun, nofun⟩

/-- A delivery that does not raise the ceiling leaves it where it is. -/
theorem keep (h : Traces history raises next ceiling) (hd : ¬ raises d)
    (hnext : next ≤ next') : Traces (history ++ [(e, d)]) raises next' ceiling where
  covers := fun x hx hraises => by
    rcases List.mem_append.mp hx with hx | hx
    · exact (h.covers x hx hraises).mono hnext
    · rw [List.mem_singleton.mp hx] at hraises
      exact absurd hraises hd
  attained := fun hi hhi => by
    obtain ⟨x, hx, hx'⟩ := h.attained hi hhi
    exact ⟨x, List.mem_append_left _ hx, hx'⟩

theorem raise (h : Traces history raises next ceiling) (hd : raises d) :
    Traces (history ++ [(e, d)]) raises next
      (some (ceiling.elim e.cursor (max · e.cursor))) where
  covers := fun x hx hraises => by
    rcases List.mem_append.mp hx with hx | hx
    · exact (h.covers x hx hraises).raise
    · rw [List.mem_singleton.mp hx]
      exact Covered.raise_self
  attained := fun hi hhi => by
    rcases raise_eq (Option.some.inj hhi) with hold | heq
    · obtain ⟨x, hx, hx'⟩ := h.attained hi hold
      exact ⟨x, List.mem_append_left _ hx, hx'⟩
    · exact ⟨(e, d), List.mem_append_right _ (List.mem_singleton.mpr rfl), hd, heq⟩

/-- A barrier drops the ceiling when it passes it. -/
theorem drop (h : Traces history raises next ceiling) (hd : ¬ raises d)
    (hnext : next ≤ next') (hpassed : e.cursor < next') :
    Traces (history ++ [(e, d)]) raises next' (dropBelow ceiling e.cursor ceiling) where
  covers := fun x hx hraises => by
    rcases List.mem_append.mp hx with hx | hx
    · exact (h.covers x hx hraises).dropBelow hnext hpassed
    · rw [List.mem_singleton.mp hx] at hraises
      exact absurd hraises hd
  attained := fun hi hhi => by
    obtain ⟨x, hx, hx'⟩ := h.attained hi (dropBelow_eq_some.mp hhi).1
    exact ⟨x, List.mem_append_left _ hx, hx'⟩

/-- A cursor at or above `next` lies above all that raised the ceiling exactly
when it lies above the ceiling. -/
theorem above_iff (h : Traces history raises next ceiling) {cursor : Nat} (hnext : next ≤ cursor) :
    (∀ x ∈ history, raises x.2 → x.1.cursor < cursor) ↔
      dropBelow ceiling cursor ceiling = none := by
  rw [Option.eq_none_iff_forall_not_mem]
  constructor
  · intro habove hi hhi
    obtain ⟨hhi, hle⟩ := dropBelow_eq_some.mp hhi
    obtain ⟨x, hx, hraises, rfl⟩ := h.attained hi hhi
    have := habove x hx hraises
    have := hle _ hhi
    omega
  · intro hdrop x hx hraises
    rcases h.covers x hx hraises with hlt | ⟨hi, hhi, hle⟩
    · exact Nat.lt_of_lt_of_le hlt hnext
    · refine Nat.lt_of_le_of_lt hle (Nat.lt_of_not_le fun hcon => ?_)
      refine hdrop hi (dropBelow_eq_some.mpr ⟨hhi, fun hi' hhi' => ?_⟩)
      obtain rfl := Option.some.inj (hhi.symm.trans hhi')
      exact hcon

end Traces

/-- Both ceilings against the history. -/
structure Poisoned (history : History canon) (s : StreamState canon) : Prop where
  equivocation : Traces history (· = .equivocation) s.next s.equivocationCeiling
  unavailable : Traces history Disposition.Discards s.next s.unavailableCeiling

theorem Poisoned.step (hp : Poisoned history s) (h : s.Step e d s') :
    Poisoned (history ++ [(e, d)]) s' := by
  rcases h.effect with ⟨hd, hquiet, hsame⟩ | ⟨hd, hquiet, heq, -, hceil⟩ |
    ⟨hd, hquiet, -, heq, -, hceil⟩ | ⟨barrier, sources, cache, hd, hreaches, happ⟩
  · obtain ⟨hequivocation, hdiscards⟩ := not_or.mp hd.1
    have hnext := hquiet.next_eq.ge
    refine ⟨?_, ?_⟩
    · rw [hsame.equivocation]
      exact hp.equivocation.keep hequivocation hnext
    · rw [hsame.ceiling]
      exact hp.unavailable.keep hdiscards hnext
  · subst hd
    refine ⟨?_, ?_⟩
    · rw [hquiet.next_eq, heq]
      exact hp.equivocation.raise rfl
    · rw [hceil]
      exact hp.unavailable.keep (by decide) hquiet.next_eq.ge
  · refine ⟨?_, ?_⟩
    · rw [heq]
      refine hp.equivocation.keep ?_ hquiet.next_eq.ge
      rintro rfl
      exact absurd hd (by decide)
    · rw [hquiet.next_eq, hceil]
      exact hp.unavailable.raise hd
  · have hpassed := happ.next_lt
    have hnext : s.next ≤ s'.next := hreaches.next_le.trans (Nat.le_of_lt hpassed)
    refine ⟨?_, ?_⟩
    · rw [happ.equivocationCeiling, hd]
      cases barrier with
      | true => exact hp.equivocation.drop (by decide) hnext hpassed
      | false => exact hp.equivocation.keep (by decide) hnext
    · rw [happ.unavailableCeiling, hd]
      cases barrier with
      | true => exact hp.unavailable.drop (by decide) hnext hpassed
      | false => exact hp.unavailable.keep (by decide) hnext

variable {blueprint : StreamBlueprint}

theorem poisoned_run (hr : RunFrom (fromBlueprint blueprint) history s) :
    s.Invariant ∧ Poisoned history s := by
  refine Run.invariant (fun history (s : StreamState canon) => s.Invariant ∧ Poisoned history s)
    ⟨invariant_fromBlueprint blueprint, .nil, .nil⟩ ?_ hr
  rintro history s e d s' - ⟨hs, hp⟩ h
  exact ⟨hs.step (Admits.step h), hp.step (Admits.step h)⟩

/-! ### Leaving `unknown` -/

/-- A clear ahead of the frontier and above every poisoned delivery, at a
cursor where nothing is pending. -/
structure ClearAbovePoison (history : History canon) (s : StreamState canon)
    (e : PreparedEnvelope canon) : Prop where
  hasClear : e.hasClear = true
  above_frontier : ∀ f, s.frontier = some f → f < e.cursor
  fresh : s.pending[e.cursor]? = none
  above_poison : ∀ x ∈ history, x.2.Poisons → x.1.cursor < e.cursor

/-- A poisoning step leaves a state unknown. -/
theorem unknown_of_poisons (hs : s.Invariant) (h : s.Step e d s') (hd : d.Poisons) :
    s'.certainty = .unknown := by
  rw [(hs.step h).unknown_iff]
  rcases h.effect with ⟨hd', -, -⟩ | ⟨-, -, heq, -, -⟩ | ⟨-, -, -, -, -, hceil⟩ |
    ⟨barrier, -, -, rfl, -, -⟩
  · exact absurd hd hd'.1
  · rw [heq]
    exact .inr (.inl rfl)
  · rw [hceil]
    exact .inr (.inr rfl)
  · cases barrier <;> exact absurd hd (by decide)

/-- Only a barrier leaves `unknown`. -/
theorem barrier_of_known (hs : s.Invariant) (hu : s.certainty = .unknown) (h : s.Step e d s')
    (hk : s'.certainty ≠ .unknown) : ∃ sources cache, d = .barrierApplied ∧
      Invariant.Reaches s e true ∧ s.Application e true sources cache s' := by
  rw [hs.unknown_iff] at hu
  rcases h.effect with ⟨-, hquiet, hsame⟩ | ⟨hd, -⟩ | ⟨hd, -⟩ |
    ⟨barrier, sources, cache, hd, hreaches, happ⟩
  · refine absurd ?_ hk
    rw [(hs.step h).unknown_iff, hquiet.baselineUnknown, hsame.equivocation, hsame.ceiling]
    exact hu
  · exact absurd (unknown_of_poisons hs h (.inl hd)) hk
  · exact absurd (unknown_of_poisons hs h (.inr hd)) hk
  · cases barrier with
    | true => exact ⟨sources, cache, hd, hreaches, happ⟩
    | false =>
        refine absurd ?_ hk
        rw [(hs.step h).unknown_iff, happ.baselineUnknown, happ.equivocationCeiling,
          happ.unavailableCeiling]
        exact hu

/-- After a barrier the certainty is known exactly when the barrier passed
every poisoned delivery. -/
theorem known_iff_of_barrier (hs : s.Invariant) (hp : Poisoned history s) (h : s.Step e d s')
    {sources : List (PreparedEnvelope canon)} {cache : CacheTransaction}
    (hnext : s.next ≤ e.cursor) (happ : s.Application e true sources cache s') :
    s'.certainty ≠ .unknown ↔ ∀ x ∈ history, x.2.Poisons → x.1.cursor < e.cursor := by
  have hequiv := hp.equivocation.above_iff hnext
  have hunavail := hp.unavailable.above_iff hnext
  rw [Ne, (hs.step h).unknown_iff, happ.baselineUnknown, happ.equivocationCeiling,
    happ.unavailableCeiling]
  simp only [if_true, Bool.false_eq_true, false_or, not_or, Bool.not_eq_true,
    Option.isSome_eq_false_iff, Option.isNone_iff_eq_none]
  rw [← hequiv, ← hunavail]
  constructor
  · rintro ⟨hfst, hsnd⟩ x hx (hx' | hx')
    · exact hfst x hx hx'
    · exact hsnd x hx hx'
  · intro habove
    exact ⟨fun x hx hx' => habove x hx (.inl hx'), fun x hx hx' => habove x hx (.inr hx')⟩

theorem next_le_of_above (haccepts : s.Accepts e)
    (habove : ∀ f, s.frontier = some f → f < e.cursor) :
    s.next ≤ e.cursor := by
  cases hf : s.frontier with
  | none =>
      rw [next_of_none hf]
      exact haccepts.initialCursor
  | some f =>
      rw [next_of_some hf]
      exact habove f hf

theorem above_of_next_le {cursor f : Nat} (h : s.next ≤ cursor) (hf : s.frontier = some f) :
    f < cursor := by
  rw [next_of_some hf] at h
  exact h

/-- From an unknown state a clear above all poison is applied as a barrier. -/
theorem barrier_of_clear (hs : s.Invariant) (hp : Poisoned history s)
    (hu : s.certainty = .unknown) (hclear : ClearAbovePoison history s e) (haccepts : s.Accepts e)
    (h : s.Step e d s') : ∃ sources cache, s.Application e true sources cache s' := by
  have hnext := next_le_of_above haccepts hclear.above_frontier
  have heligible : ¬ s.eligibleBarrier e = false := by
    rw [Bool.not_eq_false, eligibleBarrier_iff haccepts.initialCursor hnext, hu]
    exact ⟨hclear.hasClear, nofun⟩
  have hfresh := hclear.fresh
  cases h with
  | pendingDuplicate hslot hcovers => rw [hfresh] at hslot; cases hslot
  | pendingConflict hslot hne hbytes => rw [hfresh] at hslot; cases hslot
  | pendingAdditional hslot hfirst hsecond => rw [hfresh] at hslot; cases hslot
  | pastDuplicate _ hpast hslot hcovers => omega
  | pastConflict _ hpast hslot hne => omega
  | pastAdditional _ hpast hslot hfirst hsecond => omega
  | staleBarrier _ hpast hslot _ => omega
  | staleUnverifiable _ hpast hslot _ => omega
  | barrierApplied _ _ hblocks _ happ => exact ⟨_, _, happ⟩
  | applied _ _ hblocks hnot hwhere happ => exact absurd hnot heligible
  | gapLimit _ _ hblocks hnot hanchored hspan => exact absurd hnot heligible
  | pendingLimit _ _ hblocks hnot hanchored hspan hroom => exact absurd hnot heligible
  | buffered _ _ hblocks hnot hanchored hspan hroom => exact absurd hnot heligible
  | unverifiableGap _ _ hblocks =>
      -- the horizon's ceiling is itself a poisoned cursor, so the clear is above it
      obtain ⟨lo, hlo, -, hle⟩ := unavailableBlocks_iff.mp hblocks
      have hsome := hs.toCore.floor_isSome
      rw [hlo, Option.isSome_some] at hsome
      obtain ⟨hi, hhi⟩ := Option.isSome_iff_exists.mp hsome.symm
      obtain ⟨x, hx, hdiscards, rfl⟩ := hp.unavailable.attained hi hhi
      have := hclear.above_poison x hx (.inr hdiscards)
      have := hle hclear.hasClear _ hhi
      omega

/-- An unknown certainty is left exactly by a clear above all poison, which is
applied as a barrier and restores authority; a poisoned delivery leaves the
certainty unknown. -/
theorem unknown_left_by_clear_above_poison (hr : RunFrom (fromBlueprint blueprint) history s)
    (h : s.Admits e d s') :
    (s.certainty = .unknown →
      ((s'.certainty = .exact ∨ s'.certainty = .recovering) ↔ ClearAbovePoison history s e) ∧
      (s'.certainty = .exact ∨ s'.certainty = .recovering →
        d = .barrierApplied ∧ s'.viewAuthoritative = true)) ∧
    (d.Poisons → s'.certainty = .unknown) := by
  obtain ⟨hs, hp⟩ := poisoned_run hr
  have hstep := Admits.step h
  have hknown : (s'.certainty = .exact ∨ s'.certainty = .recovering) ↔ s'.certainty ≠ .unknown := by
    cases s'.certainty <;> decide
  rw [hknown]
  refine ⟨fun hu => ⟨⟨fun hk => ?_, fun hclear => ?_⟩, fun hk => ?_⟩, unknown_of_poisons hs hstep⟩
  · obtain ⟨sources, cache, -, hreaches, happ⟩ := barrier_of_known hs hu hstep hk
    have heligible := hreaches.eligible
    rw [eligibleBarrier_iff (Admits.accepts h).initialCursor hreaches.next_le] at heligible
    exact ⟨heligible.1, fun f hf => above_of_next_le hreaches.next_le hf, hreaches.fresh,
      (known_iff_of_barrier hs hp hstep hreaches.next_le happ).mp hk⟩
  · obtain ⟨sources, cache, happ⟩ := barrier_of_clear hs hp hu hclear (Admits.accepts h) hstep
    have hnext := next_le_of_above (Admits.accepts h) hclear.above_frontier
    exact (known_iff_of_barrier hs hp hstep hnext happ).mpr hclear.above_poison
  · obtain ⟨sources, cache, hd, -, happ⟩ := barrier_of_known hs hu hstep hk
    exact ⟨hd, happ.viewAuthoritative⟩

/-- A clear above the one discarded delivery. -/
theorem unknown_left_by_anchor :
    (Sample.deliver (Sample.fresh Sample.tight) [Sample.early]).certainty = .unknown ∧
      (Sample.deliver (Sample.fresh Sample.tight) [Sample.early, Sample.anchor]).certainty =
        .exact ∧
      ClearAbovePoison [(Sample.early, .pendingLimit)]
        (Sample.deliver (Sample.fresh Sample.tight) [Sample.early]) Sample.anchor := by
  have hunknown : (Sample.deliver (Sample.fresh Sample.tight) [Sample.early]).certainty =
      .unknown := by decide +kernel
  have hexact : (Sample.deliver (Sample.fresh Sample.tight)
      [Sample.early, Sample.anchor]).certainty = .exact := by decide +kernel
  have h := unknown_left_by_clear_above_poison Sample.discarding_run Sample.anchor_admitted
  exact ⟨hunknown, hexact, (h.1 hunknown).1.mp (.inl hexact)⟩

end StreamState

end KvCrucible
