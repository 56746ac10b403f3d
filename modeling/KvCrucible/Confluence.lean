/-
KvCrucible/Confluence.lean

Order and multiplicity of deliveries do not matter.

As long as no payload contradicts another and no limit discards evidence, a
trusted stream stays calm: no ceiling is ever set and every slot is clean.
Then its next cursor is the `Basis.Frontier` of the delivered cursors and the
delivered clears, what is pending is what was delivered at or above it, and
the view is the engine fold below it.  All three are functions of the set of
delivered facts.
-/
import KvCrucible.StateSafety
import KvCrucible.ViewFold

namespace KvCrucible

open Basis Std

variable {canon : Canonical}

/-- A payload's fingerprint, size and clears are functions of its mutations. -/
theorem PreparedEnvelope.fingerprint_congr {e e' : PreparedEnvelope canon}
    (h : e.mutations = e'.mutations) : e.fingerprint = e'.fingerprint := by
  rw [e.fingerprint_eq, e'.fingerprint_eq, h]

theorem PreparedEnvelope.canonicalBytes_congr {e e' : PreparedEnvelope canon}
    (h : e.mutations = e'.mutations) : e.canonicalBytes = e'.canonicalBytes := by
  rw [e.canonicalBytes_eq, e'.canonicalBytes_eq, h]

theorem PreparedEnvelope.hasClear_congr {e e' : PreparedEnvelope canon}
    (h : e.mutations = e'.mutations) : e.hasClear = e'.hasClear := by
  unfold PreparedEnvelope.hasClear
  rw [e.firstClear_eq, e'.firstClear_eq, h]

/-- A fact was delivered: a mutation list at a cursor. -/
def DeliveredFact (history : History canon) (cursor : Nat) (mutations : List Mutation) : Prop :=
  ∃ x ∈ history, x.1.cursor = cursor ∧ x.1.mutations = mutations

/-- At most one mutation list per cursor. -/
def SingleValued (history : History canon) : Prop :=
  ∀ x ∈ history, ∀ y ∈ history, x.1.cursor = y.1.cursor → x.1.mutations = y.1.mutations

/-- No delivery was discarded at a limit. -/
def Undiscarded (history : History canon) : Prop :=
  ∀ x ∈ history, x.2 ≠ .pendingLimit ∧ x.2 ≠ .gapLimit

theorem SingleValued.of_snoc {history : History canon} {x : PreparedEnvelope canon × Disposition}
    (h : SingleValued (history ++ [x])) : SingleValued history :=
  fun y hy z hz => h y (List.mem_append_left _ hy) z (List.mem_append_left _ hz)

theorem Undiscarded.of_snoc {history : History canon} {x : PreparedEnvelope canon × Disposition}
    (h : Undiscarded (history ++ [x])) : Undiscarded history :=
  fun y hy => h y (List.mem_append_left _ hy)

/-- In a single-valued history the first payload is every payload. -/
theorem SingleValued.first {history : History canon} (h : SingleValued history)
    {x : PreparedEnvelope canon × Disposition} (hx : x ∈ history)
    {source : PreparedEnvelope canon} (hsource : firstAt history x.1.cursor = some source) :
    x.1.mutations = source.mutations := by
  obtain ⟨hcursor, d, hmem⟩ := firstAt_mem hsource
  exact h x hx (source, d) hmem hcursor.symm

namespace StreamState

variable {s s' : StreamState canon} {e : PreparedEnvelope canon} {d : Disposition}
  {history : History canon}

/-- A state without poison or conflict whose next cursor is the frontier of
what was delivered. -/
structure Calm (history : History canon) (s : StreamState canon) : Prop where
  known : s.baselineUnknown = false
  authoritative : s.viewAuthoritative = true
  no_equivocation : s.equivocationCeiling = none
  no_horizon : s.unavailableFloor = none
  pending_clean : ∀ {c : Nat} {first second : SemanticFingerprint},
    s.pending[c]? ≠ some (.conflict first second)
  recent_clean : ∀ {c : Nat} {first second : SemanticFingerprint},
    s.recent[c]? ≠ some (.conflict first second)
  anchor : ∃ a, (a = s.initialCursor ∨ ∃ x ∈ history, x.1.cursor = a ∧ x.1.hasClear = true) ∧
    a ≤ s.next ∧ ∀ c, a ≤ c → c < s.next → firstAt history c ≠ none
  clears_past : ∀ x ∈ history, x.1.hasClear = true → x.1.cursor < s.next

theorem Calm.fresh {blueprint : StreamBlueprint}
    (h : blueprint.registration.authority = .trustDeclaredEmpty) :
    Calm [] (fromBlueprint blueprint : StreamState canon) where
  known := by simp [fromBlueprint, h]
  authoritative := by simp [fromBlueprint, h]
  no_equivocation := rfl
  no_horizon := rfl
  pending_clean := by simp [fromBlueprint]
  recent_clean := by simp [fromBlueprint]
  anchor := ⟨_, .inl rfl, Nat.le_refl _, fun c hle hlt => absurd hle (Nat.not_le_of_lt hlt)⟩
  clears_past := fun x hx => by cases hx

theorem firstAt_snoc_ne_none {c : Nat} (h : firstAt history c ≠ none) :
    firstAt (history ++ [(e, d)]) c ≠ none := by
  obtain ⟨source, hsource⟩ := Option.ne_none_iff_exists'.mp h
  rw [firstAt_snoc_of_some hsource]
  exact Option.some_ne_none source

namespace Calm

/-- A step that keeps frontier, ceilings and slots clean, and whose delivery
is behind the frontier or has no clear. -/
theorem keep (hc : Calm history s) (hquiet : s.Quiet s')
    (hauth : s'.viewAuthoritative = s.viewAuthoritative)
    (hequiv : s'.equivocationCeiling = s.equivocationCeiling)
    (hfloor : s'.unavailableFloor = s.unavailableFloor)
    (hpending : ∀ {c : Nat} {first second : SemanticFingerprint},
      s'.pending[c]? ≠ some (.conflict first second))
    (hrecent : s'.recent = s.recent)
    (hclear : e.hasClear = true → e.cursor < s.next) : Calm (history ++ [(e, d)]) s' where
  known := hquiet.baselineUnknown.trans hc.known
  authoritative := hauth.trans hc.authoritative
  no_equivocation := hequiv.trans hc.no_equivocation
  no_horizon := hfloor.trans hc.no_horizon
  pending_clean := hpending
  recent_clean := by
    rw [hrecent]
    exact hc.recent_clean
  anchor := by
    obtain ⟨a, ha, hle, hdense⟩ := hc.anchor
    rw [hquiet.next_eq, hquiet.initialCursor]
    refine ⟨a, ha.imp_right ?_, hle, fun c hac hlt => firstAt_snoc_ne_none (hdense c hac hlt)⟩
    rintro ⟨x, hx, hxa⟩
    exact ⟨x, List.mem_append_left _ hx, hxa⟩
  clears_past := by
    rw [hquiet.next_eq]
    intro x hx hxc
    rcases List.mem_append.mp hx with hx | hx
    · exact hc.clears_past x hx hxc
    · obtain rfl := List.mem_singleton.mp hx
      exact hclear hxc

/-- Folding a delivery advances the frontier over delivered cursors only, or
jumps to a clear. -/
theorem application {barrier : Bool} {sources : List (PreparedEnvelope canon)}
    {cache : CacheTransaction} (hc : Calm history s) (hs : s.Invariant) (hd : Delivered history s)
    (h : Invariant.Reaches s e barrier) (happ : s.Application e barrier sources cache s') :
    Calm (history ++ [(e, d)]) s' where
  known := by
    rw [happ.baselineUnknown]
    cases barrier with
    | true => rfl
    | false => exact hc.known
  authoritative := by
    rw [happ.viewAuthoritative]
    cases barrier with
    | true => rfl
    | false => exact hc.authoritative
  no_equivocation := by
    rw [happ.equivocationCeiling, hc.no_equivocation]
    cases barrier <;> rfl
  no_horizon := by
    rw [happ.unavailableFloor, hs.horizon_none.mp hc.no_horizon, hc.no_horizon]
    cases barrier <;> rfl
  pending_clean := fun {c first second} => by
    rw [hs.pending_after h happ]
    split
    · exact nofun
    · exact hc.pending_clean
  recent_clean := fun {c first second} hslot => by
    rw [happ.recent] at hslot
    rcases getElem?_retainAll hslot with ⟨fact, -, -, hfact⟩ | hslot
    · cases hfact
    · cases barrier with
      | true => simp at hslot
      | false => exact hc.recent_clean hslot
  anchor := by
    -- the folded cursors were all delivered
    have hfolded : ∀ c, e.cursor ≤ c → c < s'.next → firstAt (history ++ [(e, d)]) c ≠ none := by
      intro c hle hlt
      rw [happ.next_eq] at hlt
      rcases Nat.eq_or_lt_of_le hle with rfl | hgt
      · rw [firstAt_snoc_self (hd.fresh h.fresh h.next_le h.unblocked)]
        exact Option.some_ne_none e
      · obtain ⟨k, rfl⟩ : ∃ k, c = e.cursor + 1 + k := ⟨c - (e.cursor + 1), by omega⟩
        obtain ⟨-, hfirst, -⟩ := hd.drained_first hs happ (show k < sources.length by omega)
        rw [firstAt_snoc_of_some hfirst]
        exact Option.some_ne_none _
    have hnext : e.cursor ≤ s'.next := by
      rw [happ.next_eq]
      omega
    rw [happ.initialCursor]
    cases hb : barrier with
    | true =>
        have hclear := (eligibleBarrier_iff (hs.initialCursor_le.trans h.next_le) h.next_le).mp
          (h.eligible.trans hb)
        exact ⟨e.cursor, .inr ⟨(e, d), by simp, rfl, hclear.1⟩, hnext, hfolded⟩
    | false =>
        obtain ⟨a, ha, hle, hdense⟩ := hc.anchor
        have hcursor : e.cursor = s.next := by
          rcases h.where_ hb with heq | ⟨hunknown, -⟩
          · exact heq
          · rw [hc.known] at hunknown
            cases hunknown
        refine ⟨a, ha.imp_right ?_, by omega, fun c hac hlt => ?_⟩
        · rintro ⟨x, hx, hxa⟩
          exact ⟨x, List.mem_append_left _ hx, hxa⟩
        · by_cases hold : c < s.next
          · exact firstAt_snoc_ne_none (hdense c hac hold)
          · exact hfolded c (by omega) hlt
  clears_past := fun x hx hxc => by
    rw [happ.next_eq]
    rcases List.mem_append.mp hx with hx | hx
    · have := hc.clears_past x hx hxc
      have := h.next_le
      omega
    · obtain rfl := List.mem_singleton.mp hx
      show e.cursor < _
      omega

/-- Without contradicting payloads and discards, every step keeps calm. -/
theorem step (hc : Calm history s) (hs : s.Invariant) (hd : Delivered history s)
    (hone : SingleValued (history ++ [(e, d)])) (hlimit : Undiscarded (history ++ [(e, d)]))
    (h : s.Step e d s') : Calm (history ++ [(e, d)]) s' := by
  have hself : (e, d) ∈ history ++ [(e, d)] := by simp
  -- a delivery at an already delivered cursor repeats the first payload there
  have hsame : ∀ {source : PreparedEnvelope canon}, firstAt history e.cursor = some source →
      e.mutations = source.mutations := fun hsource =>
    hone.first hself (firstAt_snoc_of_some hsource)
  cases h with
  | pendingDuplicate hslot hcovers =>
      rename_i slot
      refine hc.keep (.tally s _) rfl rfl rfl hc.pending_clean rfl fun hclear => ?_
      cases slot with
      | conflict first second => exact absurd hslot hc.pending_clean
      | candidate source =>
          rw [PreparedEnvelope.hasClear_congr (hsame (hd.candidate_first hslot)),
            (hs.candidate hslot).2] at hclear
          cases hclear
  | pendingConflict hslot hne hbytes =>
      refine absurd (PreparedEnvelope.fingerprint_congr ?_).symm hne
      exact hsame (hd.candidate_first hslot)
  | pendingAdditional hslot hfirst hsecond => exact absurd hslot hc.pending_clean
  | pastDuplicate hfresh hpast hslot hcovers =>
      exact hc.keep (.tally s _) rfl rfl rfl hc.pending_clean rfl fun _ => hpast
  | staleBarrier hfresh hpast hslot hclear =>
      exact hc.keep (.tally s _) rfl rfl rfl hc.pending_clean rfl fun _ => hpast
  | staleUnverifiable hfresh hpast hslot hclear =>
      exact hc.keep (.tally s _) rfl rfl rfl hc.pending_clean rfl fun _ => hpast
  | pastConflict hfresh hpast hslot hne =>
      obtain ⟨source, hsource, hfirst⟩ := hd.recent_first hslot
      refine absurd ?_ hne
      rw [PreparedEnvelope.fingerprint_congr (hsame hsource)]
      exact hfirst
  | pastAdditional hfresh hpast hslot hfirst hsecond => exact absurd hslot hc.recent_clean
  | unverifiableGap hfresh hnext hblocks =>
      obtain ⟨lo, hlo, -⟩ := unavailableBlocks_iff.mp hblocks
      rw [hc.no_horizon] at hlo
      cases hlo
  | gapLimit hfresh hnext hblocks heligible hanchored hspan =>
      exact absurd rfl (hlimit _ hself).2
  | pendingLimit hfresh hnext hblocks heligible hanchored hspan hroom =>
      exact absurd rfl (hlimit _ hself).1
  | buffered hfresh hnext hblocks heligible hanchored hspan hroom =>
      have hclear := hs.no_clear_of_not_eligible hnext heligible
      refine hc.keep ((Quiet.bufferPending s e).trans (.recomputeCertainty _)) rfl rfl rfl ?_ rfl ?_
      · intro c first second hslot
        have hslot' : (s.pending.insert e.cursor (.candidate e))[c]? =
            some (.conflict first second) := hslot
        rw [ExtTreeMap.getElem?_insert] at hslot'
        split at hslot'
        · cases hslot'
        · exact hc.pending_clean hslot'
      · intro hclear'
        rw [hclear] at hclear'
        cases hclear'
  | barrierApplied hfresh hnext hblocks heligible happ =>
      exact hc.application hs hd ⟨hfresh, hnext, hblocks, heligible, nofun⟩ happ
  | applied hfresh hnext hblocks heligible hwhere happ =>
      exact hc.application hs hd ⟨hfresh, hnext, hblocks, heligible, fun _ => hwhere⟩ happ

end Calm

variable {blueprint : StreamBlueprint}

theorem calm_run (htrust : blueprint.registration.authority = .trustDeclaredEmpty)
    (hr : RunFrom (fromBlueprint blueprint) history s) (hone : SingleValued history)
    (hlimit : Undiscarded history) : Calm history s := by
  induction hr with
  | nil => exact Calm.fresh htrust
  | snoc hr h ih =>
      obtain ⟨hs, hd⟩ := delivered_run hr
      exact (ih hone.of_snoc hlimit.of_snoc).step hs hd hone hlimit (Admits.step h)

namespace Calm

/-- What is pending is what was delivered at or above the next cursor. -/
theorem pending_iff (hc : Calm history s) (hs : s.Invariant) (hd : Delivered history s) {c : Nat} :
    s.pending[c]? ≠ none ↔ firstAt history c ≠ none ∧ s.next ≤ c := by
  constructor
  · intro hslot
    obtain ⟨slot, hslot'⟩ := Option.ne_none_iff_exists'.mp hslot
    exact ⟨hd.pending_delivered hslot, (hs.pending_next hslot').1⟩
  · rintro ⟨hfirst, hle⟩
    obtain ⟨source, hsource⟩ := Option.ne_none_iff_exists'.mp hfirst
    obtain ⟨hcursor, d, hmem⟩ := firstAt_mem hsource
    rcases hd.placed _ hmem with hpast | hpending | ⟨lo, hi, hlo, -⟩
    · exact absurd hcursor (by have : source.cursor < s.next := hpast; omega)
    · rwa [← hcursor]
    · rw [hc.no_horizon] at hlo
      cases hlo

/-- The next cursor is the frontier of the delivered cursors and clears. -/
theorem frontier (hc : Calm history s) (hs : s.Invariant) (hd : Delivered history s) :
    Frontier s.initialCursor (fun c => firstAt history c ≠ none)
      (fun c => ∃ x ∈ history, x.1.cursor = c ∧ x.1.hasClear = true) s.next where
  init_le := hs.initialCursor_le
  not_delivered := fun hfirst => by
    obtain ⟨slot, hslot⟩ :=
      Option.ne_none_iff_exists'.mp ((hc.pending_iff hs hd).mpr ⟨hfirst, Nat.le_refl _⟩)
    cases slot with
    | conflict first second => exact hc.pending_clean hslot
    | candidate source =>
        obtain ⟨lo, hlo, -⟩ := floorReached_iff.mp (hs.pending_blocked hslot)
        rw [hc.no_horizon] at hlo
        cases hlo
  resets_past := by
    rintro r ⟨x, hx, rfl, hclear⟩
    exact hc.clears_past x hx hclear
  anchor := hc.anchor

/-- A calm certainty only says whether something is pending. -/
theorem certainty_eq (hc : Calm history s) (hs : s.Invariant) :
    s.certainty = if s.pending.isEmpty then .exact else .recovering := by
  refine hs.known fun hunknown => ?_
  rcases hs.unknown_iff.mp hunknown with hb | he | hu
  · rw [hc.known] at hb
    cases hb
  · rw [hc.no_equivocation] at he
    cases he
  · rw [hs.horizon_none.mp hc.no_horizon] at hu
    cases hu

end Calm

/-- The frontier is determined by the next cursor. -/
theorem frontier_eq_of_next (hs : s.Invariant) :
    s.frontier = if s.next = s.initialCursor then none else some (s.next - 1) := by
  cases hf : s.frontier with
  | none => rw [next_of_none hf, if_pos rfl]
  | some f =>
      have := hs.frontier_ge hf
      rw [next_of_some hf, if_neg (by omega), Nat.add_sub_cancel]

/-- What two runs of a stream are compared on. -/
structure SameOutcome (s₁ s₂ : StreamState canon) : Prop where
  frontier : s₁.frontier = s₂.frontier
  view : s₁.view = s₂.view
  pending : ∀ c, c ∈ s₁.pending ↔ c ∈ s₂.pending
  pendingBytes : s₁.pendingBytes = s₂.pendingBytes
  viewAuthoritative : s₁.viewAuthoritative = s₂.viewAuthoritative
  reasons : s₁.unknownReasons = s₂.unknownReasons
  certainty : s₁.certainty = s₂.certainty

section TwoRuns

variable {s₁ s₂ : StreamState canon} {h₁ h₂ : History canon}

/-- A fact of one history is the first payload at its cursor in another
single-valued history with the same facts. -/
theorem first_of_same_facts (hone : SingleValued h₁)
    (hsame : ∀ c m, DeliveredFact h₁ c m ↔ DeliveredFact h₂ c m) {c : Nat}
    {source₂ : PreparedEnvelope canon} (h : firstAt h₂ c = some source₂) :
    ∃ source₁, firstAt h₁ c = some source₁ ∧ source₁.mutations = source₂.mutations := by
  obtain ⟨hcursor, d, hmem⟩ := firstAt_mem h
  obtain ⟨x, hx, hxc, hxm⟩ := (hsame c source₂.mutations).mpr ⟨_, hmem, hcursor, rfl⟩
  cases hfirst : firstAt h₁ c with
  | none => exact absurd hxc (firstAt_eq_none.mp hfirst x hx)
  | some source₁ =>
      subst hxc
      exact ⟨source₁, rfl, (hone.first hx hfirst).symm.trans hxm⟩

theorem singleValued_of_same_facts (hone : SingleValued h₁)
    (hsame : ∀ c m, DeliveredFact h₁ c m ↔ DeliveredFact h₂ c m) : SingleValued h₂ := by
  intro x hx y hy hxy
  obtain ⟨x', hx', hxc, hxm⟩ := (hsame x.1.cursor x.1.mutations).mpr ⟨x, hx, rfl, rfl⟩
  obtain ⟨y', hy', hyc, hym⟩ := (hsame y.1.cursor y.1.mutations).mpr ⟨y, hy, rfl, rfl⟩
  rw [← hxm, ← hym]
  exact hone x' hx' y' hy' (by rw [hxc, hyc, hxy])

variable (hs₁ : s₁.Invariant) (hs₂ : s₂.Invariant) (hd₁ : Delivered h₁ s₁)
  (hd₂ : Delivered h₂ s₂) (hc₁ : Calm h₁ s₁) (hc₂ : Calm h₂ s₂) (hone : SingleValued h₁)
  (hsame : ∀ c m, DeliveredFact h₁ c m ↔ DeliveredFact h₂ c m)

include hsame in
/-- The delivered cursors are the same. -/
theorem delivered_cursors (c : Nat) : firstAt h₁ c ≠ none ↔ firstAt h₂ c ≠ none := by
  have hiff : ∀ h : History canon, firstAt h c ≠ none ↔ ∃ m, DeliveredFact h c m := by
    intro h
    rw [Ne, firstAt_eq_none]
    constructor
    · intro hne
      simp only [not_forall, not_not] at hne
      obtain ⟨x, hx, hxc⟩ := hne
      exact ⟨x.1.mutations, x, hx, hxc, rfl⟩
    · rintro ⟨m, x, hx, hxc, -⟩ hne
      exact hne x hx hxc
  rw [hiff, hiff]
  exact exists_congr fun m => hsame c m

include hsame in
/-- The delivered clears are the same. -/
theorem delivered_clears (c : Nat) :
    (∃ x ∈ h₁, x.1.cursor = c ∧ x.1.hasClear = true) ↔
      ∃ x ∈ h₂, x.1.cursor = c ∧ x.1.hasClear = true := by
  have hhalf : ∀ {h h' : History canon}, (∀ c m, DeliveredFact h c m → DeliveredFact h' c m) →
      (∃ x ∈ h, x.1.cursor = c ∧ x.1.hasClear = true) →
      ∃ x ∈ h', x.1.cursor = c ∧ x.1.hasClear = true := by
    rintro h h' hsub ⟨x, hx, hxc, hclear⟩
    obtain ⟨y, hy, hyc, hym⟩ := hsub c x.1.mutations ⟨x, hx, hxc, rfl⟩
    exact ⟨y, hy, hyc, by rwa [PreparedEnvelope.hasClear_congr hym]⟩
  exact ⟨hhalf fun c m => (hsame c m).mp, hhalf fun c m => (hsame c m).mpr⟩

include hs₁ hs₂ hd₁ hd₂ hc₁ hc₂ hsame in
theorem next_eq_of_same_facts (hinit : s₁.initialCursor = s₂.initialCursor) :
    s₁.next = s₂.next := by
  have hf₂ := hc₂.frontier hs₂ hd₂
  have hS : (fun c => firstAt h₂ c ≠ none) = fun c => firstAt h₁ c ≠ none := by
    funext c
    exact propext (delivered_cursors hsame c).symm
  have hR : (fun c => ∃ x ∈ h₂, x.1.cursor = c ∧ x.1.hasClear = true) =
      fun c => ∃ x ∈ h₁, x.1.cursor = c ∧ x.1.hasClear = true := by
    funext c
    exact propext (delivered_clears hsame c).symm
  rw [hS, hR, ← hinit] at hf₂
  exact (hc₁.frontier hs₁ hd₁).unique hf₂

include hs₁ hs₂ hd₁ hd₂ hc₁ hc₂ hone hsame in
/-- The pending maps agree up to what a payload's mutations determine. -/
theorem pending_eq_of_same_facts (hnext : s₁.next = s₂.next) (c : Nat) :
    s₁.pending[c]?.map PendingSlot.canonicalBytes =
      s₂.pending[c]?.map PendingSlot.canonicalBytes := by
  have hiff : s₁.pending[c]? ≠ none ↔ s₂.pending[c]? ≠ none := by
    rw [hc₁.pending_iff hs₁ hd₁, hc₂.pending_iff hs₂ hd₂, delivered_cursors hsame, hnext]
  cases hp₁ : s₁.pending[c]? with
  | none =>
      cases hp₂ : s₂.pending[c]? with
      | none => rfl
      | some slot₂ => exact absurd hp₁ (hiff.mpr (by rw [hp₂]; exact Option.some_ne_none _))
  | some slot₁ =>
      cases hp₂ : s₂.pending[c]? with
      | none => exact absurd hp₂ (hiff.mp (by rw [hp₁]; exact Option.some_ne_none _))
      | some slot₂ =>
          cases slot₁ with
          | conflict f g => exact absurd hp₁ hc₁.pending_clean
          | candidate source₁ =>
              cases slot₂ with
              | conflict f g => exact absurd hp₂ hc₂.pending_clean
              | candidate source₂ =>
                  obtain ⟨source, hsource, hm⟩ :=
                    first_of_same_facts hone hsame (hd₂.candidate_first hp₂)
                  obtain rfl := Option.some.inj ((hd₁.candidate_first hp₁).symm.trans hsource)
                  show some source₁.canonicalBytes = some source₂.canonicalBytes
                  rw [PreparedEnvelope.canonicalBytes_congr hm]

end TwoRuns

/-- Two runs of a trusted stream that deliver the same facts, one mutation
list per cursor, and discard nothing end in the same outcome; over a dense
range of cursors that outcome is exact with nothing pending. -/
theorem outcome_of_delivered_facts {s₁ s₂ : StreamState canon} {h₁ h₂ : History canon}
    (htrust : blueprint.registration.authority = .trustDeclaredEmpty)
    (hr₁ : RunFrom (fromBlueprint blueprint) h₁ s₁) (hr₂ : RunFrom (fromBlueprint blueprint) h₂ s₂)
    (hsame : ∀ c m, DeliveredFact h₁ c m ↔ DeliveredFact h₂ c m) (hone : SingleValued h₁)
    (hlimit₁ : Undiscarded h₁) (hlimit₂ : Undiscarded h₂) :
    SameOutcome s₁ s₂ ∧
      ∀ m, blueprint.registration.initialCursor ≤ m →
        (∀ c, (∃ mutations, DeliveredFact h₁ c mutations) ↔
          blueprint.registration.initialCursor ≤ c ∧ c ≤ m) →
        s₁.certainty = .exact ∧ s₁.frontier = some m ∧ s₁.pending.size = 0 := by
  obtain ⟨hs₁, hd₁⟩ := delivered_run hr₁
  obtain ⟨hs₂, hd₂⟩ := delivered_run hr₂
  have hone₂ := singleValued_of_same_facts hone hsame
  have hc₁ := calm_run htrust hr₁ hone hlimit₁
  have hc₂ := calm_run htrust hr₂ hone₂ hlimit₂
  have hinit₁ : s₁.initialCursor = blueprint.registration.initialCursor :=
    (same_run hr₁).initialCursor
  have hinit₂ : s₂.initialCursor = blueprint.registration.initialCursor :=
    (same_run hr₂).initialCursor
  have hinit : s₁.initialCursor = s₂.initialCursor := hinit₁.trans hinit₂.symm
  have hnext := next_eq_of_same_facts hs₁ hs₂ hd₁ hd₂ hc₁ hc₂ hsame hinit
  have hfrontier : s₁.frontier = s₂.frontier := by
    rw [frontier_eq_of_next hs₁, frontier_eq_of_next hs₂, hnext, hinit]
  have hmap := pending_eq_of_same_facts hs₁ hs₂ hd₁ hd₂ hc₁ hc₂ hone hsame hnext
  have hmem : ∀ c, c ∈ s₁.pending ↔ c ∈ s₂.pending := by
    intro c
    have h := congrArg Option.isSome (hmap c)
    rw [Option.isSome_map, Option.isSome_map] at h
    rw [ExtTreeMap.mem_iff_isSome_getElem?, ExtTreeMap.mem_iff_isSome_getElem?, h]
  have hempty : s₁.pending.isEmpty = s₂.pending.isEmpty := by
    rw [Bool.eq_iff_iff, ExtTreeMap.isEmpty_iff, ExtTreeMap.isEmpty_iff,
      ExtTreeMap.eq_empty_iff_forall_not_mem, ExtTreeMap.eq_empty_iff_forall_not_mem]
    exact forall_congr' fun c => not_congr (hmem c)
  refine ⟨⟨hfrontier, ?_, hmem, ?_, ?_, ?_, ?_⟩, ?_⟩
  · -- both views fold the same assignment through the same frontier
    let P : Nat → List Mutation := fun c => (firstAt h₁ c).elim [] fun source => source.mutations
    have hP₁ : Agrees P h₁ := by
      intro c source hsource
      show (firstAt h₁ c).elim [] _ = _
      rw [hsource]
      rfl
    have hP₂ : Agrees P h₂ := by
      intro c source₂ hsource₂
      obtain ⟨source₁, hsource₁, hm⟩ := first_of_same_facts hone hsame hsource₂
      rw [hP₁ c source₁ hsource₁, hm]
    exact view_congr hr₁ hr₂ hP₁ hP₂ hc₁.known hc₂.known hfrontier
  · rw [hs₁.accounted, hs₂.accounted]
    exact weight_congr hmap
  · rw [hc₁.authoritative, hc₂.authoritative]
  · unfold unknownReasons
    rw [hc₁.known, hc₂.known, hc₁.no_equivocation, hc₂.no_equivocation, hc₁.no_horizon,
      hc₂.no_horizon]
  · rw [hc₁.certainty_eq hs₁, hc₂.certainty_eq hs₂, hempty]
  · intro m hm hdense
    have hdelivered : ∀ c, firstAt h₁ c ≠ none ↔ s₁.initialCursor ≤ c ∧ c ≤ m := by
      intro c
      rw [hinit₁, ← hdense c, Ne, firstAt_eq_none]
      constructor
      · intro hne
        simp only [not_forall, not_not] at hne
        obtain ⟨x, hx, hxc⟩ := hne
        exact ⟨x.1.mutations, x, hx, hxc, rfl⟩
      · rintro ⟨mutations, x, hx, hxc, -⟩ hne
        exact hne x hx hxc
    have hclears : ∀ r, (∃ x ∈ h₁, x.1.cursor = r ∧ x.1.hasClear = true) →
        firstAt h₁ r ≠ none := by
      rintro r ⟨x, hx, hxr, -⟩ hnone
      exact firstAt_eq_none.mp hnone x hx hxr
    have hn : s₁.next = m + 1 :=
      (hc₁.frontier hs₁ hd₁).of_interval (hinit₁ ▸ hm) hdelivered hclears
    have hnone : s₁.pending = ∅ := by
      refine ExtTreeMap.ext_getElem? fun c => ?_
      by_contra hslot
      have hslot' : s₁.pending[c]? ≠ none := by simpa using hslot
      obtain ⟨hfirst, hle⟩ := (hc₁.pending_iff hs₁ hd₁).mp hslot'
      have := (hdelivered c).mp hfirst
      omega
    refine ⟨?_, ?_, ?_⟩
    · rw [hc₁.certainty_eq hs₁, hnone]
      rfl
    · rw [frontier_eq_of_next hs₁, hn, if_neg (by omega), Nat.add_sub_cancel]
    · rw [hnone]
      rfl

/-- Two stores in the wrong order, against the same stores in order with a
repetition. -/
theorem outcome_of_swapped_deliveries :
    SameOutcome (Sample.deliver (Sample.fresh .default) [Sample.early, Sample.late])
      (Sample.deliver (Sample.fresh .default) [Sample.late, Sample.early, Sample.late]) := by
  have htrust : (Sample.blueprint .default).registration.authority = .trustDeclaredEmpty := rfl
  refine (outcome_of_delivered_facts htrust Sample.swapped_run Sample.dense_run
    (fun c m => ?_) ?_ ?_ ?_).1
  · simp only [DeliveredFact, List.exists_mem_cons_iff, List.not_mem_nil, false_and, exists_false,
      or_false]
    grind
  · simp [SingleValued, Sample.early, Sample.late, Sample.source]
  · simp [Undiscarded]
  · simp [Undiscarded]

end StreamState

end KvCrucible
