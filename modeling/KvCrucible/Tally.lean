/-
KvCrucible/Tally.lean

The diagnostics of a run are the clamped tallies of what it reported.

`DiagnosticCounter` names the counters, so that a record of diagnostics is a
bank of saturating counters.  A log is a history whose entries also carry how
many removes found their key absent and whether the view was authoritative;
`totalOf` adds a log up without any ceiling.  `Step.raises` says which counter
one admission raises, and by how much; along a run the bank clamps the totals.
-/
import KvCrucible.Basis.Saturating
import KvCrucible.Batching
import KvCrucible.History
import KvCrucible.PlainSet

namespace KvCrucible

open Basis Std

variable {canon : Canonical}

/-! ### Counters -/

/-- The counters of `Diagnostics`. -/
inductive DiagnosticCounter where
  | duplicates
  | equivocations
  | staleUnverifiable
  | staleBarriers
  | missingRemovesExact
  | missingRemovesPartial
  | pendingLimits
  | gapLimits
  | unverifiableGaps
  | unclosedGaps
  deriving DecidableEq

namespace Diagnostics

/-- The value of a counter. -/
def get (d : Diagnostics) : DiagnosticCounter → Nat
  | .duplicates => d.duplicates
  | .equivocations => d.equivocations
  | .staleUnverifiable => d.staleUnverifiable
  | .staleBarriers => d.staleBarriers
  | .missingRemovesExact => d.missingRemovesExact
  | .missingRemovesPartial => d.missingRemovesPartial
  | .pendingLimits => d.pendingLimits
  | .gapLimits => d.gapLimits
  | .unverifiableGaps => d.unverifiableGaps
  | .unclosedGaps => d.unclosedGaps

/-- The diagnostics are the totals, clamped at the ceiling. -/
abbrev Tallies (maximum : Nat) (totals : DiagnosticCounter → Nat) (d : Diagnostics) : Prop :=
  Clamps maximum totals d.get d.truncated

/-- A change of the diagnostics that raises one counter by `n`. -/
abbrev RaisesBy (maximum : Nat) (counter : DiagnosticCounter) (n : Nat) (d d' : Diagnostics) :
    Prop :=
  Raises maximum counter n d.get d'.get d.truncated d'.truncated

theorem tallies_default (maximum : Nat) : default.Tallies maximum fun _ => 0 := by
  have hget : default.get = fun _ => 0 := by
    funext counter
    cases counter <;> rfl
  show Clamps maximum (fun _ => 0) default.get false
  rw [hget]
  exact Clamps.zero maximum

variable {maximum : Nat} {d : Diagnostics}

/-- `increment` raises by one and clamps. -/
theorem increment_eq {counter : Nat} (truncated : Bool) (h : counter ≤ maximum) :
    increment counter truncated maximum =
      (min maximum (counter + 1), truncated || decide (maximum < counter + 1)) := by
  unfold increment
  by_cases hfull : counter ≥ maximum
  · obtain rfl : counter = maximum := Nat.le_antisymm h hfull
    simp
  · have hroom : counter + 1 ≤ maximum := by omega
    rw [if_neg hfull, Nat.min_eq_right hroom, decide_eq_false (Nat.not_lt.mpr hroom),
      Bool.or_false]

/-- `add` raises by any number and clamps. -/
theorem add_eq {counter : Nat} (added : Nat) (truncated : Bool) (h : counter ≤ maximum) :
    add counter added truncated maximum =
      (min maximum (counter + added), truncated || decide (maximum < counter + added)) := by
  unfold add
  by_cases hover : added > maximum - counter
  · have hover' : maximum < counter + added := by omega
    simp [hover, hover', Nat.min_eq_left hover'.le]
  · have hroom : counter + added ≤ maximum := by omega
    simp [hover, Nat.min_eq_right hroom, Nat.not_lt.mpr hroom]

/-- The counter that a disposition is counted in. -/
def counterOf : Disposition → Option DiagnosticCounter
  | .applied => none
  | .barrierApplied => none
  | .buffered => none
  | .duplicate => some .duplicates
  | .equivocation => some .equivocations
  | .staleUnverifiable => some .staleUnverifiable
  | .staleBarrier => some .staleBarriers
  | .pendingLimit => some .pendingLimits
  | .gapLimit => some .gapLimits
  | .unverifiableGap => some .unverifiableGaps

/-- How a counter is raised by one. -/
def bumpOf : DiagnosticCounter → Nat → Diagnostics → Diagnostics
  | .duplicates => bumpDuplicate
  | .equivocations => bumpEquivocation
  | .staleUnverifiable => bumpStaleUnverifiable
  | .staleBarriers => bumpStaleBarrier
  | .missingRemovesExact => addMissingRemoves true 1
  | .missingRemovesPartial => addMissingRemoves false 1
  | .pendingLimits => bumpPendingLimit
  | .gapLimits => bumpGapLimit
  | .unverifiableGaps => bumpUnverifiableGap
  | .unclosedGaps => bumpUnclosedGap

/-- The counter of the missing removes. -/
def missingCounter (exact : Bool) : DiagnosticCounter :=
  if exact then .missingRemovesExact else .missingRemovesPartial

theorem raises_addMissingRemoves (exact : Bool) (n : Nat) (hle : ∀ j, d.get j ≤ maximum) :
    RaisesBy maximum (missingCounter exact) n d (addMissingRemoves exact n maximum d) := by
  cases exact with
  | true =>
      have hadd := add_eq n d.truncated (hle .missingRemovesExact)
      exact
        { raised := congrArg Prod.fst hadd
          kept := fun j hj => by cases j <;> first | rfl | exact absurd rfl hj
          flag := congrArg Prod.snd hadd }
  | false =>
      have hadd := add_eq n d.truncated (hle .missingRemovesPartial)
      exact
        { raised := congrArg Prod.fst hadd
          kept := fun j hj => by cases j <;> first | rfl | exact absurd rfl hj
          flag := congrArg Prod.snd hadd }

/-- Every bump raises its counter by one. -/
theorem raises_bumpOf (counter : DiagnosticCounter) (hle : ∀ j, d.get j ≤ maximum) :
    RaisesBy maximum counter 1 d (bumpOf counter maximum d) := by
  have hself := increment_eq d.truncated (hle counter)
  cases counter with
  | missingRemovesExact => exact raises_addMissingRemoves true 1 hle
  | missingRemovesPartial => exact raises_addMissingRemoves false 1 hle
  | _ =>
      exact
        { raised := congrArg Prod.fst hself
          kept := fun j hj => by cases j <;> first | rfl | exact absurd rfl hj
          flag := congrArg Prod.snd hself }

end Diagnostics

open Diagnostics

namespace StreamState

variable {s s' : StreamState canon} {e : PreparedEnvelope canon} {d : Disposition}
  {history : History canon}

/-! ### Missing removes -/

/-- The candidate pending at a cursor. -/
def candidateAt (s : StreamState canon) (cursor : Nat) : Option (PreparedEnvelope canon) :=
  match s.pending[cursor]? with
  | some (.candidate candidate) => some candidate
  | _ => none

/-- The candidates drained behind a delivery: those pending between it and the
frontier it leads to. -/
def drainedBehind (s : StreamState canon) (e : PreparedEnvelope canon) (s' : StreamState canon) :
    List (PreparedEnvelope canon) :=
  (List.range' (e.cursor + 1) (s'.next - (e.cursor + 1))).filterMap s.candidateAt

theorem filterMap_range' {α : Type*} {f : Nat → Option α} {xs : List α} :
    ∀ {cursor : Nat}, (∀ k, ∀ hk : k < xs.length, f (cursor + k) = some xs[k]) →
      (List.range' cursor xs.length).filterMap f = xs := by
  induction xs with
  | nil => exact fun _ => rfl
  | cons x xs ih =>
      intro cursor h
      have hhead : f cursor = some x := h 0 (Nat.succ_pos _)
      have htail : (List.range' (cursor + 1) xs.length).filterMap f = xs := by
        refine ih fun k hk => ?_
        rw [Nat.add_right_comm]
        exact h (k + 1) (Nat.succ_lt_succ hk)
      rw [List.length_cons, List.range'_succ, List.filterMap_cons, hhead, htail]

theorem drainedBehind_application {barrier : Bool} {sources : List (PreparedEnvelope canon)}
    {cache : CacheTransaction} (happ : s.Application e barrier sources cache s') :
    s.drainedBehind e s' = sources := by
  have hcount : s'.next - (e.cursor + 1) = sources.length := by
    rw [next_of_some happ.frontier]
    omega
  rw [drainedBehind, hcount]
  refine filterMap_range' fun k hk => ?_
  rw [candidateAt, happ.drained.pending k hk]

/-- The mutations an admission folds into the view, in order: those of the
delivery, from its first clear on when it is a barrier, and those of the
drained candidates. -/
def mutationsBy (s : StreamState canon) (e : PreparedEnvelope canon) (s' : StreamState canon) :
    Disposition → List Mutation
  | .applied => foldedMutations e false ++
      (s.drainedBehind e s').flatMap fun source => source.mutations
  | .barrierApplied => foldedMutations e true ++
      (s.drainedBehind e s').flatMap fun source => source.mutations
  | _ => []

/-- How many hashes an admission removes that the view, as projected at their
turn, does not hold. -/
def missingBy (s : StreamState canon) (e : PreparedEnvelope canon) (s' : StreamState canon)
    (d : Disposition) : Nat :=
  missesOf (editsOf (s.mutationsBy e s' d)) s.view.keys

theorem missingBy_quiet (happlied : d ≠ .applied) (hbarrier : d ≠ .barrierApplied) :
    s.missingBy e s' d = 0 := by
  cases d with
  | applied => exact absurd rfl happlied
  | barrierApplied => exact absurd rfl hbarrier
  | _ => rfl

theorem applyAll_eq_applyEdits {limits : Limits} {sources : List (PreparedEnvelope canon)}
    (cache : CacheTransaction) : applyAll limits cache sources =
      cache.applyEdits limits (editsOf (sources.flatMap fun source => source.mutations)) := by
  induction sources generalizing cache with
  | nil => rfl
  | cons source sources ih =>
      have hsplit : cache.applyEdits limits
          (editsOf ((source :: sources).flatMap fun source => source.mutations)) =
          (cache.applyEdits limits (editsOf source.mutations) >>= fun cache =>
            cache.applyEdits limits (editsOf (sources.flatMap fun source => source.mutations))) := by
        rw [List.flatMap_cons, editsOf, List.flatMap_append]
        exact List.foldlM_append
      rw [hsplit, CacheTransaction.applyEdits_editsOf]
      simp only [← ih]
      exact List.foldlM_cons

/-- An application counts the missing removes of what it folds. -/
theorem Application.missingRemoves {barrier : Bool} {sources : List (PreparedEnvelope canon)}
    {cache : CacheTransaction} (happ : s.Application e barrier sources cache s')
    (hview : s.view.Bounded s.limits) :
    cache.missingRemoves = s.missingBy e s' (if barrier then .barrierApplied else .applied) := by
  obtain ⟨start, first, hstart, hfirst, hall⟩ := happ.cache_ok
  have hfolded : foldedMutations e barrier = e.mutations.drop start := by
    refine applicationStart_eq ?_
    cases barrier with
    | true => exact expect_eq_ok.mpr hstart
    | false => exact congrArg Except.ok hstart.symm
  have hmutations : s.mutationsBy e s' (if barrier then .barrierApplied else .applied) =
      foldedMutations e barrier ++ sources.flatMap fun source => source.mutations := by
    rw [← drainedBehind_application happ]
    cases barrier <;> rfl
  have hedits : (CacheTransaction.new s.view).applyEdits s.limits
      (editsOf (s.mutationsBy e s' (if barrier then .barrierApplied else .applied))) =
        .ok cache := by
    rw [hmutations, hfolded, editsOf, List.flatMap_append, CacheTransaction.applyEdits,
      List.foldlM_append]
    rw [← CacheTransaction.applyEdits_editsOf] at hfirst
    rw [applyAll_eq_applyEdits] at hall
    exact bind_ok hfirst hall
  have hmirrors := (CacheTransaction.mirrors_new hview).of_applyEdits hedits
  rw [hmirrors.missingRemoves, Nat.zero_add]
  rfl

/-! ### Logs -/

/-- What an admission reports when its missing removes are recorded too. -/
structure TallyReceipt where
  disposition : Disposition
  missing : Nat
  authoritative : Bool

/-- An admission together with its missing removes and with whether the view
was authoritative, or became so by a barrier. -/
def AdmitsTallying (s : StreamState canon) (e : PreparedEnvelope canon) (receipt : TallyReceipt)
    (s' : StreamState canon) : Prop :=
  s.Admits e receipt.disposition s' ∧ receipt.missing = s.missingBy e s' receipt.disposition ∧
    receipt.authoritative = (decide (receipt.disposition = .barrierApplied) || s.viewAuthoritative)

/-- A run of admissions with recorded missing removes. -/
abbrev TallyingRun (init : StreamState canon) := Run (@AdmitsTallying canon) init

/-- The history behind a log. -/
def reportedBy (log : List (PreparedEnvelope canon × TallyReceipt)) : History canon :=
  log.map fun x => (x.1, x.2.disposition)

/-- How many deliveries of a log returned a disposition. -/
def returned (d : Disposition) (log : List (PreparedEnvelope canon × TallyReceipt)) : Nat :=
  log.countP fun x => decide (x.2.disposition = d)

/-- The missing removes of a log under an authoritative view, or not. -/
def missingUnder (authoritative : Bool) (log : List (PreparedEnvelope canon × TallyReceipt)) :
    Nat :=
  ((log.filter fun x => x.2.authoritative = authoritative).map fun x => x.2.missing).sum

/-- What a log adds up to, without a ceiling. -/
def totalOf (log : List (PreparedEnvelope canon × TallyReceipt)) : DiagnosticCounter → Nat
  | .duplicates => returned .duplicate log
  | .equivocations => returned .equivocation log
  | .staleUnverifiable => returned .staleUnverifiable log
  | .staleBarriers => returned .staleBarrier log
  | .missingRemovesExact => missingUnder true log
  | .missingRemovesPartial => missingUnder false log
  | .pendingLimits => returned .pendingLimit log
  | .gapLimits => returned .gapLimit log
  | .unverifiableGaps => returned .unverifiableGap log
  | .unclosedGaps => 0

/-- What a log adds up to once the stream is finished. -/
def totalAtEnd (log : List (PreparedEnvelope canon × TallyReceipt)) (unclosed : Bool)
    (counter : DiagnosticCounter) : Nat :=
  if counter = .unclosedGaps ∧ unclosed = true then 1 else totalOf log counter

variable {log : List (PreparedEnvelope canon × TallyReceipt)} {receipt : TallyReceipt}

theorem reportedBy_snoc : reportedBy (log ++ [(e, receipt)]) =
    reportedBy log ++ [(e, receipt.disposition)] := by
  simp [reportedBy]

theorem returned_snoc : returned d (log ++ [(e, receipt)]) =
    returned d log + if receipt.disposition = d then 1 else 0 := by
  simp [returned, List.countP_append, List.countP_cons]

theorem missingUnder_snoc {authoritative : Bool} :
    missingUnder authoritative (log ++ [(e, receipt)]) =
      missingUnder authoritative log +
        if receipt.authoritative = authoritative then receipt.missing else 0 := by
  by_cases h : receipt.authoritative = authoritative
  · simp [missingUnder, List.filter_append, h]
  · simp [missingUnder, List.filter_append, h]

/-- Recording missing removes does not change what a run does. -/
theorem runFrom_of_tallying {init : StreamState canon} (hr : TallyingRun init log s) :
    RunFrom init (reportedBy log) s := by
  induction hr with
  | nil => exact .nil
  | snoc hr h ih =>
      rw [reportedBy_snoc]
      exact ih.snoc h.1

/-- Every run has its log. -/
theorem RunFrom.tallying {init : StreamState canon} (hr : RunFrom init history s) :
    ∃ log, reportedBy log = history ∧ TallyingRun init log s := by
  induction hr with
  | nil => exact ⟨[], rfl, .nil⟩
  | @snoc h₀ s₀ e d s' hr h ih =>
      obtain ⟨log, rfl, hlog⟩ := ih
      exact ⟨log ++ [(e, ⟨d, s₀.missingBy e s' d, decide (d = .barrierApplied) ||
        s₀.viewAuthoritative⟩)], reportedBy_snoc, hlog.snoc ⟨h, rfl, rfl⟩⟩

/-! ### One admission -/

/-- A disposition with a counter raises it by one. -/
theorem Step.diagnostics_bump {counter : DiagnosticCounter} (h : s.Step e d s')
    (hcounter : counterOf d = some counter) :
    s'.diagnostics = bumpOf counter s.limits.maxDiagnosticCount.toNat s.diagnostics := by
  cases h with
  | barrierApplied => cases hcounter
  | applied => cases hcounter
  | buffered => cases hcounter
  | _ =>
      obtain rfl := Option.some.inj hcounter
      rfl

theorem counterOf_ne {counter : DiagnosticCounter} (h : counterOf d = some counter) :
    d ≠ .applied ∧ d ≠ .barrierApplied := by
  constructor
  · rintro rfl
    cases h
  · rintro rfl
    cases h

/-- What an application does to the diagnostics. -/
theorem Application.raises {barrier : Bool} {sources : List (PreparedEnvelope canon)}
    {cache : CacheTransaction} (happ : s.Application e barrier sources cache s')
    (hview : s.view.Bounded s.limits)
    (hle : ∀ j, s.diagnostics.get j ≤ s.limits.maxDiagnosticCount.toNat) :
    RaisesBy s.limits.maxDiagnosticCount.toNat (missingCounter (barrier || s.viewAuthoritative))
      (s.missingBy e s' (if barrier then .barrierApplied else .applied)) s.diagnostics
      s'.diagnostics := by
  have hauthority : (if barrier then true else s.viewAuthoritative) =
      (barrier || s.viewAuthoritative) := by
    cases barrier <;> rfl
  rw [happ.diagnostics, happ.missingRemoves hview, hauthority]
  exact raises_addMissingRemoves _ _ hle

/-- What one more admission adds to the totals. -/
theorem totalOf_snoc (counter : DiagnosticCounter) : totalOf (log ++ [(e, receipt)]) counter =
    totalOf log counter + (if counterOf receipt.disposition = some counter then 1 else 0) +
      (if counter = missingCounter receipt.authoritative then receipt.missing else 0) := by
  obtain ⟨d, missing, authoritative⟩ := receipt
  cases counter with
  | missingRemovesExact =>
      cases d <;> cases authoritative <;>
        simp [totalOf, missingUnder_snoc, counterOf, missingCounter]
  | missingRemovesPartial =>
      cases d <;> cases authoritative <;>
        simp [totalOf, missingUnder_snoc, counterOf, missingCounter]
  | _ =>
      cases d <;> cases authoritative <;>
        simp [totalOf, returned_snoc, counterOf, missingCounter]

/-- An application adds its missing removes and nothing else. -/
theorem tallies_application {barrier : Bool} {sources : List (PreparedEnvelope canon)}
    {cache : CacheTransaction} (happ : s.Application e barrier sources cache s')
    (hview : s.view.Bounded s.limits)
    (hdisposition : receipt.disposition = if barrier then .barrierApplied else .applied)
    (hmissing : receipt.missing = s.missingBy e s' receipt.disposition)
    (hauthority : receipt.authoritative =
      (decide (receipt.disposition = .barrierApplied) || s.viewAuthoritative))
    (ht : s.diagnostics.Tallies s.limits.maxDiagnosticCount.toNat (totalOf log)) :
    s'.diagnostics.Tallies s.limits.maxDiagnosticCount.toNat
      (totalOf (log ++ [(e, receipt)])) := by
  have hcounter : counterOf receipt.disposition = none := by
    rw [hdisposition]
    cases barrier <;> rfl
  have hexact : receipt.authoritative = (barrier || s.viewAuthoritative) := by
    rw [hauthority, hdisposition]
    cases barrier <;> rfl
  have hraises := happ.raises hview ht.value_le
  rw [← hdisposition, ← hmissing, ← hexact] at hraises
  refine ht.raise hraises ?_ fun counter hne => ?_
  · rw [totalOf_snoc, hcounter, if_neg (by simp), if_pos rfl, Nat.add_zero]
  · rw [totalOf_snoc, hcounter, if_neg (by simp), if_neg hne, Nat.add_zero]

/-- A counted disposition adds one to its counter and nothing else. -/
theorem tallies_counted {counter : DiagnosticCounter} (h : s.Step e receipt.disposition s')
    (hcounter : counterOf receipt.disposition = some counter)
    (hmissing : receipt.missing = s.missingBy e s' receipt.disposition)
    (ht : s.diagnostics.Tallies s.limits.maxDiagnosticCount.toNat (totalOf log)) :
    s'.diagnostics.Tallies s.limits.maxDiagnosticCount.toNat
      (totalOf (log ++ [(e, receipt)])) := by
  obtain ⟨happlied, hbarrier⟩ := counterOf_ne hcounter
  rw [missingBy_quiet happlied hbarrier] at hmissing
  have hraises := raises_bumpOf counter ht.value_le
  rw [← h.diagnostics_bump hcounter] at hraises
  refine ht.raise hraises ?_ fun other hne => ?_
  · rw [totalOf_snoc, hcounter, hmissing, if_pos rfl, ite_self, Nat.add_zero]
  · have hother : ¬ some counter = some other := fun h => hne (Option.some.inj h).symm
    rw [totalOf_snoc, hcounter, hmissing, if_neg hother, ite_self, Nat.add_zero]

/-- One admission keeps the diagnostics equal to the totals. -/
theorem tallies_step (hs : s.Invariant) (h : s.AdmitsTallying e receipt s')
    (ht : s.diagnostics.Tallies s.limits.maxDiagnosticCount.toNat (totalOf log)) :
    s'.diagnostics.Tallies s.limits.maxDiagnosticCount.toNat
      (totalOf (log ++ [(e, receipt)])) := by
  obtain ⟨hadmits, hmissing, hauthority⟩ := h
  obtain ⟨d, missing, authoritative⟩ := receipt
  have hstep := hadmits.step
  cases hstep with
  | barrierApplied _ _ _ _ happ =>
      exact @tallies_application _ _ _ _ _ _ true _ _ happ hs.view rfl hmissing hauthority ht
  | applied _ _ _ _ _ happ =>
      exact @tallies_application _ _ _ _ _ _ false _ _ happ hs.view rfl hmissing hauthority ht
  | buffered _ _ _ _ _ _ _ =>
      have htotal : totalOf (log ++ [(e, ⟨.buffered, missing, authoritative⟩)]) = totalOf log := by
        funext counter
        obtain rfl : missing = 0 := hmissing
        rw [totalOf_snoc, if_neg (by simp [counterOf]), Nat.add_zero]
        show totalOf log counter + (if _ then 0 else 0) = _
        rw [ite_self, Nat.add_zero]
      rw [htotal]
      exact ht
  | _ => exact tallies_counted hadmits.step rfl hmissing ht

/-- Along a run the diagnostics are the clamped totals of its log. -/
theorem tallies_run {blueprint : StreamBlueprint}
    (hr : TallyingRun (fromBlueprint blueprint) log s) :
    s.Invariant ∧ s.limits = blueprint.limits ∧
      s.diagnostics.Tallies s.limits.maxDiagnosticCount.toNat (totalOf log) := by
  induction hr with
  | nil =>
      refine ⟨invariant_fromBlueprint blueprint, rfl, ?_⟩
      have hnil : totalOf ([] : List (PreparedEnvelope canon × TallyReceipt)) = fun _ => 0 := by
        funext counter
        cases counter <;> rfl
      rw [hnil]
      exact tallies_default _
  | snoc hr h ih =>
      obtain ⟨hs, hlimits, ht⟩ := ih
      have hsame := h.1.step.same
      refine ⟨hs.step h.1.step, hsame.limits.trans hlimits, ?_⟩
      rw [hsame.limits]
      exact tallies_step hs h ht

/-! ### No counter goes back -/

/-- An admission lowers no counter and keeps the flag. -/
theorem Step.diagnostics_le (hs : s.Invariant) (h : s.Step e d s')
    (hle : ∀ j, s.diagnostics.get j ≤ s.limits.maxDiagnosticCount.toNat) :
    (∀ counter, s.diagnostics.get counter ≤ s'.diagnostics.get counter) ∧
      (s.diagnostics.truncated = true → s'.diagnostics.truncated = true) := by
  have hraised : ∀ {counter n}, RaisesBy s.limits.maxDiagnosticCount.toNat counter n s.diagnostics
      s'.diagnostics → (∀ counter, s.diagnostics.get counter ≤ s'.diagnostics.get counter) ∧
        (s.diagnostics.truncated = true → s'.diagnostics.truncated = true) :=
    fun hraises => ⟨hraises.le hle, hraises.flag_of⟩
  rcases hcounter : counterOf d with - | counter
  · cases h with
    | barrierApplied _ _ _ _ happ => exact hraised (happ.raises hs.view hle)
    | applied _ _ _ _ _ happ => exact hraised (happ.raises hs.view hle)
    | buffered _ _ _ _ _ _ _ => exact ⟨fun _ => Nat.le_refl _, id⟩
    | _ => cases hcounter
  · apply hraised
    rw [h.diagnostics_bump hcounter]
    exact raises_bumpOf counter hle

/-- A failing admission leaves the diagnostics alone. -/
theorem diagnostics_of_failure {status : SessionStatus} {failure : Failure}
    (h : s.admitDelivery status e = (.error failure, s')) : s'.diagnostics = s.diagnostics := by
  unfold admitDelivery at h
  by_cases hfailed : s.failed = true
  · rw [if_pos hfailed] at h
    rw [(Prod.mk.inj h).2]
  · rw [if_neg hfailed] at h
    by_cases hstatus : status = .failed
    · rw [if_pos hstatus] at h
      rw [(Prod.mk.inj h).2]
    · rw [if_neg hstatus] at h
      rcases hinner : s.admitInner e with failure' | ⟨d, s₁⟩
      · rw [hinner] at h
        rw [← (Prod.mk.inj h).2]
      · rw [hinner] at h
        cases (Prod.mk.inj h).1

/-! ### The end of the stream -/

/-- `finish` adds one unclosed gap when anything is pending. -/
theorem tallies_finish {status : SessionStatus} {sealedSession : SealedSession}
    {summary : StreamSummary} (h : s.finish status sealedSession = .ok summary)
    (ht : s.diagnostics.Tallies s.limits.maxDiagnosticCount.toNat (totalOf log)) :
    summary.diagnostics.Tallies s.limits.maxDiagnosticCount.toNat
      (totalAtEnd log (!s.pending.isEmpty)) := by
  unfold finish at h
  obtain ⟨-, -, h⟩ := bind_eq_ok.mp h
  obtain ⟨-, -, h⟩ := bind_eq_ok.mp h
  obtain ⟨-, -, h⟩ := bind_eq_ok.mp h
  cases hempty : s.pending.isEmpty with
  | true =>
      rw [hempty] at h
      obtain rfl := pure_eq_ok.mp h
      have htotal : totalAtEnd log (!true) = totalOf log := by
        funext counter
        exact if_neg fun hc => Bool.noConfusion hc.2
      rw [htotal]
      exact ht
  | false =>
      rw [hempty] at h
      obtain rfl := pure_eq_ok.mp h
      refine ht.raise (raises_bumpOf .unclosedGaps ht.value_le) ?_ fun counter hne => ?_
      · exact if_pos ⟨rfl, rfl⟩
      · exact if_neg fun hc => hne hc.1

/-! ### Exact tallies -/

/-- The diagnostics of every run are the totals of what its deliveries
reported, clamped at the ceiling, and are flagged as truncated exactly when a
total is beyond it.  `finish` counts one unclosed gap when anything is
pending; no admission lowers a counter, and a failing one changes none. -/
theorem diagnostics_tally_run {blueprint : StreamBlueprint}
    (hr : RunFrom (fromBlueprint blueprint) history s) :
    (∃ log, reportedBy log = history ∧ TallyingRun (fromBlueprint blueprint) log s) ∧
    (∀ log, TallyingRun (fromBlueprint blueprint) log s →
      s.diagnostics.Tallies blueprint.limits.maxDiagnosticCount.toNat (totalOf log) ∧
      ∀ status sealedSession summary, s.finish status sealedSession = .ok summary →
        summary.diagnostics.Tallies blueprint.limits.maxDiagnosticCount.toNat
          (totalAtEnd log (!s.pending.isEmpty))) ∧
    (∀ status e d s', s.admitDelivery status e = (.ok d, s') →
      (∀ counter, s.diagnostics.get counter ≤ s'.diagnostics.get counter) ∧
        (s.diagnostics.truncated = true → s'.diagnostics.truncated = true)) ∧
    ∀ status e failure s', s.admitDelivery status e = (.error failure, s') →
      s'.diagnostics = s.diagnostics := by
  obtain ⟨log, hlog, hrun⟩ := hr.tallying
  obtain ⟨hs, -, hclamped⟩ := tallies_run hrun
  refine ⟨⟨log, hlog, hrun⟩, fun log hrun => ?_, fun status e d s' hadmits => ?_,
    fun status e failure s' => diagnostics_of_failure⟩
  · obtain ⟨-, hlimits, ht⟩ := tallies_run hrun
    rw [← hlimits]
    exact ⟨ht, fun status sealedSession summary hfinish => tallies_finish hfinish ht⟩
  · exact (Admits.step ⟨status, hadmits⟩).diagnostics_le hs hclamped.value_le

end StreamState

/-! ### A clamped sample -/

namespace Sample

open StreamState

/-- The default limits, with counters that stop at one. -/
def countOne : Limits := { Limits.default with maxDiagnosticCount := 1 }

/-- Two removes of keys that no one stored, at the second cursor. -/
def absent : PreparedEnvelope canonical := source "absent" 1 [remove 8, remove 9]

/-- The removes wait for the first store, which drains them. -/
theorem absent_run : TallyingRun (fresh countOne)
    [(absent, ⟨.buffered, 0, true⟩), (late, ⟨.applied, 2, true⟩)]
    (deliver (fresh countOne) [absent, late]) := by
  have habsent : (fresh countOne).AdmitsTallying absent ⟨.buffered, 0, true⟩
      (deliver (fresh countOne) [absent]) :=
    ⟨admits_of_result (by decide +kernel), rfl, by decide +kernel⟩
  have hlate : (deliver (fresh countOne) [absent]).AdmitsTallying late ⟨.applied, 2, true⟩
      (deliver (fresh countOne) [absent, late]) :=
    ⟨admits_of_result (by decide +kernel), by decide +kernel, by decide +kernel⟩
  exact .snoc (.snoc .nil habsent) hlate

end Sample

namespace StreamState

/-- Two removes of a drained candidate find nothing: the exact counter stops at
its ceiling and the diagnostics are flagged. -/
theorem drained_removes_tally :
    ∃ log, TallyingRun (Sample.fresh Sample.countOne) log
        (Sample.deliver (Sample.fresh Sample.countOne) [Sample.absent, Sample.late]) ∧
      totalOf log .missingRemovesExact = 2 ∧
      (Sample.deliver (Sample.fresh Sample.countOne)
        [Sample.absent, Sample.late]).diagnostics.missingRemovesExact = 1 ∧
      (Sample.deliver (Sample.fresh Sample.countOne)
        [Sample.absent, Sample.late]).diagnostics.truncated = true := by
  have htotal : totalOf [(Sample.absent, ⟨.buffered, 0, true⟩), (Sample.late, ⟨.applied, 2, true⟩)]
      .missingRemovesExact = 2 := rfl
  obtain ⟨-, htallies, -⟩ := diagnostics_tally_run (runFrom_of_tallying Sample.absent_run)
  obtain ⟨hclamped, -⟩ := htallies _ Sample.absent_run
  have hvalue := hclamped.value .missingRemovesExact
  rw [htotal] at hvalue
  refine ⟨_, Sample.absent_run, htotal, hvalue, hclamped.truncated.mpr ⟨.missingRemovesExact, ?_⟩⟩
  rw [htotal]
  decide

end StreamState

end KvCrucible
