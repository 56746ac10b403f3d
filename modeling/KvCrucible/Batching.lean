/-
KvCrucible/Batching.lean

One application that drains a run of candidates, against admitting the same
payloads one at a time.

`settled` is the state an application leaves, as a function of the cache
transaction (`Application.eq_settled`), and `applySource_eq` says that an
application fails exactly when the cache does.  The stepwise side starts from
the state without the candidates (`withdrawn`); `Ready` is what holds before
each single admission, and `steps_agree` follows both sides candidate by
candidate: the transaction goes on (`CacheStages`), the state settles.
-/
import KvCrucible.CacheStages
import KvCrucible.StateSafety

namespace KvCrucible

open Basis Std

variable {canon : Canonical}

/-! ### Diagnostics -/

/-- Counting in two parts is counting the sum. -/
theorem Diagnostics.addMissingRemoves_add (exact : Bool) (m n maximum : Nat) (d : Diagnostics) :
    addMissingRemoves exact (m + n) maximum d =
      addMissingRemoves exact n maximum (addMissingRemoves exact m maximum d) := by
  have hadd : ∀ (counter : Nat) (truncated : Bool),
      add counter (m + n) truncated maximum =
        add (add counter m truncated maximum).1 n (add counter m truncated maximum).2 maximum := by
    intro counter truncated
    unfold add
    by_cases hm : m > maximum - counter
    · have hsum : m + n > maximum - counter := by omega
      simp only [if_pos hm, if_pos hsum]
      by_cases hn : n > maximum - maximum
      · rw [if_pos hn]
      · have : n = 0 := by omega
        rw [if_neg hn, this, Nat.add_zero]
    · simp only [if_neg hm]
      by_cases hn : n > maximum - (counter + m)
      · rw [if_pos hn, if_pos (by omega)]
      · rw [if_neg hn, if_neg (by omega), Nat.add_assoc]
  cases exact with
  | true => simp only [addMissingRemoves, if_true, hadd]
  | false => simp only [addMissingRemoves, Bool.false_eq_true, if_false, hadd]

namespace StreamState

attribute [ext] StreamState

variable {s s' : StreamState canon} {e source : PreparedEnvelope canon} {barrier : Bool}
  {sources : List (PreparedEnvelope canon)} {cache : CacheTransaction} {cursor : Nat}

/-! ### The state an application leaves -/

/-- What `commit_application` does before the facts are committed, with the
byte total left to the end. -/
def anchored (s : StreamState canon) (cursor : Nat) (barrier : Bool) : StreamState canon :=
  if barrier then
    ({ s with
      pending := (s.splitPending cursor).2
      recent := ∅
      baselineUnknown := false
      viewAuthoritative := true
      equivocationCeiling := dropBelow s.equivocationCeiling cursor s.equivocationCeiling
      unavailableFloor := dropBelow s.unavailableCeiling cursor s.unavailableFloor
      unavailableCeiling := dropBelow s.unavailableCeiling cursor s.unavailableCeiling } :
      StreamState canon).recomputePoison
  else s

/-- The state that applying `e` leaves when it drains `sources` and projects
`cache`. -/
def settled (s : StreamState canon) (e : PreparedEnvelope canon) (barrier : Bool)
    (sources : List (PreparedEnvelope canon)) (cache : CacheTransaction) : StreamState canon :=
  let t := s.anchored e.cursor barrier
  let pending := eraseAll t.pending (factsFrom (e.cursor + 1) sources)
  ({ t with
    view := cache.finish.commit s.view
    pending := pending
    pendingBytes := weight PendingSlot.canonicalBytes pending
    recent := retainAll s.limits.maxRecentFingerprintsPerStream.toNat t.recent
      (⟨e.cursor, e.fingerprint⟩ :: factsFrom (e.cursor + 1) sources)
    frontier := some (e.cursor + sources.length)
    diagnostics := Diagnostics.addMissingRemoves t.viewAuthoritative cache.missingRemoves
      s.limits.maxDiagnosticCount.toNat s.diagnostics } : StreamState canon).recomputeCertainty

theorem getElem?_anchored {k : Nat} : (s.anchored cursor barrier).pending[k]? =
    if barrier = true ∧ (k ≤ cursor ∨ u64Max ≤ cursor) then none else s.pending[k]? := by
  cases barrier with
  | true =>
      show (s.splitPending cursor).2[k]? = _
      rw [getElem?_splitPending]
      exact if_congr (by simp) rfl rfl
  | false => simp [anchored]

/-- An application determines every field it leaves. -/
theorem Application.eq_settled (happ : s.Application e barrier sources cache s')
    (hacc : s.Accounted) : s' = s.settled e barrier sources cache := by
  have hpending : s'.pending =
      eraseAll (s.anchored e.cursor barrier).pending (factsFrom (e.cursor + 1) sources) := by
    apply ExtTreeMap.ext_getElem?
    intro k
    rw [happ.pending, getElem?_eraseAll, getElem?_anchored]
    by_cases hk : e.cursor < k ∧ k ≤ e.cursor + sources.length
    · rw [if_pos (.inl hk), if_pos hk]
    · rw [if_neg hk]
      exact if_congr (by simp [hk]) rfl rfl
  have hbytes : s'.pendingBytes = weight PendingSlot.canonicalBytes s'.pending :=
    happ.accounted hacc
  have hpoison : s'.poisonCeiling = (s.settled e barrier sources cache).poisonCeiling := by
    rw [happ.poisonCeiling, happ.equivocationCeiling, happ.unavailableCeiling]
    cases barrier <;> rfl
  have hbaseline : s'.baselineUnknown = (s.settled e barrier sources cache).baselineUnknown := by
    rw [happ.baselineUnknown]
    cases barrier <;> rfl
  have hcertainty : s'.certainty = (s.settled e barrier sources cache).certainty := by
    rw [happ.certainty, certaintyOf, hbaseline, hpoison, hpending]
    rfl
  rw [hpending] at hbytes
  cases barrier with
  | true =>
      exact StreamState.ext happ.session happ.limits happ.streamId happ.initialCursor hcertainty
        happ.frontier hbaseline happ.viewAuthoritative hpoison happ.equivocationCeiling
        happ.unavailableFloor happ.unavailableCeiling happ.view hpending hbytes happ.recent
        happ.diagnostics happ.failed
  | false =>
      exact StreamState.ext happ.session happ.limits happ.streamId happ.initialCursor hcertainty
        happ.frontier hbaseline happ.viewAuthoritative hpoison happ.equivocationCeiling
        happ.unavailableFloor happ.unavailableCeiling happ.view hpending hbytes happ.recent
        happ.diagnostics happ.failed

/-! ### When an application fails -/

/-- The mutations of `e` that an application folds. -/
def foldedMutations (e : PreparedEnvelope canon) (barrier : Bool) : List Mutation :=
  e.mutations.drop (if barrier then e.firstClear.getD 0 else 0)

/-- The transaction that an application plans. -/
def plannedCache (s : StreamState canon) (e : PreparedEnvelope canon) (barrier : Bool)
    (sources : List (PreparedEnvelope canon)) : Except StateError CacheTransaction := do
  let first ← (CacheTransaction.new s.view).apply (foldedMutations e barrier) s.limits
  applyAll s.limits first sources

theorem applicationStart_eq {start : Nat} (h : applicationStart e barrier = .ok start) :
    foldedMutations e barrier = e.mutations.drop start := by
  cases barrier with
  | true =>
      have hfirst : e.firstClear = some start := expect_eq_ok.mp h
      simp [foldedMutations, hfirst]
  | false =>
      obtain rfl : 0 = start := Except.ok.inj h
      rfl

/-- The loop of `application_plan` in terms of the candidates it drains. -/
theorem drain_eq_applyAll (hdrained : s.Drained (s.supersedes e.cursor barrier) e.cursor sources) :
    s.drain (s.supersedes e.cursor barrier) (u64Max - e.cursor) e.cursor cache
        [⟨e.cursor, e.fingerprint⟩] =
      (applyAll s.limits cache sources >>= fun cache =>
        .ok (cache, ⟨e.cursor, e.fingerprint⟩ :: factsFrom (e.cursor + 1) sources)) := by
  have hroom : e.cursor + (u64Max - e.cursor) = u64Max := by
    have hlt := e.cursor_lt
    unfold u64Max
    omega
  rw [drain_eq, (drained_drainable hroom).unique hdrained]
  rfl

/-- A plan takes over an error of the cache. -/
theorem applicationPlan_error {start : Nat} {authoritative : Bool} {error : StateError}
    (hle : start ≤ e.mutations.length) (hstart : applicationStart e barrier = .ok start)
    (hdrained : s.Drained (s.supersedes e.cursor barrier) e.cursor sources)
    (h : s.plannedCache e barrier sources = .error error) :
    s.applicationPlan e start authoritative barrier = .error (.error error) := by
  unfold applicationPlan
  rw [sliceFrom_eq_ok.mpr ⟨hle, (applicationStart_eq hstart).symm⟩]
  unfold plannedCache at h
  cases hfirst : (CacheTransaction.new s.view).apply (foldedMutations e barrier) s.limits with
  | error error' =>
      rw [hfirst] at h
      obtain rfl := Except.error.inj h
      show ((CacheTransaction.new s.view).apply (foldedMutations e barrier) s.limits).mapError
        Failure.error >>= _ = _
      rw [hfirst]
      rfl
  | ok first =>
      rw [hfirst] at h
      have hall : applyAll s.limits first sources = .error error := h
      show ((CacheTransaction.new s.view).apply (foldedMutations e barrier) s.limits).mapError
        Failure.error >>= _ = _
      rw [hfirst]
      show (s.drain (s.supersedes e.cursor barrier) (u64Max - e.cursor) e.cursor first
        [⟨e.cursor, e.fingerprint⟩]).mapError Failure.error >>= _ = _
      rw [drain_eq_applyAll hdrained, hall]
      rfl

/-- Without an error of the cache there is a plan. -/
theorem applicationPlan_total {start : Nat} {authoritative : Bool}
    (hle : start ≤ e.mutations.length) (hstart : applicationStart e barrier = .ok start)
    (hdrained : s.Drained (s.supersedes e.cursor barrier) e.cursor sources)
    (h : s.plannedCache e barrier sources = .ok cache) :
    ∃ plan, s.applicationPlan e start authoritative barrier = .ok plan := by
  obtain ⟨first, hfirst, hall⟩ := bind_eq_ok.mp h
  have hdrain := @drain_eq_applyAll canon s e barrier sources first hdrained
  rw [hall] at hdrain
  exact ⟨_, bind_ok (sliceFrom_eq_ok.mpr ⟨hle, (applicationStart_eq hstart).symm⟩)
    (bind_ok (mapError_eq_ok.mpr hfirst) (bind_ok (mapError_eq_ok.mpr hdrain) rfl))⟩

/-- A planned cache is the one of the application. -/
theorem Application.cache_eq {cache' : CacheTransaction}
    (happ : s.Application e barrier sources cache' s')
    (h : s.plannedCache e barrier sources = .ok cache) : cache' = cache := by
  obtain ⟨start, first, hstart, hfirst, hall⟩ := happ.cache_ok
  have hstart' : applicationStart e barrier = .ok start := by
    cases barrier with
    | true => exact expect_eq_ok.mpr hstart
    | false => exact congrArg Except.ok hstart.symm
  rw [← applicationStart_eq hstart'] at hfirst
  exact Except.ok.inj ((bind_ok hfirst hall).symm.trans h)

/-- An application fails exactly when its cache projection does, and else
settles. -/
theorem applySource_eq (hacc : s.Accounted) (hbytes : s.pendingBytes < 2 ^ 64)
    (hclear : barrier = true → e.hasClear = true)
    (hdrained : s.Drained (s.supersedes e.cursor barrier) e.cursor sources) :
    Agree (fun cache r => r = (if barrier then Disposition.barrierApplied else .applied,
        s.settled e barrier sources cache))
      ((s.plannedCache e barrier sources).mapError Failure.error) (s.applySource e barrier) := by
  obtain ⟨start, hstart, hle⟩ := applicationStart_total hclear
  cases hcache : s.plannedCache e barrier sources with
  | error error =>
      have hfails : s.applySource e barrier = .error (.error error) := by
        unfold applySource
        rw [hstart]
        show s.applicationPlan e start _ barrier >>= _ = _
        rw [applicationPlan_error hle hstart hdrained hcache]
        rfl
      rw [hfails]
      exact .error _
  | ok cache =>
      obtain ⟨plan, hplan⟩ := applicationPlan_total hle hstart hdrained hcache
      obtain ⟨s', hcommit⟩ := commitApplication_total hacc hbytes plan e.cursor barrier
        (if barrier then true else s.viewAuthoritative)
      have happly : s.applySource e barrier =
          .ok (if barrier then Disposition.barrierApplied else .applied, s') :=
        bind_ok hstart (bind_ok hplan (bind_ok hcommit rfl))
      obtain ⟨-, sources', cache', happ⟩ := applySource_ok happly
      obtain rfl := happ.drained.unique hdrained
      obtain rfl := happ.cache_eq hcache
      obtain rfl := happ.eq_settled hacc
      rw [happly]
      exact .ok rfl

/-! ### Candidates taken back -/

/-- The state without the given candidates: their cursors are free and their
bytes released. -/
def withdrawn (s : StreamState canon) (sources : List (PreparedEnvelope canon)) :
    StreamState canon :=
  { s with
    pending := sources.foldl (fun pending source => pending.erase source.cursor) s.pending
    pendingBytes := s.pendingBytes - (sources.map PreparedEnvelope.canonicalBytes).sum }

/-- Payloads at consecutive cursors behind `cursor`. -/
def Consecutive (cursor : Nat) (sources : List (PreparedEnvelope canon)) : Prop :=
  ∀ k, ∀ hk : k < sources.length, sources[k].cursor = cursor + 1 + k

theorem Consecutive.tail (h : Consecutive cursor (source :: sources)) :
    source.cursor = cursor + 1 ∧ Consecutive (cursor + 1) sources := by
  refine ⟨h 0 (Nat.zero_lt_succ _), fun k hk => ?_⟩
  have hnext := h (k + 1) (Nat.succ_lt_succ hk)
  rw [List.getElem_cons_succ] at hnext
  omega

/-- Drained candidates stand at consecutive cursors. -/
theorem Drained.consecutive {supersedes : Bool} (hs : s.Core)
    (h : s.Drained supersedes cursor sources) : Consecutive cursor sources :=
  fun k hk => (hs.candidate (h.pending k hk)).1

theorem withdrawn_pending (h : Consecutive cursor sources) :
    (s.withdrawn sources).pending = eraseAll s.pending (factsFrom (cursor + 1) sources) := by
  show sources.foldl _ s.pending = _
  induction sources generalizing s cursor with
  | nil => rfl
  | cons source sources ih =>
      obtain ⟨hcursor, hrest⟩ := h.tail
      have hih := @ih { s with pending := s.pending.erase source.cursor } (cursor + 1) hrest
      rw [List.foldl_cons]
      rw [hcursor] at hih ⊢
      exact hih

/-- Contiguous candidates split off the weight of their map. -/
theorem weight_eq_add_eraseAll {sources : List (PreparedEnvelope canon)} :
    ∀ {cursor : Nat} {pending : ExtTreeMap Nat (PendingSlot canon)},
      (∀ k, ∀ hk : k < sources.length,
        pending[cursor + 1 + k]? = some (PendingSlot.candidate sources[k])) →
      weight PendingSlot.canonicalBytes pending =
        (sources.map PreparedEnvelope.canonicalBytes).sum +
          weight PendingSlot.canonicalBytes (eraseAll pending (factsFrom (cursor + 1) sources)) := by
  induction sources with
  | nil =>
      intro cursor pending _
      exact (Nat.zero_add _).symm
  | cons source sources ih =>
      intro cursor pending h
      have hfirst : pending[cursor + 1]? = some (.candidate source) := h 0 (Nat.zero_lt_succ _)
      have hrest : ∀ k, ∀ hk : k < sources.length,
          (pending.erase (cursor + 1))[cursor + 1 + 1 + k]? =
            some (PendingSlot.candidate sources[k]) := by
        intro k hk
        have hne : ¬ compare (cursor + 1) (cursor + 1 + 1 + k) = .eq := by
          rw [Nat.compare_eq_eq]
          omega
        rw [ExtTreeMap.getElem?_erase, if_neg hne]
        have hnext := h (k + 1) (Nat.succ_lt_succ hk)
        rw [show cursor + 1 + (k + 1) = cursor + 1 + 1 + k by omega] at hnext
        exact hnext
      show _ = (source.canonicalBytes :: sources.map PreparedEnvelope.canonicalBytes).sum +
        weight _ (eraseAll (pending.erase (cursor + 1)) (factsFrom (cursor + 1 + 1) sources))
      rw [weight_eq_add_erase _ hfirst, ih hrest, List.sum_cons]
      exact (Nat.add_assoc _ _ _).symm

section Withdrawn

variable {supersedes : Bool} (hs : s.Core) (hdrained : s.Drained supersedes cursor sources)

include hs hdrained

theorem getElem?_withdrawn {k : Nat} : (s.withdrawn sources).pending[k]? =
    if cursor < k ∧ k ≤ cursor + sources.length then none else s.pending[k]? := by
  rw [withdrawn_pending (hdrained.consecutive hs), getElem?_eraseAll]

/-- What remains is still accounted for. -/
theorem withdrawn_accounted : (s.withdrawn sources).Accounted := by
  have hweight := weight_eq_add_eraseAll hdrained.pending
  have hacc : s.pendingBytes = weight PendingSlot.canonicalBytes s.pending := hs.accounted
  show s.pendingBytes - _ = weight _ (s.withdrawn sources).pending
  rw [withdrawn_pending (hdrained.consecutive hs), hacc, hweight, Nat.add_sub_cancel_left]

end Withdrawn

/-! ### Settling candidate by candidate -/

theorem factsFrom_snoc {sources : List (PreparedEnvelope canon)} :
    ∀ {cursor : Nat}, factsFrom cursor (sources ++ [source]) =
      factsFrom cursor sources ++ [⟨cursor + sources.length, source.fingerprint⟩] := by
  induction sources with
  | nil => intro cursor; rfl
  | cons first sources ih =>
      intro cursor
      rw [List.cons_append, factsFrom, ih, factsFrom, List.cons_append, List.length_cons,
        show cursor + 1 + sources.length = cursor + (sources.length + 1) by omega]

/-- Settling does not depend on the byte total before, and on the pending map
only up to what is erased. -/
theorem settled_congr {pending : ExtTreeMap Nat (PendingSlot canon)} {bytes : Nat}
    (h : eraseAll (({ s with pending := pending, pendingBytes := bytes } : StreamState
        canon).anchored e.cursor barrier).pending (factsFrom (e.cursor + 1) sources) =
      eraseAll (s.anchored e.cursor barrier).pending (factsFrom (e.cursor + 1) sources)) :
    ({ s with pending := pending, pendingBytes := bytes } : StreamState canon).settled e barrier
      sources cache = s.settled e barrier sources cache := by
  unfold settled
  simp only [h]
  cases barrier <;> rfl

/-- Erasing a free cursor changes nothing. -/
theorem eraseAll_snoc {pending : ExtTreeMap Nat (PendingSlot canon)}
    (hcursor : source.cursor = cursor + 1 + sources.length)
    (hfresh : pending[source.cursor]? = none) :
    eraseAll pending (factsFrom (cursor + 1) (sources ++ [source])) =
      eraseAll pending (factsFrom (cursor + 1) sources) := by
  rw [factsFrom_snoc, eraseAll, List.foldl_append]
  show (eraseAll pending (factsFrom (cursor + 1) sources)).erase (cursor + 1 + sources.length) = _
  apply erase_of_getElem?_eq_none
  rw [getElem?_eraseAll, ← hcursor, hfresh, ite_self]

/-- Settling on a settled state settles one more candidate. -/
theorem settled_snoc {cache' next : CacheTransaction}
    (hcursor : source.cursor = e.cursor + 1 + sources.length)
    (hfresh : (s.anchored e.cursor barrier).pending[source.cursor]? = none)
    (hview : next.finish.commit (s.settled e barrier sources cache).view =
      cache'.finish.commit s.view)
    (hmissing : cache'.missingRemoves = cache.missingRemoves + next.missingRemoves) :
    (s.settled e barrier sources cache).settled source false [] next =
      s.settled e barrier (sources ++ [source]) cache' := by
  have hpending : (s.settled e barrier (sources ++ [source]) cache').pending =
      (s.settled e barrier sources cache).pending := eraseAll_snoc hcursor hfresh
  have hlimits : (s.settled e barrier sources cache).limits = s.limits := by
    cases barrier <;> rfl
  have hrecent : (s.settled e barrier (sources ++ [source]) cache').recent =
      retain (s.settled e barrier sources cache).limits.maxRecentFingerprintsPerStream.toNat
        (s.settled e barrier sources cache).recent ⟨source.cursor, source.fingerprint⟩ := by
    rw [hlimits]
    show retainAll _ _ (_ :: factsFrom (e.cursor + 1) (sources ++ [source])) = _
    rw [factsFrom_snoc, ← hcursor, ← List.cons_append, retainAll, List.foldl_append]
    rfl
  have hfrontier : (s.settled e barrier (sources ++ [source]) cache').frontier =
      some source.cursor := by
    show some (e.cursor + (sources ++ [source]).length) = _
    rw [List.length_append, List.length_singleton, hcursor]
    congr 1
    omega
  have hdiagnostics : (s.settled e barrier (sources ++ [source]) cache').diagnostics =
      Diagnostics.addMissingRemoves (s.settled e barrier sources cache).viewAuthoritative
        next.missingRemoves (s.settled e barrier sources cache).limits.maxDiagnosticCount.toNat
        (s.settled e barrier sources cache).diagnostics := by
    rw [hlimits]
    show Diagnostics.addMissingRemoves _ cache'.missingRemoves _ _ = _
    rw [hmissing, Diagnostics.addMissingRemoves_add]
    rfl
  have hcertainty : ((s.settled e barrier sources cache).settled source false [] next).certainty =
      (s.settled e barrier (sources ++ [source]) cache').certainty := by
    show certaintyOf ((s.settled e barrier sources cache).settled source false [] next) =
      certaintyOf (s.settled e barrier (sources ++ [source]) cache')
    rw [certaintyOf, certaintyOf, hpending]
    rfl
  exact StreamState.ext rfl rfl rfl rfl hcertainty hfrontier.symm rfl rfl rfl rfl rfl rfl hview
    hpending.symm (congrArg (weight PendingSlot.canonicalBytes) hpending.symm) hrecent.symm
    hdiagnostics.symm rfl

/-! ### Owned candidates -/

/-- Every pending candidate belongs to the stream. -/
def Owns (s : StreamState canon) : Prop :=
  ∀ (c : Nat) (source : PreparedEnvelope canon),
    s.pending[c]? = some (.candidate source) → s.Accepts source

/-- A step retains no candidate but its own delivery. -/
theorem Step.candidate_mem {d : Disposition} (h : s.Step e d s') {c : Nat}
    (hc : s'.pending[c]? = some (.candidate source)) :
    source = e ∨ s.pending[c]? = some (.candidate source) := by
  cases h with
  | pendingDuplicate | pastDuplicate | staleBarrier | staleUnverifiable | unverifiableGap
  | gapLimit | pendingLimit => exact .inr hc
  | pendingAdditional | pastConflict | pastAdditional =>
      rw [noteEquivocation_pending] at hc
      exact .inr hc
  | pendingConflict hslot hne hbytes =>
      rw [noteEquivocation_pending] at hc
      have hc' : (s.pending.insert e.cursor (.conflict _ _))[c]? = some (.candidate source) := hc
      rw [ExtTreeMap.getElem?_insert] at hc'
      split at hc'
      · cases hc'
      · exact .inr hc'
  | barrierApplied hfresh hnext hblocks heligible happ =>
      rw [happ.pending] at hc
      split at hc
      · cases hc
      · exact .inr hc
  | applied hfresh hnext hblocks heligible hwhere happ =>
      rw [happ.pending] at hc
      split at hc
      · cases hc
      · exact .inr hc
  | buffered hfresh hnext hblocks heligible hanchored hspan hroom =>
      have hc' : (s.pending.insert e.cursor (.candidate e))[c]? = some (.candidate source) := hc
      rw [ExtTreeMap.getElem?_insert] at hc'
      split at hc'
      · exact .inl (PendingSlot.candidate.inj (Option.some.inj hc')).symm
      · exact .inr hc'

theorem Accepts.of_same (h : s.SameStream s') (ha : s.Accepts e) : s'.Accepts e :=
  ⟨ha.session.trans h.session.symm, ha.streamId.trans h.streamId.symm,
    h.initialCursor ▸ ha.initialCursor⟩

/-- Only deliveries of the stream are ever pending. -/
theorem Reachable.owns {blueprint : StreamBlueprint} (hs : Reachable blueprint s) : s.Owns := by
  induction hs with
  | fresh =>
      intro c source hc
      simp [fromBlueprint] at hc
  | @deliver s hs status e ih =>
      unfold StreamState.admitDelivery
      by_cases hfailed : s.failed = true
      · rw [if_pos hfailed]
        exact ih
      · rw [if_neg hfailed]
        by_cases hstatus : status = .failed
        · rw [if_pos hstatus]
          exact ih
        · rw [if_neg hstatus]
          rcases hinner : s.admitInner e with failure | ⟨d, s₁⟩
          · exact fun c source hc => ⟨(ih c source hc).session, (ih c source hc).streamId,
              (ih c source hc).initialCursor⟩
          · obtain ⟨ha, hstep⟩ := admitInner_ok hinner
            intro c source hc
            rcases hstep.candidate_mem hc with rfl | hc
            · exact ha.of_same hstep.same
            · exact (ih c source hc).of_same hstep.same

/-! ### One admission after the other -/

/-- What leads to an application is an application. -/
theorem Accepts.applySource_eq (ha : s.Accepts e) (h : Invariant.Reaches s e barrier) :
    s.admitInner e = s.applySource e barrier := by
  rw [ha.admitFresh_eq h.fresh, admitFresh, ha.isPast_eq h.next_le]
  simp only [Bool.false_eq_true, if_false, h.unblocked, h.eligible]
  cases barrier with
  | true => exact if_pos rfl
  | false =>
      rw [if_neg Bool.false_ne_true]
      by_cases hfirst : (s.baselineUnknown && s.frontier.isNone) = true
      · rw [if_pos hfirst]
      · have hnext : e.cursor = s.next :=
          (h.where_ rfl).resolve_right fun h => hfirst (by simp [h.1, h.2])
        rw [if_neg hfirst, admitExpected, expectedCursor_of_le h.next_le]
        exact if_pos hnext

/-- A barrier has a clear. -/
theorem Accepts.hasClear_of_reaches (ha : s.Accepts e) (h : Invariant.Reaches s e barrier)
    (hb : barrier = true) : e.hasClear = true := by
  have heligible := h.eligible.trans hb
  exact ((eligibleBarrier_iff ha.initialCursor h.next_le).mp heligible).1

/-- `admit`, as a step that keeps only the state. -/
def admitOne (status : SessionStatus) (s : StreamState canon) (e : PreparedEnvelope canon) :
    Except Failure (StreamState canon) :=
  (s.admitDelivery status e).1.map fun _ => (s.admitDelivery status e).2

/-- Admit deliveries one at a time, up to the first failure. -/
def admitAll (status : SessionStatus) (s : StreamState canon)
    (sources : List (PreparedEnvelope canon)) : Except Failure (StreamState canon) :=
  sources.foldlM (admitOne status) s

theorem admitOne_eq {status : SessionStatus} (hfailed : s.failed = false)
    (hstatus : status ≠ .failed) : s.admitOne status e = (s.admitInner e).map Prod.snd := by
  unfold admitOne admitDelivery
  rw [hfailed, if_neg Bool.false_ne_true, if_neg hstatus]
  cases s.admitInner e <;> rfl

/-- Behind an application nothing is drained any more, once its candidates are
gone. -/
theorem Drained.rest {t : StreamState canon} {supersedes supersedes' : Bool} {k : Nat}
    (h : s.Drained supersedes cursor sources) (hk : k ≤ sources.length)
    (hnone : ∀ j, cursor < j → j ≤ cursor + sources.length → t.pending[j]? = none)
    (hkept : ∀ (j : Nat) (slot : PendingSlot canon), t.pending[j]? = some slot →
      s.pending[j]? = some slot)
    (hfloor : ∀ j, supersedes = false → s.floorReached j = true →
      supersedes' = false ∧ t.floorReached j = true) :
    t.Drained supersedes' (cursor + k) [] := by
  have hmax := h.le_max
  refine .nil (by omega) ?_
  rcases Nat.lt_or_eq_of_le hk with hlt | rfl
  · refine .inr (.inr fun source hsource => ?_)
    rw [hnone _ (by omega) (by omega)] at hsource
    cases hsource
  · have hnext : cursor + sources.length + 1 = cursor + 1 + sources.length := by omega
    rw [hnext]
    rcases h.stop with hstop | ⟨hsup, hreached⟩ | hstop
    · exact .inl hstop
    · exact .inr (.inl (hfloor _ hsup hreached))
    · exact .inr (.inr fun source hsource => hstop source (hkept _ _ hsource))

/-- A superseding barrier lifts the floor; nothing else does. -/
theorem settled_floorReached {k : Nat} : (s.settled e barrier sources cache).floorReached k =
    (!s.supersedes e.cursor barrier && s.floorReached k) := by
  cases barrier with
  | false => rfl
  | true =>
      have hfloor : (s.settled e true sources cache).unavailableFloor =
          if s.supersedes e.cursor true = true then none else s.unavailableFloor := rfl
      unfold floorReached
      rw [hfloor]
      cases s.supersedes e.cursor true with
      | true => rfl
      | false => rfl

/-- The candidates are below the floor that remains. -/
theorem settled_withdrawn_floor {taken : List (PreparedEnvelope canon)} {k : Nat}
    (hdrained : s.Drained (s.supersedes e.cursor barrier) e.cursor sources)
    (hk : k < sources.length) : ((s.withdrawn sources).settled e barrier taken
      cache).floorReached (e.cursor + 1 + k) = false := by
  rw [settled_floorReached]
  show (!s.supersedes e.cursor barrier && s.floorReached (e.cursor + 1 + k)) = false
  cases hsup : s.supersedes e.cursor barrier with
  | true => rfl
  | false => exact hdrained.floor k hk hsup

section Next

variable {taken rest : List (PreparedEnvelope canon)} (hsources : taken ++ source :: rest = sources)

include hsources

theorem next_lt : taken.length < sources.length := by
  rw [← hsources, List.length_append, List.length_cons]
  omega

theorem next_get (hlt : taken.length < sources.length) : sources[taken.length] = source := by
  simp [← hsources]

end Next

theorem settled_same : s.SameStream (s.settled e barrier sources cache) := by
  cases barrier with
  | true => exact ⟨rfl, rfl, rfl, rfl, CacheTransaction.commit_scope _, rfl⟩
  | false => exact ⟨rfl, rfl, rfl, rfl, CacheTransaction.commit_scope _, rfl⟩

/-- An application that drains nothing folds its own mutations only. -/
theorem plannedCache_nil : s.plannedCache e barrier [] =
    (CacheTransaction.new s.view).apply (foldedMutations e barrier) s.limits := by
  unfold plannedCache
  cases (CacheTransaction.new s.view).apply (foldedMutations e barrier) s.limits <;> rfl

section Stepwise

variable {taken : List (PreparedEnvelope canon)} (hs : s.Core)
  (hdrained : s.Drained (s.supersedes e.cursor barrier) e.cursor sources)

include hs hdrained

theorem getElem?_anchored_withdrawn {k : Nat} (hk : e.cursor < k)
    (hk' : k ≤ e.cursor + sources.length) :
    ((s.withdrawn sources).anchored e.cursor barrier).pending[k]? = none := by
  have hrange : e.cursor < k ∧ k ≤ e.cursor + sources.length := ⟨hk, hk'⟩
  rw [getElem?_anchored, getElem?_withdrawn hs hdrained, if_pos hrange, ite_self]

/-- The candidates stay gone. -/
theorem getElem?_settled_withdrawn {k : Nat} (hk : e.cursor < k)
    (hk' : k ≤ e.cursor + sources.length) :
    ((s.withdrawn sources).settled e barrier taken cache).pending[k]? = none := by
  show (eraseAll _ (factsFrom (e.cursor + 1) taken))[k]? = none
  rw [getElem?_eraseAll, getElem?_anchored_withdrawn hs hdrained hk hk', ite_self]

/-- Whatever else is pending was pending before. -/
theorem settled_withdrawn_kept {k : Nat} {slot : PendingSlot canon}
    (h : ((s.withdrawn sources).settled e barrier taken cache).pending[k]? = some slot) :
    s.pending[k]? = some slot := by
  have h' : (eraseAll ((s.withdrawn sources).anchored e.cursor barrier).pending
      (factsFrom (e.cursor + 1) taken))[k]? = some slot := h
  rw [getElem?_eraseAll, getElem?_anchored, getElem?_withdrawn hs hdrained] at h'
  split at h'
  · cases h'
  · split at h'
    · cases h'
    · split at h'
      · cases h'
      · exact h'

/-- Nothing but its candidates stops an application that drains none. -/
theorem withdrawn_drained : (s.withdrawn sources).Drained
    ((s.withdrawn sources).supersedes e.cursor barrier) e.cursor [] := by
  refine hdrained.rest (Nat.zero_le _) (fun j hj hj' => ?_) (fun j slot hslot => ?_)
    fun j hsup hreached => ⟨hsup, hreached⟩
  · rw [getElem?_withdrawn hs hdrained, if_pos ⟨hj, hj'⟩]
  · rw [getElem?_withdrawn hs hdrained] at hslot
    split at hslot
    · cases hslot
    · exact hslot

/-- The state without the candidates applies the delivery as well. -/
theorem withdrawn_reaches (h : Invariant.Reaches s e barrier) :
    Invariant.Reaches (s.withdrawn sources) e barrier := by
  refine ⟨?_, h.next_le, h.unblocked, h.eligible, h.where_⟩
  rw [getElem?_withdrawn hs hdrained, if_neg fun hk => Nat.lt_irrefl _ hk.1]
  exact h.fresh

section Next

variable {source : PreparedEnvelope canon} {rest : List (PreparedEnvelope canon)}
  (hsources : taken ++ source :: rest = sources)

include hsources

/-- The next candidate stands right behind what is settled. -/
theorem next_cursor : source.cursor = e.cursor + 1 + taken.length := by
  have hlt := next_lt hsources
  have hcursor := hdrained.consecutive hs taken.length hlt
  rwa [next_get hsources hlt] at hcursor

theorem next_candidate : s.pending[source.cursor]? = some (.candidate source) := by
  have hlt := next_lt hsources
  have hpending := hdrained.pending taken.length hlt
  rw [next_get hsources hlt] at hpending
  rwa [next_cursor hs hdrained hsources]

/-- The next candidate is applied on what is settled. -/
theorem next_reaches : Invariant.Reaches
    ((s.withdrawn sources).settled e barrier taken cache) source false := by
  have hlt := next_lt hsources
  have hcursor := next_cursor hs hdrained hsources
  have hclear := (hs.candidate (next_candidate hs hdrained hsources)).2
  have hnext : ((s.withdrawn sources).settled e barrier taken cache).next = source.cursor := by
    rw [next_of_some (show _ = some (e.cursor + taken.length) from rfl), hcursor]
    omega
  have hfloor := @settled_withdrawn_floor canon s e barrier sources cache taken taken.length
    hdrained hlt
  rw [← hcursor] at hfloor
  have hblocks : ¬ ((s.withdrawn sources).settled e barrier taken cache).unavailableBlocks
      source = true := by
    rw [unavailableBlocks_iff]
    rintro ⟨lo, hlo, hle, -⟩
    exact Bool.false_ne_true (hfloor.symm.trans (floorReached_iff.mpr ⟨lo, hlo, hle⟩))
  exact
    { fresh := getElem?_settled_withdrawn hs hdrained (by omega) (by omega)
      next_le := Nat.le_of_eq hnext
      unblocked := Bool.eq_false_iff.mpr hblocks
      eligible := by simp [eligibleBarrier, hclear]
      where_ := fun _ => .inl hnext.symm }

/-- It drains nothing itself. -/
theorem next_drained : ((s.withdrawn sources).settled e barrier taken cache).Drained
    (((s.withdrawn sources).settled e barrier taken cache).supersedes source.cursor false)
    source.cursor [] := by
  have hlt := next_lt hsources
  have hcursor : source.cursor = e.cursor + (taken.length + 1) := by
    rw [next_cursor hs hdrained hsources]
    omega
  rw [hcursor]
  refine hdrained.rest hlt (fun j hj hj' => getElem?_settled_withdrawn hs hdrained hj hj')
    (fun j slot hslot => settled_withdrawn_kept hs hdrained hslot) fun j hsup hreached => ?_
  refine ⟨rfl, ?_⟩
  rw [settled_floorReached]
  show (!s.supersedes e.cursor barrier && s.floorReached j) = true
  rw [hsup, hreached]
  rfl

end Next

/-- Admitting the next candidate on what is settled settles it too. -/
theorem admitOne_agree {status : SessionStatus} {source : PreparedEnvelope canon}
    {rest : List (PreparedEnvelope canon)} {keys : Finset CacheKey} {room : Nat} (howns : s.Owns)
    (hopen : s.failed = false) (hstatus : status ≠ .failed) (hbytes : s.pendingBytes < 2 ^ 64)
    (hsources : taken ++ source :: rest = sources)
    (hcache : cache.Projects s.limits s.view keys)
    (hroom : cache.missingRemoves + (removedHashes source.mutations + room) < 2 ^ 64) :
    Agree (fun cache' u => u = (s.withdrawn sources).settled e barrier (taken ++ [source]) cache')
      ((cache.apply source.mutations s.limits).mapError Failure.error)
      (((s.withdrawn sources).settled e barrier taken cache).admitOne status source) := by
  have hlt := next_lt hsources
  have hcursor := next_cursor hs hdrained hsources
  have hwithdrawn : s.SameStream (s.withdrawn sources) := ⟨rfl, rfl, rfl, rfl, rfl, rfl⟩
  have hsame : s.SameStream ((s.withdrawn sources).settled e barrier taken cache) :=
    hwithdrawn.trans settled_same
  generalize hu : (s.withdrawn sources).settled e barrier taken cache = u at hsame ⊢
  have haccepts : u.Accepts source :=
    (howns _ _ (next_candidate hs hdrained hsources)).of_same hsame
  have hacc : u.Accounted := by
    rw [← hu]
    rfl
  have hbytes' : u.pendingBytes < 2 ^ 64 := by
    have hle : weight PendingSlot.canonicalBytes u.pending ≤
        weight PendingSlot.canonicalBytes s.pending :=
      weight_le_of_subset _ fun k slot h => settled_withdrawn_kept hs hdrained (hu ▸ h)
    have hacc' : s.pendingBytes = weight PendingSlot.canonicalBytes s.pending := hs.accounted
    rw [show u.pendingBytes = _ from hacc]
    omega
  have hview : u.view = cache.finish.commit s.view := by
    rw [← hu]
    rfl
  -- the batch goes on where the single admission starts over
  have hcontinues := CacheTransaction.Continues.of_projects hcache hroom
  rw [← hview] at hcontinues
  have hfolds : Agree (CacheTransaction.Continues s.view u.view cache.missingRemoves room)
      (cache.apply source.mutations s.limits) (u.plannedCache source false []) := by
    rw [plannedCache_nil, hsame.limits]
    exact CacheTransaction.apply_agree hcontinues
  have hsettles := applySource_eq hacc hbytes' (fun h => by cases h)
    (hu ▸ next_drained hs hdrained hsources)
  have hreaches : Invariant.Reaches u source false := hu ▸ next_reaches hs hdrained hsources
  rw [admitOne_eq (hsame.failed.trans hopen) hstatus, haccepts.applySource_eq hreaches]
  refine (hfolds.mapError.trans hsettles).map_right fun cache' r hr => ?_
  obtain ⟨next, hnext, rfl⟩ := hr
  subst hu
  refine settled_snoc hcursor
    (getElem?_anchored_withdrawn hs hdrained (by omega) (by omega)) ?_ hnext.missingRemoves
  refine (hnext.commit_eq ?_).symm
  rw [hview, CacheTransaction.commit_scope]

/-- Admitting the remaining candidates settles them all. -/
theorem admitAll_agree {status : SessionStatus} (howns : s.Owns) (hopen : s.failed = false)
    (hstatus : status ≠ .failed) (hbytes : s.pendingBytes < 2 ^ 64)
    {rest : List (PreparedEnvelope canon)} :
    ∀ {taken : List (PreparedEnvelope canon)} {cache : CacheTransaction} {keys : Finset CacheKey},
      taken ++ rest = sources → cache.Projects s.limits s.view keys →
      cache.missingRemoves + removedHashes (rest.flatMap PreparedEnvelope.mutations) < 2 ^ 64 →
      Agree (fun cache' u => u = (s.withdrawn sources).settled e barrier sources cache')
        ((applyAll s.limits cache rest).mapError Failure.error)
        (((s.withdrawn sources).settled e barrier taken cache).admitAll status rest) := by
  induction rest with
  | nil =>
      intro taken cache keys hsources _ _
      rw [List.append_nil] at hsources
      subst hsources
      exact .ok rfl
  | cons source rest ih =>
      intro taken cache keys hsources hcache hroom
      rw [List.flatMap_cons, removedHashes_append] at hroom
      have hone := (@admitOne_agree canon s e barrier sources cache taken hs hdrained status source
        rest keys _ howns hopen hstatus hbytes hsources hcache hroom).results
      unfold applyAll admitAll
      rw [List.foldlM_cons, List.foldlM_cons, mapError_bind]
      refine hone.bind fun cache' u hu => ?_
      obtain ⟨rfl, happly, -⟩ := hu
      have happly' := mapError_eq_ok.mp happly
      refine ih ?_ (CacheTransaction.apply_ok hcache happly') ?_
      · rw [List.append_assoc]
        exact hsources
      · exact CacheTransaction.apply_room hcache.1.toWellFormed hroom happly'

end Stepwise

/-! ### The whole batch -/

/-- With room in the counters the candidates only fail at a cache ceiling. -/
theorem applyAll_error {limits : Limits} {keys : Finset CacheKey} {error : StateError}
    (hkeys : storedKeys (sources.flatMap PreparedEnvelope.mutations) ⊆ keys)
    (ht : cache.Roomy limits keys (removedHashes (sources.flatMap PreparedEnvelope.mutations)))
    (h : applyAll limits cache sources = .error error) :
    CacheTransaction.CacheExhausted limits error := by
  have hstored : ∀ source ∈ sources, storedKeys source.mutations ⊆ keys := by
    intro source hsource key hkey
    obtain ⟨mutation, hmutation, hkey⟩ := mem_storedKeys.mp hkey
    exact hkeys (mem_storedKeys.mpr
      ⟨mutation, List.mem_flatMap_of_mem hsource hmutation, hkey⟩)
  rw [removedHashes_flatMap, ← Nat.add_zero (List.sum _)] at ht
  refine foldlM_error_budget (fun source hsource budget u u' hu hs => ?_)
    (fun source hsource budget u error hu hs => ?_) ht h
  · exact CacheTransaction.apply_roomy (hstored source hsource) hu hs
  · exact CacheTransaction.apply_error (hstored source hsource) hu hs

/-- With room in the counters an application only fails at a cache ceiling. -/
theorem plannedCache_error {keys : Finset CacheKey} {error : StateError}
    (hview : s.view.Bounded s.limits) (hkeys : s.view.keys ⊆ keys)
    (hfits : FitsCounters s.limits keys (e.mutations ++ sources.flatMap PreparedEnvelope.mutations))
    (h : s.plannedCache e barrier sources = .error error) :
    CacheTransaction.CacheExhausted s.limits error := by
  have hstored := hfits.stored
  rw [storedKeys_append, Finset.union_subset_iff] at hstored
  obtain ⟨hstored, hrest⟩ := hstored
  have hfolded : storedKeys (foldedMutations e barrier) ⊆ keys :=
    (storedKeys_drop _ _).trans hstored
  have hnew := CacheTransaction.roomy_new hview hkeys hfits
  rw [removedHashes_append] at hnew
  have hroom := hnew.mono (Nat.add_le_add_right
    (removedHashes_drop e.mutations (if barrier then e.firstClear.getD 0 else 0)) _)
  unfold plannedCache at h
  cases hfirst : (CacheTransaction.new s.view).apply (foldedMutations e barrier) s.limits with
  | error error' =>
      rw [hfirst] at h
      obtain rfl := Except.error.inj h
      exact CacheTransaction.apply_error hfolded hroom hfirst
  | ok first =>
      rw [hfirst] at h
      exact applyAll_error hrest (CacheTransaction.apply_roomy hfolded hroom hfirst) h

/-- What is settled does not depend on whether the candidates are still
pending. -/
theorem settled_withdrawn (hs : s.Core)
    (hdrained : s.Drained (s.supersedes e.cursor barrier) e.cursor sources) :
    (s.withdrawn sources).settled e barrier sources cache = s.settled e barrier sources cache := by
  apply settled_congr
  apply ExtTreeMap.ext_getElem?
  intro k
  rw [getElem?_eraseAll, getElem?_eraseAll]
  by_cases hk : e.cursor < k ∧ k ≤ e.cursor + sources.length
  · rw [if_pos hk, if_pos hk]
  · have hkept : (s.withdrawn sources).pending[k]? = s.pending[k]? := by
      rw [getElem?_withdrawn hs hdrained, if_neg hk]
    rw [if_neg hk, if_neg hk, getElem?_anchored, getElem?_anchored]
    exact if_congr Iff.rfl rfl hkept

/-- The batch and the single steps fail alike or leave the same state. -/
theorem batch_agree {status : SessionStatus} (hs : s.Invariant) (howns : s.Owns)
    (hopen : s.failed = false) (hstatus : status ≠ .failed) (ha : s.Accepts e)
    (hreaches : Invariant.Reaches s e barrier)
    (hdrained : s.Drained (s.supersedes e.cursor barrier) e.cursor sources)
    (hremoves : removedHashes (e.mutations ++ sources.flatMap PreparedEnvelope.mutations) <
      2 ^ 64) :
    Agree (fun r u => r = (if barrier then Disposition.barrierApplied else .applied, u))
      (s.admitInner e) ((s.withdrawn sources).admitAll status (e :: sources)) := by
  have hclear := ha.hasClear_of_reaches hreaches
  have hbytes := hs.pendingBytes_lt
  have hwithdrawn : s.SameStream (s.withdrawn sources) := ⟨rfl, rfl, rfl, rfl, rfl, rfl⟩
  have hbatch := applySource_eq hs.accounted hbytes hclear hdrained
  -- the first single step: the delivery alone
  have hfirst := applySource_eq (withdrawn_accounted hs.toCore hdrained)
    (Nat.lt_of_le_of_lt (Nat.sub_le _ _) hbytes) hclear (withdrawn_drained hs.toCore hdrained)
  rw [plannedCache_nil] at hfirst
  have hone : Agree (fun first u => u = (s.withdrawn sources).settled e barrier [] first)
      (((CacheTransaction.new s.view).apply (foldedMutations e barrier) s.limits).mapError
        Failure.error) ((s.withdrawn sources).admitOne status e) := by
    rw [admitOne_eq (hwithdrawn.failed.trans hopen) hstatus, (ha.of_same hwithdrawn).applySource_eq
      (withdrawn_reaches hs.toCore hdrained hreaches)]
    exact hfirst.map_right fun first r hr => congrArg Prod.snd hr
  -- the others: the remaining candidates
  have hall : Agree (fun cache u => u = (s.withdrawn sources).settled e barrier sources cache)
      ((s.plannedCache e barrier sources).mapError Failure.error)
      ((s.withdrawn sources).admitAll status (e :: sources)) := by
    unfold plannedCache admitAll
    rw [mapError_bind, List.foldlM_cons]
    refine hone.results.bind fun first u hu => ?_
    obtain ⟨rfl, happly, -⟩ := hu
    have happly' := mapError_eq_ok.mp happly
    have hnew := CacheTransaction.projects_new hs.view
    refine admitAll_agree hs.toCore hdrained howns hopen hstatus hbytes rfl
      (CacheTransaction.apply_ok hnew happly') ?_
    refine CacheTransaction.apply_room hnew.1.toWellFormed ?_ happly'
    show 0 + (removedHashes (foldedMutations e barrier) + _) < 2 ^ 64
    have hdrop := removedHashes_drop e.mutations (if barrier then e.firstClear.getD 0 else 0)
    rw [removedHashes_append] at hremoves
    unfold foldedMutations
    omega
  rw [ha.applySource_eq hreaches]
  refine (hbatch.symm.trans hall).mono fun r u hr => ?_
  obtain ⟨cache, rfl, rfl⟩ := hr
  rw [settled_withdrawn hs.toCore hdrained]

/-- A failing `admit_inner` sets the `failed` flag and nothing else. -/
theorem admitDelivery_of_error {status : SessionStatus} {failure : Failure}
    (hopen : s.failed = false) (hstatus : status ≠ .failed)
    (h : s.admitInner e = .error failure) :
    s.admitDelivery status e = (.error failure, { s with failed := true }) := by
  rw [StreamState.admitDelivery, hopen, if_neg Bool.false_ne_true, if_neg hstatus, h]

/-- With room in the counters an application fails at a cache ceiling only. -/
theorem applySource_error {keys : Finset CacheKey} {failure : Failure} (hs : s.Invariant)
    (hclear : barrier = true → e.hasClear = true)
    (hdrained : s.Drained (s.supersedes e.cursor barrier) e.cursor sources)
    (hkeys : s.view.keys ⊆ keys)
    (hfits : FitsCounters s.limits keys (e.mutations ++ sources.flatMap PreparedEnvelope.mutations))
    (h : s.applySource e barrier = .error failure) :
    ∃ error, failure = .error error ∧ CacheTransaction.CacheExhausted s.limits error := by
  have hagree := applySource_eq hs.accounted hs.pendingBytes_lt hclear hdrained
  cases hcache : s.plannedCache e barrier sources with
  | error error =>
      rw [hcache, h] at hagree
      cases hagree
      exact ⟨error, rfl, plannedCache_error hs.view hkeys hfits hcache⟩
  | ok cache =>
      rw [hcache, h] at hagree
      cases hagree

/-- A failed state answers every call with `StateFailed` and stays as it is. -/
structure Dead (s : StreamState canon) : Prop where
  admission : ∀ status e, s.admitDelivery status e = (.error (.error .stateFailed), s)
  finish : ∀ status sealedSession, s.finish status sealedSession = .error .stateFailed

theorem dead_of_failed (h : s.failed = true) : s.Dead where
  admission := fun status e => by rw [StreamState.admitDelivery, if_pos h]
  finish := fun status sealedSession => by
    unfold StreamState.finish
    rw [rejectIf, if_pos h]
    rfl

/-- A delivery that is applied together with the candidates behind it succeeds
exactly when the delivery and the candidates succeed one at a time, on the
state without the candidates, and then leaves the same state.  If one of the
single steps fails, the batch fails with its error, a cache ceiling, and
changes nothing but the `failed` flag. -/
theorem draining_stepwise {blueprint : StreamBlueprint} {status : SessionStatus}
    (hs : Reachable blueprint s) (hopen : s.failed = false) (hstatus : status ≠ .failed)
    (ha : s.Accepts e) (hreaches : Invariant.Reaches s e barrier)
    (hdrained : s.Drained (s.supersedes e.cursor barrier) e.cursor sources)
    (hkeys : (s.view.keys ∪ storedKeys ((e :: sources).flatMap PreparedEnvelope.mutations)).card <
      2 ^ 64)
    (hbytes : keyBytes
      (s.view.keys ∪ storedKeys ((e :: sources).flatMap PreparedEnvelope.mutations)) < 2 ^ 64)
    (hremoves : removedHashes ((e :: sources).flatMap PreparedEnvelope.mutations) < 2 ^ 64) :
    (∀ s', (∃ d, s.admitDelivery status e = (.ok d, s')) ↔
      (s.withdrawn sources).admitAll status (e :: sources) = .ok s') ∧
    (∀ failure, (s.withdrawn sources).admitAll status (e :: sources) = .error failure →
      s.admitDelivery status e = (.error failure, { s with failed := true }) ∧
        ∃ error, failure = .error error ∧ CacheTransaction.CacheExhausted s.limits error) ∧
    ∀ failure s', s.admitDelivery status e = (.error failure, s') →
      s' = { s with failed := true } ∧ s'.Dead := by
  have hinv := hs.invariant
  have hfits : FitsCounters s.limits
      (s.view.keys ∪ storedKeys ((e :: sources).flatMap PreparedEnvelope.mutations))
      ((e :: sources).flatMap PreparedEnvelope.mutations) :=
    ⟨Finset.subset_union_right, countersHold_of_lt hkeys hbytes, hremoves⟩
  have hagree := @batch_agree canon s e barrier sources status hinv hs.owns hopen hstatus ha
    hreaches hdrained hremoves
  generalize hsteps : (s.withdrawn sources).admitAll status (e :: sources) = steps at hagree
  cases hinner : s.admitInner e with
  | ok r =>
      rw [hinner] at hagree
      cases hagree with
      | @ok _ u h =>
          subst h
          have hdelivers := admitDelivery_eq_ok.mpr ⟨hopen, hstatus, hinner⟩
          rw [hdelivers]
          refine ⟨fun s' => ?_, fun failure h => (nomatch h), fun failure s' h => (nomatch h)⟩
          constructor
          · rintro ⟨d, h⟩
            rw [(Prod.mk.inj h).2]
          · intro h
            exact ⟨_, congrArg (Prod.mk _) (Except.ok.inj h)⟩
  | error failure =>
      have hdelivers := admitDelivery_of_error hopen hstatus hinner
      rw [hinner] at hagree
      cases hagree with
      | error =>
          rw [hdelivers]
          refine ⟨fun s' => ?_, fun failure' h => ?_, fun failure' s' h => ?_⟩
          · constructor
            · rintro ⟨d, h⟩
              cases h
            · intro h
              cases h
          · obtain rfl := Except.error.inj h
            rw [ha.applySource_eq hreaches] at hinner
            exact ⟨rfl, applySource_error hinv (ha.hasClear_of_reaches hreaches) hdrained
              Finset.subset_union_left hfits hinner⟩
          · obtain rfl := (Prod.mk.inj h).2
            exact ⟨rfl, dead_of_failed rfl⟩

theorem Step.eq_of_buffered (h : s.Step e .buffered s') :
    s' = (s.bufferPending e).recomputeCertainty := by
  cases h
  rfl

end StreamState

namespace Sample

open StreamState

/-- The second store waits for the first one. -/
def waiting : StreamState canonical := ((fresh .default).bufferPending early).recomputeCertainty

theorem reachable_waiting : Reachable (blueprint .default) waiting := by
  have hearly : (fresh .default).Step early .buffered (deliver (fresh .default) [early]) :=
    (admits_of_result (by decide +kernel)).step
  have hreachable : Reachable (blueprint .default) (deliver (fresh .default) [early]) :=
    .deliver .fresh .open_ early
  rwa [hearly.eq_of_buffered] at hreachable

end Sample

namespace StreamState

/-- The waiting store is drained with the delivery it waits for. -/
theorem draining_of_swapped_deliveries :
    (∃ d, Sample.waiting.admitDelivery .open_ Sample.late =
      (.ok d, (Sample.waiting.admitDelivery .open_ Sample.late).2)) ∧
    (Sample.waiting.withdrawn [Sample.early]).admitAll .open_ [Sample.late, Sample.early] =
      .ok (Sample.waiting.admitDelivery .open_ Sample.late).2 := by
  have hpending : Sample.waiting.pending[Sample.late.cursor + 1]? =
      some (.candidate Sample.early) := ExtTreeMap.getElem?_insert_self
  have hlast : Sample.waiting.pending[Sample.late.cursor + 1 + 1]? = none := rfl
  have hdrained : Sample.waiting.Drained (Sample.waiting.supersedes Sample.late.cursor false)
      Sample.late.cursor [Sample.early] := by
    refine .cons hpending (fun _ => rfl) (.nil (by decide) (.inr (.inr fun source hsource => ?_)))
    cases hlast.symm.trans hsource
  have hreaches : Invariant.Reaches Sample.waiting Sample.late false :=
    ⟨rfl, Nat.le_refl _, rfl, rfl, fun _ => .inl rfl⟩
  have hbatch := draining_stepwise Sample.reachable_waiting rfl
    (show SessionStatus.open_ ≠ .failed by decide) ⟨rfl, rfl, Nat.le_refl _⟩ hreaches hdrained
    (by decide +kernel) (by decide +kernel) (by decide +kernel)
  have happlied : (Sample.waiting.admitDelivery .open_ Sample.late).1 = .ok .applied := by
    decide +kernel
  have hdelivers : ∃ d, Sample.waiting.admitDelivery .open_ Sample.late =
      (.ok d, (Sample.waiting.admitDelivery .open_ Sample.late).2) :=
    ⟨_, delivers_of_result happlied⟩
  exact ⟨hdelivers, (hbatch.1 _).mp hdelivers⟩

end StreamState

end KvCrucible
