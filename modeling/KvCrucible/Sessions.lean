/-
KvCrucible/Sessions.lean

Moving envelopes, blueprints and states to another session.

A session only ever serves to compare it with another one.  `rebind` replaces
the session of a value and of everything in it; whoever holds one session in
all places cannot tell the difference: every operation of a stream state
commutes with `rebind` (`admitInner_rebind`), and a summary has no session
left (`finish_rebind`).
-/
import KvCrucible.State

namespace KvCrucible

open Basis Std

variable {canon : Canonical}

/-- The envelope in another session. -/
def PreparedEnvelope.rebind (session : SessionId) (e : PreparedEnvelope canon) :
    PreparedEnvelope canon :=
  { e with session := session }

/-- The blueprint in another session. -/
def StreamBlueprint.rebind (session : SessionId) (blueprint : StreamBlueprint) : StreamBlueprint :=
  { blueprint with session := session }

/-- The pending slot in another session. -/
def PendingSlot.rebind (session : SessionId) : PendingSlot canon → PendingSlot canon
  | .candidate source => .candidate (source.rebind session)
  | .conflict first second => .conflict first second

@[simp] theorem PendingSlot.canonicalBytes_rebind (session : SessionId) (slot : PendingSlot canon) :
    (slot.rebind session).canonicalBytes = slot.canonicalBytes := by
  cases slot <;> rfl

@[simp] theorem PendingSlot.evidence_rebind (session : SessionId) (slot : PendingSlot canon) :
    (slot.rebind session).evidence = slot.evidence := by
  cases slot <;> rfl

/-- The pending map in another session. -/
def rebindPending (session : SessionId) (pending : ExtTreeMap Nat (PendingSlot canon)) :
    ExtTreeMap Nat (PendingSlot canon) :=
  pending.map fun _ slot => PendingSlot.rebind session slot

section Pending

variable (session : SessionId) (pending : ExtTreeMap Nat (PendingSlot canon))

theorem getElem?_rebindPending (cursor : Nat) : (rebindPending session pending)[cursor]? =
    pending[cursor]?.map (PendingSlot.rebind session) :=
  ExtTreeMap.getElem?_map

@[simp] theorem rebindPending_empty :
    rebindPending session (∅ : ExtTreeMap Nat (PendingSlot canon)) = ∅ := by
  refine ExtTreeMap.ext_getElem? fun k => ?_
  rw [getElem?_rebindPending]
  simp

theorem rebindPending_insert (cursor : Nat) (slot : PendingSlot canon) :
    rebindPending session (pending.insert cursor slot) =
      (rebindPending session pending).insert cursor (slot.rebind session) :=
  map_insert pending cursor slot

theorem rebindPending_erase (cursor : Nat) : rebindPending session (pending.erase cursor) =
    (rebindPending session pending).erase cursor :=
  map_erase pending cursor

@[simp] theorem isEmpty_rebindPending : (rebindPending session pending).isEmpty =
    pending.isEmpty :=
  isEmpty_map pending

@[simp] theorem size_rebindPending : (rebindPending session pending).size = pending.size :=
  ExtTreeMap.size_map

/-- Rebinding the slots keeps the byte total. -/
@[simp] theorem pendingBytesOf_rebindPending :
    pendingBytesOf (rebindPending session pending) = pendingBytesOf pending := by
  unfold pendingBytesOf rebindPending
  rw [ExtTreeMap.toList_map, List.foldlM_map]
  simp only [PendingSlot.canonicalBytes_rebind]

theorem splitOff_rebindPending (next : Nat) : splitOff (rebindPending session pending) next =
    (rebindPending session (splitOff pending next).1,
      rebindPending session (splitOff pending next).2) :=
  Prod.ext (map_filter pending fun cursor => decide (cursor < next)).symm
    (map_filter pending fun cursor => !decide (cursor < next)).symm

end Pending

namespace StreamState

/-- The state in another session. -/
def rebind (session : SessionId) (s : StreamState canon) : StreamState canon :=
  { s with
    session := session
    pending := rebindPending session s.pending }

/-- A result of an admission in another session. -/
def rebindResult (session : SessionId) (result : Disposition × StreamState canon) :
    Disposition × StreamState canon :=
  (result.1, result.2.rebind session)

variable {session : SessionId} {s : StreamState canon} {e : PreparedEnvelope canon}

theorem fromBlueprint_rebind (blueprint : StreamBlueprint) :
    (fromBlueprint (blueprint.rebind session) : StreamState canon) =
      (fromBlueprint blueprint).rebind session := by
  unfold rebind
  rw [show (fromBlueprint blueprint : StreamState canon).pending = ∅ from rfl,
    rebindPending_empty]
  rfl

/-! ### What commutes -/

theorem recomputeCertainty_rebind :
    (s.rebind session).recomputeCertainty = s.recomputeCertainty.rebind session := by
  have hcertainty : (s.rebind session).certaintyOf = s.certaintyOf := by
    unfold certaintyOf
    rw [show (s.rebind session).pending.isEmpty = s.pending.isEmpty from
      isEmpty_rebindPending session s.pending]
    rfl
  unfold recomputeCertainty
  rw [hcertainty]
  rfl

theorem setEquivocation_rebind (cursor : Nat) (invalidatesView : Bool) :
    (s.rebind session).setEquivocation cursor invalidatesView =
      (s.setEquivocation cursor invalidatesView).rebind session := by
  cases invalidatesView <;> rfl

theorem handlePendingRedelivery_rebind :
    (s.rebind session).handlePendingRedelivery (e.rebind session) =
      (s.handlePendingRedelivery e).map (Option.map (rebindResult session)) := by
  have hget : (s.rebind session).pending[(e.rebind session).cursor]? =
      s.pending[e.cursor]?.map (PendingSlot.rebind session) :=
    getElem?_rebindPending session s.pending e.cursor
  unfold handlePendingRedelivery
  rw [hget]
  cases s.pending[e.cursor]? with
  | none => rfl
  | some slot =>
      rw [Option.map_some]
      dsimp only
      rw [PendingSlot.evidence_rebind, PendingSlot.canonicalBytes_rebind]
      show _ = Except.map _ _
      rw [show (e.rebind session).fingerprint = e.fingerprint from rfl]
      cases slot.evidence.classify e.fingerprint with
      | duplicate => rfl
      | conflict first =>
          dsimp only
          rw [show (s.rebind session).pendingBytes = s.pendingBytes from rfl]
          cases expect (checkedSub s.pendingBytes slot.canonicalBytes)
              "a pending candidate's bytes must be accounted" with
          | error failure => rfl
          | ok bytes =>
              have hinsert := rebindPending_insert session s.pending e.cursor
                (.conflict first e.fingerprint)
              refine congrArg (fun t => Except.ok (some (Disposition.equivocation, t))) ?_
              rw [← recomputeCertainty_rebind, ← setEquivocation_rebind]
              unfold rebind tally
              rw [hinsert]
              rfl
      | additionalConflict =>
          refine congrArg (fun t => Except.ok (some (Disposition.equivocation, t))) ?_
          rw [← recomputeCertainty_rebind, ← setEquivocation_rebind]
          rfl

theorem handlePastDelivery_rebind :
    (s.rebind session).handlePastDelivery (e.rebind session) =
      rebindResult session (s.handlePastDelivery e) := by
  unfold handlePastDelivery
  rw [show (s.rebind session).recent[(e.rebind session).cursor]? = s.recent[e.cursor]? from rfl]
  cases s.recent[e.cursor]? with
  | none =>
      dsimp only
      rw [show (e.rebind session).hasClear = e.hasClear from rfl]
      cases e.hasClear <;> rfl
  | some slot =>
      dsimp only
      rw [show (e.rebind session).fingerprint = e.fingerprint from rfl]
      cases slot.classify e.fingerprint with
      | duplicate => rfl
      | conflict first =>
          refine congrArg (Prod.mk Disposition.equivocation) ?_
          dsimp only
          rw [← recomputeCertainty_rebind, ← setEquivocation_rebind]
          rfl
      | additionalConflict =>
          refine congrArg (Prod.mk Disposition.equivocation) ?_
          dsimp only
          rw [← recomputeCertainty_rebind, ← setEquivocation_rebind]
          rfl

theorem pendingRoom_rebind :
    (s.rebind session).pendingRoom (e.rebind session) = s.pendingRoom e := by
  unfold pendingRoom
  rw [show (s.rebind session).pending.size = s.pending.size from
    size_rebindPending session s.pending]
  rfl

theorem buffer_rebind (expected : Nat) : (s.rebind session).buffer (e.rebind session) expected =
    (s.buffer e expected).map (rebindResult session) := by
  unfold buffer
  rw [pendingRoom_rebind, show (e.rebind session).cursor = e.cursor from rfl,
    show (s.rebind session).pendingBytes = s.pendingBytes from rfl,
    show (s.rebind session).limits = s.limits from rfl,
    show (e.rebind session).canonicalBytes = e.canonicalBytes from rfl]
  cases expect (checkedSub e.cursor expected) "attempt to subtract with overflow" with
  | error failure => rfl
  | ok span =>
      dsimp only [Bind.bind, Except.bind]
      by_cases hspan : span > s.limits.maxGapSpanPerStream.toNat
      · rw [if_pos hspan, if_pos hspan]
        refine congrArg (fun t => Except.ok (Disposition.gapLimit, t)) ?_
        dsimp only
        rw [← recomputeCertainty_rebind]
        rfl
      · rw [if_neg hspan, if_neg hspan]
        cases s.pendingRoom e with
        | false =>
            refine congrArg (fun t => Except.ok (Disposition.pendingLimit, t)) ?_
            dsimp only
            rw [← recomputeCertainty_rebind]
            rfl
        | true =>
            simp only [Bool.not_true, Bool.false_eq_true, if_false]
            cases expect (checkedAdd s.pendingBytes e.canonicalBytes)
                "checked pending bytes were accepted" with
            | error failure => rfl
            | ok bytes =>
                have hinsert := rebindPending_insert session s.pending e.cursor (.candidate e)
                refine congrArg (fun t => Except.ok (Disposition.buffered, t)) ?_
                dsimp only
                rw [← recomputeCertainty_rebind]
                unfold rebind
                rw [hinsert]
                rfl

/-! ### Applications -/

/-- The drained candidates are the same, and with them the plan. -/
theorem drain_rebind (supersedes : Bool) {room : Nat} :
    ∀ (cursor : Nat) (cache : CacheTransaction) (applied : List AppliedFact),
      (s.rebind session).drain supersedes room cursor cache applied =
        s.drain supersedes room cursor cache applied := by
  induction room with
  | zero => exact fun _ _ _ => rfl
  | succ room ih =>
      intro cursor cache applied
      have hget : (s.rebind session).pending[cursor + 1]? =
          s.pending[cursor + 1]?.map (PendingSlot.rebind session) :=
        getElem?_rebindPending session s.pending (cursor + 1)
      unfold drain
      rw [show (s.rebind session).floorReached (cursor + 1) = s.floorReached (cursor + 1) from rfl,
        hget]
      by_cases hfloor : (!supersedes && s.floorReached (cursor + 1)) = true
      · rw [if_pos hfloor, if_pos hfloor]
      · rw [if_neg hfloor, if_neg hfloor]
        cases s.pending[cursor + 1]? with
        | none => rfl
        | some slot =>
            cases slot with
            | conflict first second => rfl
            | candidate source =>
                show (cache.apply source.mutations s.limits >>= fun cache => _) =
                  (cache.apply source.mutations s.limits >>= fun cache => _)
                simp only [ih]
                rfl

theorem applicationPlan_rebind (start : Nat) (authoritative barrier : Bool) :
    (s.rebind session).applicationPlan (e.rebind session) start authoritative barrier =
      s.applicationPlan e start authoritative barrier := by
  unfold applicationPlan
  simp only [drain_rebind]
  rfl

theorem splitPending_rebind (cursor : Nat) : (s.rebind session).splitPending cursor =
    (rebindPending session (s.splitPending cursor).1,
      rebindPending session (s.splitPending cursor).2) := by
  unfold splitPending
  cases checkedAdd cursor 1 with
  | none =>
      dsimp only
      rw [rebindPending_empty]
      rfl
  | some next => exact splitOff_rebindPending session s.pending next

theorem commitAnchor_rebind (cursor : Nat) (barrier : Bool) :
    (s.rebind session).commitAnchor cursor barrier =
      (s.commitAnchor cursor barrier).map (rebind session) := by
  cases barrier with
  | false => rfl
  | true =>
      show (s.rebind session).commitBarrier cursor = (s.commitBarrier cursor).map (rebind session)
      unfold commitBarrier
      rw [splitPending_rebind, pendingBytesOf_rebindPending]
      cases pendingBytesOf (s.splitPending cursor).1 with
      | error failure => rfl
      | ok discarded =>
          show (expect (checkedSub s.pendingBytes discarded) _ >>= _) = _
          cases hbytes : expect (checkedSub s.pendingBytes discarded)
              "discarded pending bytes must be part of the total" with
          | error failure =>
              show _ = Except.map _ (expect (checkedSub s.pendingBytes discarded) _ >>= _)
              rw [hbytes]
              rfl
          | ok bytes =>
              show _ = Except.map _ (expect (checkedSub s.pendingBytes discarded) _ >>= _)
              rw [hbytes]
              rfl

theorem removePending_rebind (index cursor : Nat) :
    (s.rebind session).removePending index cursor =
      (s.removePending index cursor).map (rebind session) := by
  have hget : (s.rebind session).pending[cursor]? =
      s.pending[cursor]?.map (PendingSlot.rebind session) :=
    getElem?_rebindPending session s.pending cursor
  unfold removePending
  by_cases hindex : index = 0
  · rw [if_pos hindex, if_pos hindex]
    rfl
  · rw [if_neg hindex, if_neg hindex, hget]
    cases s.pending[cursor]? with
    | none => rfl
    | some slot =>
        rw [Option.map_some]
        dsimp only
        rw [PendingSlot.canonicalBytes_rebind,
          show (s.rebind session).pendingBytes = s.pendingBytes from rfl]
        cases expect (checkedSub s.pendingBytes slot.canonicalBytes)
            "a drained pending candidate's bytes must be accounted" with
        | error failure => rfl
        | ok bytes =>
            have herase := rebindPending_erase session s.pending cursor
            refine congrArg Except.ok ?_
            unfold rebind
            rw [herase]

theorem commitFact_rebind (fact : AppliedFact) (index : Nat) :
    (s.rebind session).commitFact fact index =
      (s.commitFact fact index).map (rebind session) := by
  unfold commitFact
  rw [removePending_rebind]
  cases s.removePending index fact.cursor with
  | error failure => rfl
  | ok s' => rfl

theorem commitApplication_rebind (plan : ApplicationPlan) (cursor : Nat)
    (barrier authoritative : Bool) :
    (s.rebind session).commitApplication plan cursor barrier authoritative =
      (s.commitApplication plan cursor barrier authoritative).map (rebind session) := by
  unfold commitApplication
  rw [commitAnchor_rebind]
  cases s.commitAnchor cursor barrier with
  | error failure => rfl
  | ok anchored =>
      have hview : ({ anchored.rebind session with
            view := plan.cache.commit (anchored.rebind session).view } : StreamState canon) =
          ({ anchored with view := plan.cache.commit anchored.view }).rebind session := rfl
      have hfold : ∀ t : StreamState canon, plan.applied.zipIdx.foldlM
          (fun (s : StreamState canon) fact => s.commitFact fact.1 fact.2) (t.rebind session) =
            (plan.applied.zipIdx.foldlM (fun (s : StreamState canon) fact =>
              s.commitFact fact.1 fact.2) t).map (rebind session) := fun t =>
        foldlM_map_state (fun _ => True)
          (fun fact _ _ _ => ⟨commitFact_rebind fact.1 fact.2, fun _ _ => trivial⟩) t trivial
      show (plan.applied.zipIdx.foldlM (fun s fact => s.commitFact fact.1 fact.2)
        { anchored.rebind session with
          view := plan.cache.commit (anchored.rebind session).view } >>= _) =
        Except.map _ (plan.applied.zipIdx.foldlM (fun s fact => s.commitFact fact.1 fact.2)
          { anchored with view := plan.cache.commit anchored.view } >>= _)
      rw [hview, hfold]
      cases plan.applied.zipIdx.foldlM (fun s fact => s.commitFact fact.1 fact.2)
          { anchored with view := plan.cache.commit anchored.view } with
      | error failure => rfl
      | ok committed =>
          refine congrArg Except.ok ?_
          rw [← recomputeCertainty_rebind]
          rfl

theorem applySource_rebind (barrier : Bool) :
    (s.rebind session).applySource (e.rebind session) barrier =
      (s.applySource e barrier).map (rebindResult session) := by
  unfold applySource
  rw [show applicationStart (e.rebind session) barrier = applicationStart e barrier from rfl]
  cases applicationStart e barrier with
  | error failure => rfl
  | ok start =>
      dsimp only [Bind.bind, Except.bind]
      rw [show (s.rebind session).viewAuthoritative = s.viewAuthoritative from rfl,
        applicationPlan_rebind]
      cases s.applicationPlan e start (if barrier = true then true else s.viewAuthoritative)
          barrier with
      | error failure => rfl
      | ok plan =>
          dsimp only
          rw [commitApplication_rebind, show (e.rebind session).cursor = e.cursor from rfl]
          cases s.commitApplication plan e.cursor barrier
              (if barrier = true then true else s.viewAuthoritative) with
          | error failure => rfl
          | ok s' => rfl

/-! ### Admissions -/

theorem admitExpected_rebind : (s.rebind session).admitExpected (e.rebind session) =
    (s.admitExpected e).map (rebindResult session) := by
  unfold admitExpected
  rw [show (s.rebind session).expectedCursor = s.expectedCursor from rfl,
    show (e.rebind session).cursor = e.cursor from rfl]
  cases s.expectedCursor with
  | none =>
      dsimp only
      rw [handlePastDelivery_rebind]
      rfl
  | some expected =>
      dsimp only
      by_cases heq : e.cursor = expected
      · rw [if_pos heq, if_pos heq, applySource_rebind]
      · rw [if_neg heq, if_neg heq]
        by_cases hgt : e.cursor > expected
        · rw [if_pos hgt, if_pos hgt, buffer_rebind]
        · rw [if_neg hgt, if_neg hgt, handlePastDelivery_rebind]
          rfl

theorem admitFresh_rebind : (s.rebind session).admitFresh (e.rebind session) =
    (s.admitFresh e).map (rebindResult session) := by
  unfold admitFresh
  rw [show (s.rebind session).isPast (e.rebind session).cursor = s.isPast e.cursor from rfl,
    show (s.rebind session).unavailableBlocks (e.rebind session) = s.unavailableBlocks e from rfl,
    show (s.rebind session).eligibleBarrier (e.rebind session) = s.eligibleBarrier e from rfl,
    show (s.rebind session).baselineUnknown = s.baselineUnknown from rfl,
    show (s.rebind session).frontier = s.frontier from rfl]
  by_cases hpast : s.isPast e.cursor = true
  · rw [if_pos hpast, if_pos hpast, handlePastDelivery_rebind]
    rfl
  · rw [if_neg hpast, if_neg hpast]
    by_cases hblocks : s.unavailableBlocks e = true
    · rw [if_pos hblocks, if_pos hblocks]
      refine congrArg (fun t => Except.ok (Disposition.unverifiableGap, t)) ?_
      rw [← recomputeCertainty_rebind]
      rfl
    · rw [if_neg hblocks, if_neg hblocks]
      by_cases heligible : s.eligibleBarrier e = true
      · rw [if_pos heligible, if_pos heligible, applySource_rebind]
      · rw [if_neg heligible, if_neg heligible]
        by_cases hunanchored : (s.baselineUnknown && s.frontier.isNone) = true
        · rw [if_pos hunanchored, if_pos hunanchored, applySource_rebind]
        · rw [if_neg hunanchored, if_neg hunanchored, admitExpected_rebind]

/-- A state and an envelope of one session can be moved to another one. -/
theorem admitInner_rebind (hsession : s.session = e.session) :
    (s.rebind session).admitInner (e.rebind session) =
      (s.admitInner e).map (rebindResult session) := by
  have hsame : ¬ (s.rebind session).session ≠ (e.rebind session).session := fun h => h rfl
  unfold admitInner
  rw [rejectIf_neg hsame, rejectIf_neg (not_not_intro hsession),
    show (e.rebind session).streamId = e.streamId from rfl,
    show (s.rebind session).streamId = s.streamId from rfl,
    show (e.rebind session).cursor = e.cursor from rfl,
    show (s.rebind session).initialCursor = s.initialCursor from rfl]
  by_cases hstream : e.streamId ≠ s.streamId
  · simp only [rejectIf, if_pos hstream]
    rfl
  · by_cases hcursor : e.cursor < s.initialCursor
    · simp only [rejectIf, if_neg hstream, if_pos hcursor]
      rfl
    · simp only [rejectIf, if_neg hstream, if_neg hcursor]
      dsimp only [Bind.bind, Except.bind]
      rw [handlePendingRedelivery_rebind]
      cases s.handlePendingRedelivery e with
      | error failure => rfl
      | ok redelivered =>
          cases redelivered with
          | some result => rfl
          | none => exact admitFresh_rebind

theorem admitDelivery_rebind (hsession : s.session = e.session) (status : SessionStatus) :
    (s.rebind session).admitDelivery status (e.rebind session) =
      ((s.admitDelivery status e).1, (s.admitDelivery status e).2.rebind session) := by
  unfold admitDelivery
  rw [show (s.rebind session).failed = s.failed from rfl, admitInner_rebind hsession]
  by_cases hfailed : s.failed = true
  · rw [if_pos hfailed, if_pos hfailed]
  · rw [if_neg hfailed, if_neg hfailed]
    by_cases hstatus : status = .failed
    · rw [if_pos hstatus, if_pos hstatus]
    · rw [if_neg hstatus, if_neg hstatus]
      cases s.admitInner e with
      | error failure => rfl
      | ok result => rfl

/-- A summary does not show its session. -/
theorem finish_rebind {sealedSession sealedSession' : SealedSession}
    (hsession : s.session = sealedSession.session) (hsession' : session = sealedSession'.session)
    (status : SessionStatus) :
    (s.rebind session).finish status sealedSession' = s.finish status sealedSession := by
  have hsame : ¬ (s.rebind session).session ≠ sealedSession'.session := not_not_intro hsession'
  unfold finish
  rw [rejectIf_neg hsame, rejectIf_neg (not_not_intro hsession),
    show (s.rebind session).failed = s.failed from rfl,
    show (s.rebind session).pending.isEmpty = s.pending.isEmpty from
      isEmpty_rebindPending session s.pending]
  have hsize : (s.rebind session).pending.size = s.pending.size :=
    size_rebindPending session s.pending
  cases s.pending.isEmpty with
  | true =>
      simp only [Bool.not_true, Bool.false_eq_true, if_false, hsize]
      rfl
  | false =>
      simp only [Bool.not_false, if_true, tally, hsize]
      rfl

end StreamState

end KvCrucible
