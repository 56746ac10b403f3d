/-
KvCrucible/TracePlan.lean

Planning a schedule is replaying it.

The validator does not keep the list of live occurrences: it counts the
occurrences of every source and remembers the removed ones.  `Tracks` says
that this bookkeeping is the replay's, so that a reference resolves exactly
when it names a live occurrence, and an action is planned exactly when the
replay allows it and the two work ceilings leave room.
-/
import KvCrucible.Replay

namespace KvCrucible

open Basis Std

/-! ### Checked counters -/

theorem checkedLimit_eq_ok {record current added n : Nat} {resource : Resource}
    {maximum : UInt64} :
    checkedLimit record resource current added maximum = .ok n ↔
      current + added = n ∧ n ≤ maximum.toNat := by
  have hmax := maximum.toNat_lt
  unfold checkedLimit
  rw [bind_eq_ok]
  constructor
  · rintro ⟨observed, hadd, h⟩
    obtain ⟨_, hle, h⟩ := bind_eq_ok.mp h
    obtain rfl := pure_eq_ok.mp h
    rw [rejectIf_eq_ok] at hle
    exact ⟨(checkedAdd_eq_some.mp (okOr_eq_ok.mp hadd)).1, Nat.le_of_not_lt hle⟩
  · rintro ⟨rfl, hle⟩
    refine ⟨current + added, okOr_eq_ok.mpr (checkedAdd_eq_some.mpr ⟨rfl, by omega⟩), ?_⟩
    exact bind_eq_ok.mpr ⟨(), rejectIf_eq_ok.mpr (Nat.not_lt_of_le hle), rfl⟩

theorem countLen_eq_ok {length record n : Nat} :
    countLen length record = .ok n ↔ length = n ∧ n < 2 ^ 64 := by
  unfold countLen
  by_cases h : length < 2 ^ 64
  · rw [if_pos h, Except.ok.injEq]
    constructor
    · rintro rfl
      exact ⟨rfl, h⟩
    · exact And.left
  · rw [if_neg h]
    simp only [reduceCtorEq, false_iff]
    omega

theorem addIdentityBytes_eq_ok {record added n : Nat} {value : String} :
    addIdentityBytes record added value = .ok n ↔ added + len value = n ∧ n < 2 ^ 64 := by
  unfold addIdentityBytes
  rw [bind_eq_ok]
  constructor
  · rintro ⟨length, hlength, h⟩
    obtain ⟨rfl, -⟩ := countLen_eq_ok.mp hlength
    exact checkedAdd_eq_some.mp (okOr_eq_ok.mp h)
  · rintro ⟨rfl, hlt⟩
    exact ⟨len value, countLen_eq_ok.mpr ⟨rfl, by omega⟩,
      okOr_eq_ok.mpr (checkedAdd_eq_some.mpr ⟨rfl, hlt⟩)⟩

theorem foldlM_addIdentityBytes_eq_ok {record : Nat} {values : List String} :
    ∀ {added n : Nat}, added < 2 ^ 64 →
      (values.foldlM (addIdentityBytes record) added = .ok n ↔
        added + (values.map len).sum = n ∧ n < 2 ^ 64) := by
  induction values with
  | nil =>
      intro added n hadded
      rw [List.foldlM_nil, pure_eq_ok, List.map_nil, List.sum_nil, Nat.add_zero]
      constructor
      · rintro rfl
        exact ⟨rfl, hadded⟩
      · exact And.left
  | cons value values ih =>
      intro added n hadded
      rw [List.foldlM_cons, bind_eq_ok, List.map_cons, List.sum_cons]
      constructor
      · rintro ⟨first, hfirst, h⟩
        obtain ⟨rfl, hlt⟩ := addIdentityBytes_eq_ok.mp hfirst
        obtain ⟨hsum, hn⟩ := (ih hlt).mp h
        exact ⟨by omega, hn⟩
      · rintro ⟨hsum, hn⟩
        have hlt : added + len value < 2 ^ 64 := by omega
        exact ⟨_, addIdentityBytes_eq_ok.mpr ⟨rfl, hlt⟩, (ih hlt).mpr ⟨by omega, hn⟩⟩

theorem checkedIdentityBytes_eq_ok {record current n : Nat} {values : List String}
    {maximum : UInt64} :
    checkedIdentityBytes record current values maximum = .ok n ↔
      current + (values.map len).sum = n ∧ n ≤ maximum.toNat := by
  have hmax := maximum.toNat_lt
  unfold checkedIdentityBytes
  rw [bind_eq_ok]
  constructor
  · rintro ⟨added, hadded, h⟩
    obtain ⟨hsum, -⟩ := (foldlM_addIdentityBytes_eq_ok (Nat.two_pow_pos 64)).mp hadded
    rw [Nat.zero_add] at hsum
    rw [hsum]
    exact checkedLimit_eq_ok.mp h
  · rintro ⟨hsum, hle⟩
    refine ⟨(values.map len).sum, ?_, checkedLimit_eq_ok.mpr ⟨hsum, hle⟩⟩
    exact (foldlM_addIdentityBytes_eq_ok (Nat.two_pow_pos 64)).mpr ⟨Nat.zero_add _, by omega⟩

/-! ### Record-local validation of actions -/

/-- What record-local validation establishes about an action. -/
def FaultAction.Valid : FaultAction → Prop
  | .drop _ => True
  | .duplicate _ copies => copies ≠ 0
  | .moveBefore target anchor => target ≠ anchor

theorem ValidationContext.validateAction_ok {c c' : ValidationContext} {action : FaultAction}
    (h : c.validateAction action = .ok c') : action.Valid := by
  cases action with
  | drop target => trivial
  | duplicate target copies =>
      obtain ⟨_, -, h⟩ := bind_eq_ok.mp h
      obtain ⟨_, hcopies, -⟩ := bind_eq_ok.mp h
      rw [rejectIf_eq_ok, not_or] at hcopies
      exact hcopies.1
  | moveBefore target anchor =>
      obtain ⟨_, -, h⟩ := bind_eq_ok.mp h
      obtain ⟨_, -, h⟩ := bind_eq_ok.mp h
      obtain ⟨_, hne, -⟩ := bind_eq_ok.mp h
      rw [rejectIf_eq_ok] at hne
      exact hne

/-- The actions of a validated schedule are valid. -/
theorem Record.validate_faultSchedule {schedule : FaultSchedule} {limits : Limits}
    (h : (Record.faultSchedule schedule).validate limits = .ok ()) :
    ∀ action ∈ schedule.actions, action.Valid := by
  obtain ⟨_, h, -⟩ := bind_eq_ok.mp h
  obtain ⟨_, -, h⟩ := bind_eq_ok.mp h
  obtain ⟨_, -, h⟩ := bind_eq_ok.mp h
  obtain ⟨_, hactions, -⟩ := bind_eq_ok.mp h
  exact foldlM_forall ValidationContext.validateAction_ok hactions

namespace TraceValidator

/-! ### Resolving references -/

variable {v : TraceValidator} {ids : List String} {r : Replay} {copies record index : Nat}
  {plan plan' : PlanState}

/-- The envelope index of a validator numbers `ids` in order. -/
structure Indexes (v : TraceValidator) (ids : List String) : Prop where
  lookup : ∀ id, v.envelopes[id]? = if id ∈ ids then some (ids.idxOf id) else none
  size : v.envelopes.size = ids.length

/-- The bookkeeping of `plan_schedule` is that of the replay after so many
copies. -/
structure Tracks (v : TraceValidator) (prefixLen : Nat) (r : Replay) (copies : Nat)
    (plan : PlanState) : Prop where
  next : ∀ source, plan.next source = r.next source
  live : ∀ key, key ∈ r.live ↔ key.source < prefixLen ∧ key.occurrence < r.next key.source ∧
    key ∉ plan.removed
  removed : ∀ key ∈ plan.removed, key.occurrence < r.next key.source
  numbered : Replay.Numbered prefixLen r
  occurrences : plan.occurrences = prefixLen + copies
  occurrences_le : plan.occurrences ≤ v.limits.maxOccurrencesPerSchedule.toNat
  work : plan.work = prefixLen + copies

/-- A reference resolves exactly when it names a live occurrence. -/
theorem resolveDelivery_eq_ok (hv : v.Indexes ids) (ht : v.Tracks ids.length r copies plan)
    {delivery : DeliveryRef} {role : DeliveryRole} {key : DeliveryKey} :
    v.resolveDelivery record index delivery role plan = .ok key ↔
      Replay.keyOf ids delivery = key ∧ key ∈ r.live := by
  unfold resolveDelivery
  rw [bind_eq_ok]
  constructor
  · rintro ⟨source, hsource, h⟩
    obtain ⟨_, hcreated, h⟩ := bind_eq_ok.mp h
    obtain ⟨_, hremoved, h⟩ := bind_eq_ok.mp h
    obtain rfl := pure_eq_ok.mp h
    rw [okOr_eq_ok, hv.lookup] at hsource
    rw [rejectIf_eq_ok, ht.next] at hcreated
    rw [rejectIf_eq_ok] at hremoved
    split at hsource
    next hmem =>
      obtain rfl := Option.some.inj hsource
      exact ⟨rfl, (ht.live _).mpr ⟨List.idxOf_lt_length_of_mem hmem, Nat.lt_of_not_le hcreated,
        hremoved⟩⟩
    next => cases hsource
  · rintro ⟨rfl, hlive⟩
    obtain ⟨hknown, hcreated, hremoved⟩ := (ht.live _).mp hlive
    have hmem : delivery.envelopeId ∈ ids := List.idxOf_lt_length_iff.mp hknown
    refine ⟨ids.idxOf delivery.envelopeId, ?_, ?_⟩
    · rw [okOr_eq_ok, hv.lookup, if_pos hmem]
    · refine bind_eq_ok.mpr ⟨(), ?_, bind_eq_ok.mpr ⟨(), rejectIf_eq_ok.mpr hremoved, rfl⟩⟩
      rw [rejectIf_eq_ok, ht.next]
      exact Nat.not_le_of_lt hcreated

/-- Different live references name different occurrences. -/
theorem keyOf_ne (ht : v.Tracks ids.length r copies plan) {target anchor : DeliveryRef}
    (htarget : Replay.keyOf ids target ∈ r.live) (hne : target ≠ anchor) :
    Replay.keyOf ids target ≠ Replay.keyOf ids anchor := by
  intro heq
  have hmem : target.envelopeId ∈ ids := List.idxOf_lt_length_iff.mp (ht.numbered.known _ htarget)
  have hsource : ids.idxOf target.envelopeId = ids.idxOf anchor.envelopeId :=
    congrArg DeliveryKey.source heq
  have hoccurrence : target.occurrence.toNat = anchor.occurrence.toNat :=
    congrArg DeliveryKey.occurrence heq
  refine hne ?_
  have hid := (List.idxOf_inj hmem).mp hsource
  have hocc := UInt16.toNat_inj.mp hoccurrence
  cases target
  cases anchor
  exact congr (congrArg DeliveryRef.mk hid) hocc

/-! ### Planning actions -/

/-- Dropping a live occurrence. -/
theorem Tracks.drop (ht : v.Tracks ids.length r copies plan) {target : DeliveryRef}
    (h : Replay.keyOf ids target ∈ r.live) (actions : List PlannedAction) :
    v.Tracks ids.length (r.apply ids (.drop target)) copies
      { plan with
        removed := insert (Replay.keyOf ids target) plan.removed
        actions := actions } where
  next := ht.next
  live := fun key => by
    show key ∈ r.live.erase (Replay.keyOf ids target) ↔ _
    rw [ht.numbered.nodup.mem_erase_iff, ht.live, Finset.mem_insert, not_or]
    constructor
    · rintro ⟨hne, hknown, hcreated, hremoved⟩
      exact ⟨hknown, hcreated, hne, hremoved⟩
    · rintro ⟨hknown, hcreated, hne, hremoved⟩
      exact ⟨hne, hknown, hcreated, hremoved⟩
  removed := fun key hkey => by
    rcases Finset.mem_insert.mp hkey with rfl | hkey
    · exact ht.numbered.used _ h
    · exact ht.removed key hkey
  numbered := Replay.Numbered.apply ht.numbered (show r.Allows ids (.drop target) from h)
  occurrences := ht.occurrences
  occurrences_le := ht.occurrences_le
  work := ht.work

/-- Duplicating a live occurrence. -/
theorem Tracks.duplicate (ht : v.Tracks ids.length r copies plan) {target : DeliveryRef}
    {added : UInt16} (h : r.Allows ids (.duplicate target added))
    (hle : plan.occurrences + added.toNat ≤ v.limits.maxOccurrencesPerSchedule.toNat)
    (actions : List PlannedAction) :
    v.Tracks ids.length (r.apply ids (.duplicate target added)) (copies + added.toNat)
      { plan with
        occurrences := plan.occurrences + added.toNat
        work := plan.work + added.toNat
        nextOccurrence := plan.nextOccurrence.insert (Replay.keyOf ids target).source
          (plan.next (Replay.keyOf ids target).source + added.toNat)
        actions := actions } where
  next := fun source => by
    show ((plan.nextOccurrence.insert _ _)[source]?).getD 1 = Function.update r.next _ _ source
    rw [ExtTreeMap.getElem?_insert]
    by_cases hsource : source = (Replay.keyOf ids target).source
    · rw [hsource, Function.update_self, if_pos (Nat.compare_eq_eq.mpr rfl), Option.getD_some,
        ht.next]
    · rw [Function.update_of_ne hsource, if_neg fun hc => hsource (Nat.compare_eq_eq.mp hc).symm]
      exact ht.next source
  live := fun key => by
    have hperm : (r.apply ids (.duplicate target added)).live.Perm _ := insertAfter_perm h.1
    obtain ⟨htarget, hcreated, -⟩ := (ht.live _).mp h.1
    show key ∈ (r.apply ids (.duplicate target added)).live ↔ _ ∧
      key.occurrence < Function.update r.next _ _ key.source ∧ key ∉ plan.removed
    rw [hperm.mem_iff, List.mem_append, Replay.mem_unused, ht.live]
    by_cases hsource : key.source = (Replay.keyOf ids target).source
    · rw [hsource, Function.update_self]
      constructor
      · rintro (⟨-, hle, hlt⟩ | ⟨hknown, hlt, hremoved⟩)
        · -- a number that was unused was never removed
          refine ⟨htarget, hlt, fun hremoved => ?_⟩
          have := ht.removed key hremoved
          rw [hsource] at this
          omega
        · exact ⟨hknown, by omega, hremoved⟩
      · rintro ⟨hknown, hlt, hremoved⟩
        rcases Nat.lt_or_ge key.occurrence (r.next (Replay.keyOf ids target).source) with hold | hnew
        · exact .inr ⟨hknown, hold, hremoved⟩
        · exact .inl ⟨rfl, hnew, hlt⟩
    · rw [Function.update_of_ne hsource]
      exact ⟨fun hor => hor.resolve_left fun hnew => hsource hnew.1, .inr⟩
  removed := fun key hkey => by
    have hused := ht.removed key hkey
    show key.occurrence < Function.update r.next _ _ key.source
    by_cases hsource : key.source = (Replay.keyOf ids target).source
    · rw [hsource, Function.update_self]
      rw [hsource] at hused
      omega
    · rwa [Function.update_of_ne hsource]
  numbered := ht.numbered.apply h
  occurrences := by
    show plan.occurrences + added.toNat = _
    rw [ht.occurrences, Nat.add_assoc]
  occurrences_le := hle
  work := by
    show plan.work + added.toNat = _
    rw [ht.work, Nat.add_assoc]

/-- Moving a live occurrence before another one. -/
theorem Tracks.moveBefore (ht : v.Tracks ids.length r copies plan) {target anchor : DeliveryRef}
    (h : r.Allows ids (.moveBefore target anchor)) (actions : List PlannedAction) :
    v.Tracks ids.length (r.apply ids (.moveBefore target anchor)) copies
      { plan with actions := actions } where
  next := ht.next
  live := fun key => by
    rw [(ht.numbered.moveBefore_perm h).mem_iff]
    exact ht.live key
  removed := ht.removed
  numbered := ht.numbered.apply h
  occurrences := ht.occurrences
  occurrences_le := ht.occurrences_le
  work := ht.work

/-- A planned action is allowed, and planned as the replay says. -/
theorem planAction_sound (hv : v.Indexes ids) (ht : v.Tracks ids.length r copies plan)
    {action : FaultAction} (hvalid : action.Valid)
    (h : v.planAction record plan index action = .ok plan') :
    r.Allows ids action ∧ v.Tracks ids.length (r.apply ids action) (copies + action.copies) plan' ∧
      plan'.actions = plan.actions ++ [r.planned ids action] := by
  cases action with
  | drop target =>
      obtain ⟨key, hkey, h⟩ := bind_eq_ok.mp h
      obtain rfl := pure_eq_ok.mp h
      obtain ⟨rfl, hlive⟩ := (resolveDelivery_eq_ok hv ht).mp hkey
      exact ⟨hlive, ht.drop hlive _, rfl⟩
  | duplicate target added =>
      obtain ⟨key, hkey, h⟩ := bind_eq_ok.mp h
      obtain ⟨rfl, hlive⟩ := (resolveDelivery_eq_ok hv ht).mp hkey
      obtain ⟨newNext, hnewNext, h⟩ := bind_eq_ok.mp h
      obtain ⟨_, hnumbers, h⟩ := bind_eq_ok.mp h
      obtain ⟨first, hfirst, h⟩ := bind_eq_ok.mp h
      obtain ⟨occurrences, hoccurrences, h⟩ := bind_eq_ok.mp h
      obtain ⟨work, hwork, h⟩ := bind_eq_ok.mp h
      obtain ⟨_, -, h⟩ := bind_eq_ok.mp h
      obtain rfl := pure_eq_ok.mp h
      rw [okOr_eq_ok] at hnewNext hfirst hwork
      rw [rejectIf_eq_ok] at hnumbers
      obtain ⟨rfl, hle⟩ := checkedLimit_eq_ok.mp hoccurrences
      obtain ⟨rfl, -⟩ := checkedAdd_eq_some.mp hwork
      obtain rfl : plan.next (Replay.keyOf ids target).source + added.toNat = newNext := by
        unfold checkedAddU32 at hnewNext
        split at hnewNext
        · exact Option.some.inj hnewNext
        · cases hnewNext
      obtain rfl : plan.next (Replay.keyOf ids target).source = first := by
        unfold toU16 at hfirst
        split at hfirst
        · exact Option.some.inj hfirst
        · cases hfirst
      have hallows : r.Allows ids (.duplicate target added) := by
        refine ⟨hlive, ?_⟩
        rw [ht.next] at hnumbers
        unfold u16Max at hnumbers
        omega
      refine ⟨hallows, ht.duplicate hallows hle _, ?_⟩
      rw [ht.next]
      rfl
  | moveBefore target anchor =>
      obtain ⟨key, hkey, h⟩ := bind_eq_ok.mp h
      obtain ⟨rfl, htarget⟩ := (resolveDelivery_eq_ok hv ht).mp hkey
      obtain ⟨key, hkey, h⟩ := bind_eq_ok.mp h
      obtain ⟨rfl, hanchor⟩ := (resolveDelivery_eq_ok hv ht).mp hkey
      obtain rfl := pure_eq_ok.mp h
      have hallows : r.Allows ids (.moveBefore target anchor) :=
        ⟨htarget, hanchor, keyOf_ne ht htarget hvalid⟩
      exact ⟨hallows, ht.moveBefore hallows _, rfl⟩

/-- An allowed action within both work ceilings is planned. -/
theorem planAction_complete (hv : v.Indexes ids) (ht : v.Tracks ids.length r copies plan)
    {action : FaultAction} (hvalid : action.Valid) (hallows : r.Allows ids action)
    (hoccurrences : ids.length + (copies + action.copies) ≤
      v.limits.maxOccurrencesPerSchedule.toNat)
    (hwork : v.scheduleWork + (ids.length + (copies + action.copies)) ≤
      v.limits.maxScheduleWorkPerTrace.toNat) :
    ∃ plan', v.planAction record plan index action = .ok plan' := by
  cases action with
  | drop target =>
      exact ⟨_, bind_ok ((resolveDelivery_eq_ok hv ht).mpr ⟨rfl, hallows⟩) rfl⟩
  | duplicate target added =>
      have hmax := v.limits.maxScheduleWorkPerTrace.toNat_lt
      have hadded : added.toNat ≠ 0 := fun h => hvalid (UInt16.toNat_inj.mp h)
      have hnumbers := hallows.2
      rw [← ht.next] at hnumbers
      have hcopies : FaultAction.copies (.duplicate target added) = added.toNat := rfl
      rw [hcopies] at hoccurrences hwork
      have hplan := ht.occurrences
      have hplanWork := ht.work
      have hkey : v.resolveDelivery record index target .target plan =
          .ok (Replay.keyOf ids target) := (resolveDelivery_eq_ok hv ht).mpr ⟨rfl, hallows.1⟩
      have hnewNext : checkedAddU32 (plan.next (Replay.keyOf ids target).source) added.toNat =
          some _ := if_pos (by omega)
      have hfirst : toU16 (plan.next (Replay.keyOf ids target).source) = some _ :=
        if_pos (by omega)
      have hbelow : rejectIf (plan.next (Replay.keyOf ids target).source + added.toNat >
          u16Max + 1) (TraceError.faultOccurrenceOverflow record index) = .ok () := by
        rw [rejectIf_eq_ok, u16Max]
        omega
      have hlimit : checkedLimit record .scheduleOccurrences plan.occurrences added.toNat
          v.limits.maxOccurrencesPerSchedule = .ok (plan.occurrences + added.toNat) :=
        checkedLimit_eq_ok.mpr ⟨rfl, by omega⟩
      have hsum : checkedAdd plan.work added.toNat = some (plan.work + added.toNat) :=
        checkedAdd_eq_some.mpr ⟨rfl, by omega⟩
      have hbudget : checkedLimit record .scheduleWork v.scheduleWork (plan.work + added.toNat)
          v.limits.maxScheduleWorkPerTrace = .ok (v.scheduleWork + (plan.work + added.toNat)) :=
        checkedLimit_eq_ok.mpr ⟨rfl, by omega⟩
      exact ⟨_, bind_ok hkey <| bind_ok (okOr_eq_ok.mpr hnewNext) <|
        bind_ok hbelow <| bind_ok (okOr_eq_ok.mpr hfirst) <|
        bind_ok hlimit <| bind_ok (okOr_eq_ok.mpr hsum) <| bind_ok hbudget rfl⟩
  | moveBefore target anchor =>
      exact ⟨_, bind_ok ((resolveDelivery_eq_ok hv ht).mpr ⟨rfl, hallows.1⟩) <|
        bind_ok ((resolveDelivery_eq_ok hv ht).mpr ⟨rfl, hallows.2.1⟩) rfl⟩

/-! ### Planning schedules -/

/-- The loop of `plan_schedule`. -/
theorem planActions_sound (hv : v.Indexes ids) {actions : List FaultAction} :
    ∀ {r : Replay} {copies index : Nat} {plan plan' : PlanState},
      (∀ action ∈ actions, action.Valid) → v.Tracks ids.length r copies plan →
      (actions.zipIdx index).foldlM
        (fun plan action => v.planAction record plan action.2 action.1) plan = .ok plan' →
      Replay.AllowsAll ids r actions ∧
        v.Tracks ids.length (r.run ids actions) (copies + totalCopies actions) plan' ∧
        plan'.actions = plan.actions ++ Replay.plannedAll ids r actions := by
  induction actions with
  | nil =>
      intro r copies index plan plan' _ ht h
      obtain rfl := pure_eq_ok.mp h
      exact ⟨trivial, ht, (List.append_nil _).symm⟩
  | cons action actions ih =>
      intro r copies index plan plan' hvalid ht h
      rw [List.zipIdx_cons, List.foldlM_cons] at h
      obtain ⟨plan₁, h₁, h₂⟩ := bind_eq_ok.mp h
      rw [List.forall_mem_cons] at hvalid
      obtain ⟨hallows, ht₁, hactions₁⟩ := planAction_sound hv ht hvalid.1 h₁
      obtain ⟨hall, ht', hactions'⟩ := ih hvalid.2 ht₁ h₂
      have htotal : totalCopies (action :: actions) = action.copies + totalCopies actions := by
        simp [totalCopies]
      refine ⟨⟨hallows, hall⟩, ?_, ?_⟩
      · rw [htotal, ← Nat.add_assoc]
        exact ht'
      · rw [hactions', hactions₁, List.append_assoc]
        rfl

theorem planActions_complete (hv : v.Indexes ids) {actions : List FaultAction} :
    ∀ {r : Replay} {copies index : Nat} {plan : PlanState},
      (∀ action ∈ actions, action.Valid) → v.Tracks ids.length r copies plan →
      Replay.AllowsAll ids r actions →
      ids.length + (copies + totalCopies actions) ≤ v.limits.maxOccurrencesPerSchedule.toNat →
      v.scheduleWork + (ids.length + (copies + totalCopies actions)) ≤
        v.limits.maxScheduleWorkPerTrace.toNat →
      ∃ plan', (actions.zipIdx index).foldlM
        (fun plan action => v.planAction record plan action.2 action.1) plan = .ok plan' := by
  induction actions with
  | nil =>
      intro r copies index plan _ _ _ _ _
      exact ⟨plan, rfl⟩
  | cons action actions ih =>
      intro r copies index plan hvalid ht hall hoccurrences hwork
      rw [List.forall_mem_cons] at hvalid
      have htotal : totalCopies (action :: actions) = action.copies + totalCopies actions := by
        simp [totalCopies]
      rw [htotal] at hoccurrences hwork
      have hfirst : ∃ plan₁, v.planAction record plan index action = .ok plan₁ :=
        planAction_complete hv ht hvalid.1 hall.1 (by omega) (by omega)
      obtain ⟨plan₁, h₁⟩ := hfirst
      obtain ⟨-, ht₁, -⟩ := planAction_sound hv ht hvalid.1 h₁
      obtain ⟨plan', h₂⟩ := ih hvalid.2 ht₁ hall.2 (by omega) (by omega)
      refine ⟨plan', ?_⟩
      rw [List.zipIdx_cons, List.foldlM_cons]
      exact bind_eq_ok.mpr ⟨plan₁, h₁, h₂⟩

theorem tracks_start (h : ids.length ≤ v.limits.maxOccurrencesPerSchedule.toNat) :
    v.Tracks ids.length (Replay.start ids.length) 0
      { occurrences := ids.length, work := ids.length, nextOccurrence := ∅, removed := ∅,
        actions := [] } where
  next := fun source => by
    show ((∅ : ExtTreeMap Nat Nat)[source]?).getD 1 = 1
    rw [ExtTreeMap.getElem?_empty]
    rfl
  live := fun key => by
    show key ∈ (List.range ids.length).map _ ↔ key.source < ids.length ∧ key.occurrence < 1 ∧ _
    rw [List.mem_map]
    constructor
    · rintro ⟨source, hsource, rfl⟩
      exact ⟨List.mem_range.mp hsource, Nat.one_pos, Finset.notMem_empty _⟩
    · rintro ⟨hsource, hoccurrence, -⟩
      refine ⟨key.source, List.mem_range.mpr hsource, ?_⟩
      rw [← Nat.lt_one_iff.mp hoccurrence]
  removed := fun key hkey => absurd hkey (Finset.notMem_empty key)
  numbered := Replay.numbered_start _
  occurrences := rfl
  occurrences_le := h
  work := rfl

/-- A schedule is planned exactly when the replay allows all of it and the
ceilings leave room, up to the work check its caller makes. -/
theorem planSchedule_sound (hv : v.Indexes ids) {schedule : FaultSchedule}
    (hvalid : ∀ action ∈ schedule.actions, action.Valid) {planned : Nat × List PlannedAction}
    (h : v.planSchedule record schedule = .ok planned) :
    Replay.AllowsAll ids (Replay.start ids.length) schedule.actions ∧
      ids.length + totalCopies schedule.actions ≤ v.limits.maxOccurrencesPerSchedule.toNat ∧
      planned = (ids.length + totalCopies schedule.actions,
        Replay.plannedAll ids (Replay.start ids.length) schedule.actions) := by
  obtain ⟨prefixLen, hprefix, h⟩ := bind_eq_ok.mp h
  obtain ⟨occurrences, hoccurrences, h⟩ := bind_eq_ok.mp h
  obtain ⟨plan, hplan, h⟩ := bind_eq_ok.mp h
  obtain rfl := pure_eq_ok.mp h
  obtain ⟨rfl, -⟩ := countLen_eq_ok.mp hprefix
  obtain ⟨rfl, hle⟩ := checkedLimit_eq_ok.mp hoccurrences
  rw [hv.size, Nat.zero_add] at hplan hle
  obtain ⟨hall, ht, hactions⟩ := planActions_sound hv hvalid (tracks_start hle) hplan
  have hbound := ht.occurrences_le
  have hwork := ht.work
  rw [ht.occurrences, Nat.zero_add] at hbound
  rw [Nat.zero_add] at hwork
  exact ⟨hall, hbound, Prod.ext hwork hactions⟩

theorem planSchedule_complete (hv : v.Indexes ids) {schedule : FaultSchedule}
    (hvalid : ∀ action ∈ schedule.actions, action.Valid)
    (hall : Replay.AllowsAll ids (Replay.start ids.length) schedule.actions)
    (hoccurrences : ids.length + totalCopies schedule.actions ≤
      v.limits.maxOccurrencesPerSchedule.toNat)
    (hwork : v.scheduleWork + (ids.length + totalCopies schedule.actions) ≤
      v.limits.maxScheduleWorkPerTrace.toNat) :
    ∃ planned, v.planSchedule record schedule = .ok planned := by
  have hmax := v.limits.maxOccurrencesPerSchedule.toNat_lt
  have hle : ids.length ≤ v.limits.maxOccurrencesPerSchedule.toNat := by omega
  have hactions : ∃ plan, (schedule.actions.zipIdx 0).foldlM
      (fun plan action => v.planAction record plan action.2 action.1)
      { occurrences := ids.length, work := ids.length, nextOccurrence := ∅, removed := ∅,
        actions := [] } = .ok plan :=
    planActions_complete hv hvalid (tracks_start hle) hall (by omega) (by omega)
  obtain ⟨plan, hplan⟩ := hactions
  refine ⟨(plan.work, plan.actions), bind_eq_ok.mpr ⟨ids.length, ?_, bind_eq_ok.mpr
    ⟨ids.length, ?_, bind_eq_ok.mpr ⟨plan, hplan, rfl⟩⟩⟩⟩
  · exact countLen_eq_ok.mpr ⟨hv.size, by omega⟩
  · exact checkedLimit_eq_ok.mpr ⟨Nat.zero_add _, hle⟩

end TraceValidator

end KvCrucible
