/-
KvCrucible/Work.lean

The work that validation charges is the work that materialization does.

The validator charges every schedule with the length of its prefix and the
copies it asks for, while it plans the actions; materialization counts the
occurrences of the plan again before it allocates them.  `allocated_eq` says
that both count the same, schedule by schedule, and `schedule_work` sums it up
over a sealed trace.  The deliveries are the allocated occurrences without the
dropped ones, each of them once.
-/
import KvCrucible.Interference

namespace KvCrucible

open Basis Std

variable {canon : Canonical}

/-- The occurrences that materializing a plan allocates. -/
def SchedulePlan.work (plan : SchedulePlan) : Nat :=
  plan.prefixLen + (plan.actions.map PlannedAction.copies).sum

theorem copies_planned {ids : List String} {r : Replay} {action : FaultAction} :
    (r.planned ids action).copies = action.copies := by
  cases action <;> rfl

/-- A plan allocates the copies that its record asks for. -/
theorem sum_copies_plannedAll {ids : List String} {actions : List FaultAction} :
    ∀ {r : Replay}, ((Replay.plannedAll ids r actions).map PlannedAction.copies).sum =
      totalCopies actions := by
  induction actions with
  | nil => exact fun {r} => rfl
  | cons action actions ih =>
      intro r
      rw [Replay.plannedAll, List.map_cons, List.sum_cons, ih, copies_planned, totalCopies,
        totalCopies, List.map_cons, List.sum_cons]

/-- The plan of a schedule allocates what the schedule was charged. -/
theorem workOf_eq (before : List Record) (record : Record) :
    workOf before record = (planOf before record).map SchedulePlan.work := by
  cases record with
  | faultSchedule schedule =>
      simp [SchedulePlan.work, sum_copies_plannedAll]
  | traceHeader header => rfl
  | stream stream => rfl
  | envelope envelope => rfl

/-- What a trace was charged is what its plans allocate. -/
theorem scheduleWorkOf_eq (records : List Record) :
    scheduleWorkOf records = ((plansOf records).map SchedulePlan.work).sum := by
  induction records using List.reverseRecOn with
  | nil => rfl
  | append_singleton records record ih =>
      rw [scheduleWorkOf_snoc, plansOf_snoc, List.map_append, List.sum_append, ih, workOf_eq]
      cases planOf records record with
      | none => rfl
      | some plan => rfl

/-! ### Materialized schedules -/

theorem foldlM_addCopies_ok {actions : List PlannedAction} :
    ∀ {allocated total : Nat}, actions.foldlM addCopies allocated = .ok total →
      total = allocated + (actions.map PlannedAction.copies).sum := by
  induction actions with
  | nil =>
      intro allocated total h
      exact (Except.ok.inj h).symm
  | cons action actions ih =>
      intro allocated total h
      obtain ⟨next, hnext, h⟩ := bind_eq_ok.mp h
      obtain ⟨rfl, -⟩ := checkedAdd_eq_some.mp (okOr_eq_ok.mp hnext)
      rw [ih h, List.map_cons, List.sum_cons, Nat.add_assoc]

/-- Materialization allocates the work of its plan, within the ceiling of one
schedule. -/
theorem materializeSchedule_work {allocator : Allocator} {plan : SchedulePlan}
    {sources : List (PreparedEnvelope canon)} {sourceStreams : List Nat} {streamCount : Nat}
    {limits : Limits} {materialized : MaterializedSchedule canon}
    (h : materializeSchedule allocator plan sources sourceStreams streamCount limits =
      .ok materialized) :
    materialized.allocatedOccurrences = plan.work ∧
      materialized.allocatedOccurrences ≤ limits.maxOccurrencesPerSchedule.toNat ∧
      materialized.sourcePrefixLen = plan.prefixLen := by
  obtain ⟨_, -, h⟩ := bind_eq_ok.mp h
  obtain ⟨allocated, hallocated, h⟩ := bind_eq_ok.mp h
  obtain ⟨_, hlimit, h⟩ := bind_eq_ok.mp h
  obtain ⟨_, -, h⟩ := bind_eq_ok.mp h
  obtain ⟨_, -, h⟩ := bind_eq_ok.mp h
  obtain ⟨_, -, h⟩ := bind_eq_ok.mp h
  obtain rfl := pure_eq_ok.mp h
  rw [rejectIf_eq_ok] at hlimit
  exact ⟨foldlM_addCopies_ok hallocated, Nat.le_of_not_lt hlimit, rfl⟩

namespace SealedTrace

variable {trace : SealedTrace canon} {session : SessionId} {limits : Limits}
  {records before after : List Record} {allocator : Allocator} {index : Nat}
  {schedule : FaultSchedule}

/-- The identity of a delivery. -/
def identityOf (delivery : ScheduledDelivery canon) : String × Nat :=
  (delivery.source.envelopeId, delivery.occurrence)

/-- Different occurrences are delivered with different identities. -/
theorem SealedFrom.identities_nodup (h : SealedFrom limits records trace)
    {keys : List DeliveryKey} {deliveries : List (ScheduledDelivery canon)}
    (hkeys : keys.Nodup)
    (hdeliveries : List.Forall₂ (Delivers trace.sources trace.sourceStreams) keys deliveries) :
    (deliveries.map identityOf).Nodup := by
  have hids : ∀ {key : DeliveryKey} {delivery : ScheduledDelivery canon},
      Delivers trace.sources trace.sourceStreams key delivery →
      (envelopeIdsOf records)[key.source]? = some delivery.source.envelopeId := by
    intro key delivery hdelivers
    rw [envelopeIdsOf, ← map_envelopeId h.sources, List.getElem?_map, hdelivers.source]
    rfl
  induction hdeliveries with
  | nil => exact List.nodup_nil
  | @cons key delivery keys deliveries hdelivers hrest ih =>
      obtain ⟨hnew, hkeys⟩ := List.nodup_cons.mp hkeys
      refine List.nodup_cons.mpr ⟨fun hmem => hnew ?_, ih hkeys⟩
      obtain ⟨delivery', hdelivery', heq⟩ := List.mem_map.mp hmem
      obtain ⟨i, hi⟩ := List.getElem?_of_mem hdelivery'
      obtain ⟨key', hkey', hdelivers'⟩ := getElem?_of_forall₂ hrest hi
      obtain ⟨hid, hoccurrence⟩ := Prod.mk.injEq .. ▸ heq
      have hsource : key'.source = key.source := by
        obtain ⟨hlt, -⟩ := List.getElem?_eq_some_iff.mp (hids hdelivers')
        refine (List.getElem?_inj hlt h.wellFormed.envelopeIds).mp ?_
        rw [hids hdelivers', hids hdelivers, hid]
      have hkey : key' = key := by
        cases key
        cases key'
        simp_all [hdelivers.occurrence, hdelivers'.occurrence]
      exact hkey ▸ List.mem_of_getElem? hkey'

/-- What materializing the schedule behind `before` allocates and delivers. -/
theorem SealedFrom.materialized_work (h : SealedFrom limits records trace)
    (hrecords : records = before ++ .faultSchedule schedule :: after)
    {materialized : MaterializedSchedule canon}
    (hmaterialize : trace.materialize allocator (schedulesOf before).length = .ok materialized) :
    materialized.sourcePrefixLen = (envelopesOf before).length ∧
      materialized.allocatedOccurrences =
        materialized.sourcePrefixLen + totalCopies schedule.actions ∧
      materialized.allocatedOccurrences ≤ limits.maxOccurrencesPerSchedule.toNat ∧
      materialized.deliveries.length + totalDrops schedule.actions =
        materialized.allocatedOccurrences ∧
      (materialized.deliveries.map identityOf).Nodup := by
  have hdeliveries := h.delivers hrecords hmaterialize
  obtain ⟨plan, hplan, hmaterialize⟩ := bind_eq_ok.mp hmaterialize
  rw [okOr_eq_ok, h.plan_at hrecords] at hplan
  obtain ⟨hwork, hlimit, hprefixes⟩ := materializeSchedule_work hmaterialize
  have hall : Replay.AllowsAll (envelopeIdsOf before) (Replay.start (envelopeIdsOf before).length)
      schedule.actions := (h.wellFormed.inPlace before _ after hrecords).2.1
  obtain ⟨hnumbered, hlength⟩ :=
    (Replay.numbered_start (envelopeIdsOf before).length).length_run hall
  have hstart : (Replay.start (envelopeIdsOf before).length).live.length =
      (envelopeIdsOf before).length := by
    simp [Replay.start]
  obtain rfl := Option.some.inj hplan
  have hids : (envelopeIdsOf before).length = (envelopesOf before).length :=
    TraceValidator.length_envelopeIdsOf
  have hallocated : materialized.allocatedOccurrences =
      (envelopeIdsOf before).length + totalCopies schedule.actions :=
    hwork.trans (congrArg ((envelopeIdsOf before).length + ·) sum_copies_plannedAll)
  rw [hstart, hdeliveries.length_eq] at hlength
  refine ⟨hprefixes.trans hids, ?_, h.limits_eq ▸ hlimit, ?_, ?_⟩
  · rw [hallocated, hprefixes]
  · rw [hallocated, hlength]
  · exact h.identities_nodup hnumbered.nodup hdeliveries

/-- An execution counts the deliveries it admitted. -/
theorem execute_deliveryCount {mode : ExecutionMode} {scheduleId : String}
    {streamPrefixLen sourcePrefixLen : Nat} {deliveries : List (Nat × PreparedEnvelope canon)}
    {execution : ScenarioExecution}
    (h : trace.execute allocator mode scheduleId streamPrefixLen sourcePrefixLen deliveries =
      .ok execution) : execution.deliveryCount = deliveries.length := by
  obtain ⟨_, -, h⟩ := bind_eq_ok.mp h
  obtain ⟨_, -, h⟩ := bind_eq_ok.mp h
  obtain ⟨starts, -, h⟩ := bind_eq_ok.mp h
  obtain ⟨routed, hrouted, h⟩ := bind_eq_ok.mp h
  obtain ⟨_, -, h⟩ := bind_eq_ok.mp h
  obtain ⟨_, -, h⟩ := bind_eq_ok.mp h
  obtain rfl := pure_eq_ok.mp h
  have hends := (foldlM_admitRouted_eq_ok (Nat.two_pow_pos 64)).mp hrouted
  show routed.2 = _
  rw [hends.count, Nat.zero_add]

/-- A sealed trace reports the work its schedules were charged. -/
theorem finish_scheduleWork {inputs : List (ValidatedRecord × Option BaselineAuthority)}
    {a : TraceAssembler canon} (hnew : TraceAssembler.new session limits = .ok a)
    (hfinish : (a.pushAll inputs).finish allocator = .ok trace) :
    trace.summary.scheduleWork = scheduleWorkOf (TraceAssembler.recordsOf inputs) := by
  obtain ⟨hstart, hlive⟩ := TraceAssembler.new_ok hnew
  obtain ⟨_, hfailed, hfinish⟩ := bind_eq_ok.mp hfinish
  rw [rejectIf_eq_ok, Bool.not_eq_true] at hfailed
  have h := hstart.pushAll hlive hfailed
  obtain ⟨plan, hplan, hfinish⟩ := bind_eq_ok.mp hfinish
  rw [mapError_eq_ok, h.validator] at hplan
  obtain ⟨_, -, hplan⟩ := bind_eq_ok.mp hplan
  obtain ⟨header, -, hplan⟩ := bind_eq_ok.mp hplan
  obtain ⟨_, -, hplan⟩ := bind_eq_ok.mp hplan
  obtain ⟨_, -, hplan⟩ := bind_eq_ok.mp hplan
  obtain ⟨_, -, hplan⟩ := bind_eq_ok.mp hplan
  obtain rfl := pure_eq_ok.mp hplan
  obtain ⟨_, -, hfinish⟩ := bind_eq_ok.mp hfinish
  obtain ⟨_, -, hfinish⟩ := bind_eq_ok.mp hfinish
  obtain ⟨_, -, hfinish⟩ := bind_eq_ok.mp hfinish
  obtain ⟨_, -, hfinish⟩ := bind_eq_ok.mp hfinish
  obtain rfl := pure_eq_ok.mp hfinish
  rfl

/-- With enough memory every schedule of a sealed trace materializes. -/
theorem SealedFrom.mapM_materialize (h : SealedFrom limits records trace)
    (hallocator : ∀ reservation n, allocator reservation n = true) :
    ∃ all, (List.range trace.schedules.length).mapM (trace.materialize allocator) = .ok all ∧
      all.map (·.allocatedOccurrences) = trace.schedules.map SchedulePlan.work := by
  have htotal : ∀ index ∈ List.range trace.schedules.length, ∃ materialized,
      trace.materialize allocator index = .ok materialized := by
    intro index hindex
    have hget := List.getElem?_eq_getElem (List.mem_range.mp hindex)
    obtain ⟨before, schedule, after, hrecords, -, hplan⟩ := h.schedule_at hget
    obtain ⟨materialized, hmaterialized, -⟩ := h.materialize_ok hrecords hplan hallocator
    exact ⟨materialized, bind_ok (okOr_eq_ok.mpr hget) hmaterialized⟩
  obtain ⟨all, hall⟩ := mapM_total htotal
  refine ⟨all, hall, ?_⟩
  apply List.ext_getElem?
  intro i
  rw [List.getElem?_map, List.getElem?_map]
  cases hi : trace.schedules[i]? with
  | none =>
      have hlength : all.length ≤ i := by
        rw [length_mapM hall, List.length_range]
        exact List.getElem?_eq_none_iff.mp hi
      rw [List.getElem?_eq_none hlength]
      rfl
  | some plan =>
      obtain ⟨hlt, -⟩ := List.getElem?_eq_some_iff.mp hi
      obtain ⟨materialized, hmaterialize⟩ := htotal i (List.mem_range.mpr hlt)
      have hget : all[i]? = some materialized := by
        rw [getElem?_mapM_eq_some hall]
        exact ⟨i, by simp [hlt], hmaterialize⟩
      obtain ⟨plan', hplan', hmaterialize⟩ := bind_eq_ok.mp hmaterialize
      obtain rfl := Option.some.inj (hi.symm.trans (okOr_eq_ok.mp hplan'))
      rw [hget, Option.map_some, Option.map_some, (materializeSchedule_work hmaterialize).1]

/-- The work a sealed trace was charged is the work of materializing it.  Every
schedule allocates its prefix and the copies it asks for, within the ceiling of
one schedule, delivers all of them but the dropped ones, and none twice; and
the sum over all schedules is what validation charged, within the ceiling of
the trace. -/
theorem work_charged_is_done {inputs : List (ValidatedRecord × Option BaselineAuthority)}
    {a : TraceAssembler canon} {sealing : Allocator}
    (hnew : TraceAssembler.new session limits = .ok a)
    (hfinish : (a.pushAll inputs).finish sealing = .ok trace) :
    (∀ allocator index materialized, trace.materialize allocator index = .ok materialized →
      ∃ before schedule after,
        TraceAssembler.recordsOf inputs = before ++ .faultSchedule schedule :: after ∧
        (schedulesOf before).length = index ∧
        materialized.sourcePrefixLen = (envelopesOf before).length ∧
        materialized.allocatedOccurrences =
          materialized.sourcePrefixLen + totalCopies schedule.actions ∧
        materialized.allocatedOccurrences ≤ limits.maxOccurrencesPerSchedule.toNat ∧
        materialized.deliveries.length + totalDrops schedule.actions =
          materialized.allocatedOccurrences ∧
        (materialized.deliveries.map identityOf).Nodup ∧
        ∀ comparison, trace.compareSchedule allocator index = .ok comparison →
          comparison.faulted.deliveryCount = materialized.deliveries.length) ∧
    trace.summary.scheduleWork ≤ limits.maxScheduleWorkPerTrace.toNat ∧
    ∀ allocator, (∀ reservation n, allocator reservation n = true) →
      ∃ all, (List.range trace.schedules.length).mapM (trace.materialize allocator) = .ok all ∧
        (all.map (·.allocatedOccurrences)).sum = trace.summary.scheduleWork := by
  have h := finish_ok hnew hfinish
  have hcharged := finish_scheduleWork hnew hfinish
  refine ⟨fun allocator index materialized hmaterialize => ?_, ?_, fun allocator hallocator => ?_⟩
  · obtain ⟨plan, hplan, -⟩ := bind_eq_ok.mp hmaterialize
    rw [okOr_eq_ok] at hplan
    obtain ⟨before, schedule, after, hrecords, rfl, -⟩ := h.schedule_at hplan
    obtain ⟨hprefixes, hallocated, hlimit, hlength, hnodup⟩ :=
      h.materialized_work hrecords hmaterialize
    refine ⟨before, schedule, after, hrecords, rfl, hprefixes, hallocated, hlimit, hlength, hnodup,
      fun comparison hcomparison => ?_⟩
    obtain ⟨materialized', hmaterialize', -, hfaulted, -⟩ := compareSchedule_sides hplan hcomparison
    obtain rfl := Except.ok.inj (hmaterialize'.symm.trans hmaterialize)
    rw [execute_deliveryCount hfaulted, MaterializedSchedule.routes, List.length_map]
  · rw [hcharged]
    exact h.wellFormed.scheduleWork_le
  · obtain ⟨all, hall, hwork⟩ := h.mapM_materialize hallocator
    refine ⟨all, hall, ?_⟩
    rw [hwork, hcharged, h.schedules, scheduleWorkOf_eq]

/-- The schedule of the sample trace drops one of two originals. -/
theorem sample_work_charged_is_done : ∃ trace, Sample.sealedTrace = .ok trace ∧
    trace.summary.scheduleWork ≤ Sample.forgetful.maxScheduleWorkPerTrace.toNat ∧
    ∃ all, (List.range trace.schedules.length).mapM (trace.materialize Sample.granting) = .ok all ∧
      (all.map (·.allocatedOccurrences)).sum = trace.summary.scheduleWork := by
  have hsealed : Sample.sealedTrace.isOk = true := by
    decide +kernel
  cases htrace : Sample.sealedTrace with
  | error failure =>
      rw [htrace] at hsealed
      cases hsealed
  | ok trace =>
      obtain ⟨a, hnew, hfinish⟩ := bind_eq_ok.mp htrace
      obtain ⟨-, hcharged, hall⟩ := work_charged_is_done hnew hfinish
      exact ⟨trace, rfl, hcharged, hall Sample.granting fun _ _ => rfl⟩

end SealedTrace

end KvCrucible
