/-
KvCrucible/TraceVerdict.lean

What the one-pass check of a trace says (`validate_trace` in `trace.rs`).

A trace passes exactly when it is well-formed, and its summary is read off the
records (`summaryOf`).  A trace that fails is blamed on the first record that
the records before it do not allow.  `Blames` says for every error what is
wrong with that record: an identity that is not new, a stream or an envelope
that is not there, an occurrence that is not live, or a total that is over its
ceiling (`Exceeds`).
-/
import KvCrucible.TraceAccept

namespace KvCrucible

open Basis Std

/-! ### Totals and their ceilings -/

/-- The ceiling of a resource. -/
def Resource.ceiling (limits : Limits) : Resource → UInt64
  | .records => limits.maxRecordsPerTrace
  | .streams => limits.maxStreamsPerTrace
  | .envelopes => limits.maxEnvelopesPerTrace
  | .faultSchedules => limits.maxFaultSchedulesPerTrace
  | .faultActions => limits.maxFaultActionsPerTrace
  | .identityBytes => limits.maxIdentityBytesPerTrace
  | .scheduleOccurrences => limits.maxOccurrencesPerSchedule
  | .scheduleWork => limits.maxScheduleWorkPerTrace

/-- What a trace uses of a resource once `record` is part of it. -/
def Resource.total (before : List Record) (record : Record) : Resource → Nat
  | .records => (before ++ [record]).length
  | .streams => (streamsOf (before ++ [record])).length
  | .envelopes => (envelopesOf (before ++ [record])).length
  | .faultSchedules => (schedulesOf (before ++ [record])).length
  | .faultActions => faultActionsOf (before ++ [record])
  | .identityBytes => identityBytesOf (before ++ [record])
  | .scheduleOccurrences => (workOf before record).getD 0
  | .scheduleWork => scheduleWorkOf (before ++ [record])

/-- A total that is over its ceiling, or over what a counter holds. -/
inductive Exceeds (limits : Limits) (before : List Record) (record : Record) (resource : Resource) :
    TraceError → Prop
  | overflow : 2 ^ 64 ≤ resource.total before record →
      Exceeds limits before record resource (.counterOverflow before.length)
  | limit {observed : Nat} : (resource.ceiling limits).toNat < observed →
      observed ≤ resource.total before record →
      Exceeds limits before record resource
        (.resourceLimit before.length resource (resource.ceiling limits).toNat observed)

/-! ### Faults -/

/-- The delivery an action refers to in a role. -/
def FaultAction.reference : FaultAction → DeliveryRole → Option DeliveryRef
  | .drop target, .target => some target
  | .duplicate target _, .target => some target
  | .moveBefore target _, .target => some target
  | .moveBefore _ anchor, .anchor => some anchor
  | _, .anchor => none

/-- What is wrong with an action, the replay being where it is. -/
inductive ActionFault (ids : List String) (r : Replay) (record index : Nat) (action : FaultAction) :
    TraceError → Prop
  | notPrior {role : DeliveryRole} {delivery : DeliveryRef} :
      action.reference role = some delivery → delivery.envelopeId ∉ ids →
      ActionFault ids r record index action (.faultEnvelopeNotPrior record index role)
  | notCreated {role : DeliveryRole} {delivery : DeliveryRef} :
      action.reference role = some delivery → delivery.envelopeId ∈ ids →
      r.next (Replay.keyOf ids delivery).source ≤ delivery.occurrence.toNat →
      ActionFault ids r record index action (.faultOccurrenceNotCreated record index role)
  | removed {role : DeliveryRole} {delivery : DeliveryRef} :
      action.reference role = some delivery → delivery.envelopeId ∈ ids →
      delivery.occurrence.toNat < r.next (Replay.keyOf ids delivery).source →
      Replay.keyOf ids delivery ∉ r.live →
      ActionFault ids r record index action (.faultOccurrenceRemoved record index role)
  | overflow {target : DeliveryRef} {copies : UInt16} : action = .duplicate target copies →
      2 ^ 16 < r.next (Replay.keyOf ids target).source + copies.toNat →
      ActionFault ids r record index action (.faultOccurrenceOverflow record index)

/-- What an error says about the record it names, after the records before
it. -/
inductive Blames (limits : Limits) (before : List Record) : Record → TraceError → Prop
  | headerNotFirst {record : Record} : before = [] → record.header? = none →
      Blames limits before record (.headerNotFirst before.length)
  | duplicateHeader {header : TraceHeader} : before ≠ [] →
      Blames limits before (.traceHeader header) (.duplicateHeader before.length)
  | recordValidation {record : Record} {error : ValidationError} :
      record.validate limits = .error error →
      Blames limits before record (.recordValidation before.length error)
  | exceeds {record : Record} {error : TraceError} (resource : Resource) :
      Exceeds limits before record resource error → Blames limits before record error
  | duplicateStreamId {s : StreamDeclaration} : s.streamId ∈ streamIdsOf before →
      Blames limits before (.stream s) (.duplicateStreamId before.length)
  | duplicateStreamIdentity {s : StreamDeclaration} :
      StreamIdentity.ofStream s ∈ (streamsOf before).map StreamIdentity.ofStream →
      Blames limits before (.stream s) (.duplicateStreamIdentity before.length)
  | undeclaredStream {e : EventEnvelope} : e.streamId ∉ streamIdsOf before →
      Blames limits before (.envelope e) (.undeclaredStream before.length)
  | cursorBeforeInitial {e : EventEnvelope} {s : StreamDeclaration} : s ∈ streamsOf before →
      s.streamId = e.streamId → e.cursor.get.toNat < s.initialCursor.get.toNat →
      Blames limits before (.envelope e) (.cursorBeforeInitial before.length)
  | duplicateEnvelopeId {e : EventEnvelope} : e.envelopeId ∈ envelopeIdsOf before →
      Blames limits before (.envelope e) (.duplicateEnvelopeId before.length)
  | tokenEvidenceRedactionMismatch {e : EventEnvelope} {header : TraceHeader} {index : Nat}
      {mutation : Mutation} {evidence : TokenEvidence} : headersOf before = [header] →
      e.mutations[index]? = some mutation → mutation.tokenEvidence = some evidence →
      evidenceMatches header.redaction (tokenEvidenceKind evidence) = false →
      Blames limits before (.envelope e) (.tokenEvidenceRedactionMismatch before.length index
        header.redaction (tokenEvidenceKind evidence))
  | duplicateScheduleId {schedule : FaultSchedule} :
      schedule.scheduleId ∈ scheduleIdsOf before →
      Blames limits before (.faultSchedule schedule) (.duplicateScheduleId before.length)
  | action {schedule : FaultSchedule} {done rest : List FaultAction} {action : FaultAction}
      {error : TraceError} : schedule.actions = done ++ action :: rest →
      ActionFault (envelopeIdsOf before) ((Replay.start (envelopeIdsOf before).length).run
        (envelopeIdsOf before) done) before.length done.length action error →
      Blames limits before (.faultSchedule schedule) error

/-! ### Checked counters -/

theorem checkedAddU32_eq_some {a b c : Nat} (h : checkedAddU32 a b = some c) : a + b = c := by
  unfold checkedAddU32 at h
  split at h
  · exact Option.some.inj h
  · cases h

theorem checkedAddU32_eq_none {a b : Nat} (h : checkedAddU32 a b = none) : 2 ^ 32 ≤ a + b := by
  unfold checkedAddU32 at h
  split at h
  · cases h
  · omega

theorem toU16_eq_none {value : Nat} (h : toU16 value = none) : 2 ^ 16 ≤ value := by
  unfold toU16 at h
  split at h
  · cases h
  · omega

section Counters

variable {limits : Limits} {before : List Record} {record : Record} {resource : Resource}
  {current added length : Nat} {error : TraceError}

theorem exceeds_of_checkedLimit {maximum : UInt64}
    (h : checkedLimit before.length resource current added maximum = .error error)
    (hmaximum : maximum = resource.ceiling limits)
    (htotal : current + added ≤ resource.total before record) :
    Exceeds limits before record resource error := by
  subst hmaximum
  rcases bind_eq_error h with h | ⟨observed, hobserved, h⟩
  · obtain ⟨hnone, rfl⟩ := okOr_eq_error.mp h
    exact .overflow ((checkedAdd_eq_none.mp hnone).trans htotal)
  · obtain ⟨rfl, -⟩ := checkedAdd_eq_some.mp (okOr_eq_ok.mp hobserved)
    rcases bind_eq_error h with h | ⟨_, -, h⟩
    · obtain ⟨hover, rfl⟩ := rejectIf_eq_error.mp h
      exact .limit hover htotal
    · cases h

theorem exceeds_of_countLen (h : countLen length before.length = .error error)
    (htotal : length ≤ resource.total before record) :
    Exceeds limits before record resource error := by
  unfold countLen at h
  split at h
  · cases h
  next hlarge =>
    obtain rfl := Except.error.inj h
    exact .overflow ((Nat.not_lt.mp hlarge).trans htotal)

theorem exceeds_of_identityBytes {values : List String}
    (h : checkedIdentityBytes before.length current values limits.maxIdentityBytesPerTrace =
      .error error)
    (htotal : current + (values.map len).sum ≤ Resource.identityBytes.total before record) :
    Exceeds limits before record .identityBytes error := by
  rcases bind_eq_error h with h | ⟨added, hadded, h⟩
  · -- one value does not fit into the counter any more
    obtain ⟨done, value, rest, bytes, rfl, hdone, hvalue⟩ := foldlM_eq_error h
    obtain ⟨hbytes, -⟩ := (foldlM_addIdentityBytes_eq_ok (Nat.two_pow_pos 64)).mp hdone
    rw [List.map_append, List.sum_append, List.map_cons, List.sum_cons] at htotal
    have hle : bytes + len value ≤ Resource.identityBytes.total before record := by omega
    rcases bind_eq_error hvalue with hvalue | ⟨length, hlength, hvalue⟩
    · exact exceeds_of_countLen hvalue ((Nat.le_add_left _ _).trans hle)
    · obtain ⟨rfl, -⟩ := countLen_eq_ok.mp hlength
      obtain ⟨hnone, rfl⟩ := okOr_eq_error.mp hvalue
      exact .overflow ((checkedAdd_eq_none.mp hnone).trans hle)
  · obtain ⟨hsum, -⟩ := (foldlM_addIdentityBytes_eq_ok (Nat.two_pow_pos 64)).mp hadded
    exact exceeds_of_checkedLimit h rfl (by omega)

end Counters

namespace TraceValidator

variable {limits : Limits} {before : List Record} {error : TraceError}

/-! ### Streams and envelopes -/

theorem pushStream_blames (h : WellFormed limits before) {s : StreamDeclaration}
    (herror : (after limits before).pushStream before.length s = .error error) :
    Blames limits before (.stream s) error := by
  have hsize : (after limits before).streams.size = (streamsOf before).length :=
    streams_size_after h.streamIds
  have hcount : (streamsOf before).length + 1 = Resource.streams.total before (.stream s) := by
    simp [Resource.total, streamsOf_snoc]
  have hbytes : identityBytesOf before + (s.identities.map len).sum =
      Resource.identityBytes.total before (.stream s) := by
    simp [Resource.total, identityBytesOf_snoc]
  rcases bind_eq_error herror with hid | ⟨_, -, herror⟩
  · obtain ⟨hmem, rfl⟩ := rejectIf_eq_error.mp hid
    exact .duplicateStreamId (mem_streams_after.mp hmem)
  rcases bind_eq_error herror with hidentity | ⟨_, -, herror⟩
  · obtain ⟨hmem, rfl⟩ := rejectIf_eq_error.mp hidentity
    exact .duplicateStreamIdentity (List.mem_toFinset.mp hmem)
  rcases bind_eq_error herror with hlen | ⟨count, hlen, herror⟩
  · rw [hsize] at hlen
    exact .exceeds .streams (exceeds_of_countLen hlen (Nat.le_of_lt (by omega)))
  obtain ⟨rfl, -⟩ := countLen_eq_ok.mp hlen
  rcases bind_eq_error herror with hlimit | ⟨_, -, herror⟩
  · rw [hsize] at hlimit
    exact .exceeds .streams (exceeds_of_checkedLimit hlimit rfl hcount.le)
  rcases bind_eq_error herror with hidentities | ⟨_, -, herror⟩
  · exact .exceeds .identityBytes (exceeds_of_identityBytes hidentities hbytes.le)
  · cases herror

/-- A mutation whose evidence does not match. -/
theorem validateRedaction_eq_error {index : Nat} {redaction : RedactionMode}
    {mutations : List Mutation} (h : validateRedaction index redaction mutations = .error error) :
    ∃ i mutation evidence, mutations[i]? = some mutation ∧
      mutation.tokenEvidence = some evidence ∧
      evidenceMatches redaction (tokenEvidenceKind evidence) = false ∧
      error = .tokenEvidenceRedactionMismatch index i redaction (tokenEvidenceKind evidence) := by
  unfold validateRedaction at h
  obtain ⟨⟨mutation, i⟩, hmem, hcheck⟩ := forM_eq_error h
  unfold checkRedaction at hcheck
  cases hevidence : mutation.tokenEvidence with
  | none =>
      rw [hevidence] at hcheck
      cases hcheck
  | some evidence =>
      rw [hevidence] at hcheck
      obtain ⟨hmatches, rfl⟩ := rejectIf_eq_error.mp hcheck
      exact ⟨i, mutation, evidence, List.mk_mem_zipIdx_iff_getElem?.mp hmem, hevidence, hmatches,
        rfl⟩

theorem pushEnvelope_blames (h : WellFormed limits before) (hne : before ≠ []) {e : EventEnvelope}
    (herror : (after limits before).pushEnvelope before.length e = .error error) :
    Blames limits before (.envelope e) error := by
  have hsize : (after limits before).envelopes.size = (envelopesOf before).length := by
    rw [(indexes_after h.envelopeIds).size, length_envelopeIdsOf]
  have hcount : (envelopesOf before).length + 1 =
      Resource.envelopes.total before (.envelope e) := by
    simp [Resource.total, envelopesOf_snoc]
  have hbytes : identityBytesOf before + ([e.envelopeId].map len).sum =
      Resource.identityBytes.total before (.envelope e) := by
    simp [Resource.total, identityBytesOf_snoc]
  obtain ⟨header, hheaders, hheader⟩ := header_after h hne
  rcases bind_eq_error herror with hid | ⟨_, -, herror⟩
  · obtain ⟨hmem, rfl⟩ := rejectIf_eq_error.mp hid
    exact .duplicateEnvelopeId (mem_envelopes_after.mp hmem)
  rcases bind_eq_error herror with hlen | ⟨count, hlen, herror⟩
  · rw [hsize] at hlen
    exact .exceeds .envelopes (exceeds_of_countLen hlen (Nat.le_of_lt (by omega)))
  obtain ⟨rfl, -⟩ := countLen_eq_ok.mp hlen
  rcases bind_eq_error herror with hlimit | ⟨_, -, herror⟩
  · rw [hsize] at hlimit
    exact .exceeds .envelopes (exceeds_of_checkedLimit hlimit rfl hcount.le)
  rcases bind_eq_error herror with hstream | ⟨facts, hstream, herror⟩
  · obtain ⟨hnone, rfl⟩ := okOr_eq_error.mp hstream
    refine .undeclaredStream fun hmem => ?_
    rw [← @mem_streams_after limits, ExtTreeMap.mem_iff_isSome_getElem?, hnone] at hmem
    cases hmem
  obtain ⟨s, hs, hid, rfl⟩ := (streams_after h.streamIds).mp (okOr_eq_ok.mp hstream)
  rcases bind_eq_error herror with hcursor | ⟨_, -, herror⟩
  · obtain ⟨hlow, rfl⟩ := rejectIf_eq_error.mp hcursor
    exact .cursorBeforeInitial hs hid hlow
  rcases bind_eq_error herror with hnone | ⟨facts, hfacts, herror⟩
  · rw [hheader] at hnone
    cases hnone
  rw [hheader] at hfacts
  obtain rfl := Option.some.inj (okOr_eq_ok.mp hfacts)
  rcases bind_eq_error herror with hredaction | ⟨_, -, herror⟩
  · obtain ⟨i, mutation, evidence, hmutation, hevidence, hmatches, rfl⟩ :=
      validateRedaction_eq_error hredaction
    exact .tokenEvidenceRedactionMismatch hheaders hmutation hevidence hmatches
  rcases bind_eq_error herror with hidentities | ⟨_, -, herror⟩
  · exact .exceeds .identityBytes (exceeds_of_identityBytes hidentities hbytes.le)
  · cases herror

/-! ### Schedules -/

theorem resolveDelivery_fault {v : TraceValidator} {ids : List String} {r : Replay}
    {copies record index : Nat} {plan : PlanState} {delivery : DeliveryRef} {role : DeliveryRole}
    {action : FaultAction} (hv : v.Indexes ids) (ht : v.Tracks ids.length r copies plan)
    (hreference : action.reference role = some delivery)
    (h : v.resolveDelivery record index delivery role plan = .error error) :
    ActionFault ids r record index action error := by
  rcases bind_eq_error h with hsource | ⟨source, hsource, h⟩
  · obtain ⟨hnone, rfl⟩ := okOr_eq_error.mp hsource
    rw [hv.lookup] at hnone
    refine .notPrior hreference fun hmem => ?_
    rw [if_pos hmem] at hnone
    cases hnone
  rw [okOr_eq_ok, hv.lookup] at hsource
  split at hsource
  next hmem =>
    obtain rfl := Option.some.inj hsource
    rw [ht.next] at h
    rcases bind_eq_error h with hcreated | ⟨_, hcreated, h⟩
    · obtain ⟨hlate, rfl⟩ := rejectIf_eq_error.mp hcreated
      exact .notCreated hreference hmem hlate
    rw [rejectIf_eq_ok, Nat.not_le] at hcreated
    rcases bind_eq_error h with hremoved | ⟨_, -, h⟩
    · obtain ⟨hgone, rfl⟩ := rejectIf_eq_error.mp hremoved
      exact .removed hreference hmem hcreated fun hlive => ((ht.live _).mp hlive).2.2 hgone
    · cases h
  next => cases hsource

section Schedule

variable (h : WellFormed limits before) {schedule : FaultSchedule}

include h

/-- An action that cannot be planned, the actions before it being planned. -/
theorem planAction_blames {done rest : List FaultAction} {action : FaultAction} {plan : PlanState}
    (hsplit : schedule.actions = done ++ action :: rest) (hvalid : action.Valid)
    (ht : (after limits before).Tracks (envelopeIdsOf before).length
      ((Replay.start (envelopeIdsOf before).length).run (envelopeIdsOf before) done)
      (totalCopies done) plan)
    (herror : (after limits before).planAction before.length plan done.length action =
      .error error) :
    Blames limits before (.faultSchedule schedule) error := by
  have hv : (after limits before).Indexes (envelopeIdsOf before) := indexes_after h.envelopeIds
  have hcopies : totalCopies done + action.copies ≤ totalCopies schedule.actions := by
    rw [hsplit]
    simp [totalCopies]
  cases action with
  | drop target =>
      rcases bind_eq_error herror with hkey | ⟨key, -, herror⟩
      · exact .action hsplit (resolveDelivery_fault hv ht rfl hkey)
      · cases herror
  | moveBefore target anchor =>
      rcases bind_eq_error herror with hkey | ⟨key, -, herror⟩
      · exact .action hsplit (resolveDelivery_fault hv ht rfl hkey)
      rcases bind_eq_error herror with hkey | ⟨key, -, herror⟩
      · exact .action hsplit (resolveDelivery_fault hv ht rfl hkey)
      · cases herror
  | duplicate target added =>
      have hadded : added.toNat ≠ 0 := fun hzero => hvalid (UInt16.toNat_inj.mp hzero)
      have hoccurrences : plan.occurrences + added.toNat ≤
          Resource.scheduleOccurrences.total before (.faultSchedule schedule) := by
        rw [ht.occurrences]
        show _ ≤ (envelopeIdsOf before).length + totalCopies schedule.actions
        have : FaultAction.copies (.duplicate target added) = added.toNat := rfl
        omega
      have hwork : scheduleWorkOf before + (plan.work + added.toNat) ≤
          Resource.scheduleWork.total before (.faultSchedule schedule) := by
        rw [ht.work]
        show _ ≤ scheduleWorkOf (before ++ [_])
        rw [scheduleWorkOf_snoc]
        simp only [workOf, Option.toList_some, List.sum_singleton]
        have : FaultAction.copies (.duplicate target added) = added.toNat := rfl
        omega
      rcases bind_eq_error herror with hkey | ⟨key, hkey, herror⟩
      · exact .action hsplit (resolveDelivery_fault hv ht rfl hkey)
      obtain ⟨rfl, -⟩ := (resolveDelivery_eq_ok hv ht).mp hkey
      rw [ht.next] at herror
      -- the number of a copy does not fit
      rcases bind_eq_error herror with hnext | ⟨newNext, hnext, herror⟩
      · obtain ⟨hnone, rfl⟩ := okOr_eq_error.mp hnext
        have := checkedAddU32_eq_none hnone
        exact .action hsplit (.overflow rfl (by omega))
      obtain rfl := checkedAddU32_eq_some (okOr_eq_ok.mp hnext)
      rcases bind_eq_error herror with hnumber | ⟨_, -, herror⟩
      · obtain ⟨hlarge, rfl⟩ := rejectIf_eq_error.mp hnumber
        refine .action hsplit (.overflow rfl ?_)
        unfold u16Max at hlarge
        omega
      rcases bind_eq_error herror with hfirst | ⟨first, -, herror⟩
      · obtain ⟨hnone, rfl⟩ := okOr_eq_error.mp hfirst
        have := toU16_eq_none hnone
        exact .action hsplit (.overflow rfl (by omega))
      -- a total is over its ceiling
      rcases bind_eq_error herror with hlimit | ⟨_, -, herror⟩
      · exact .exceeds .scheduleOccurrences (exceeds_of_checkedLimit hlimit rfl hoccurrences)
      rcases bind_eq_error herror with hsum | ⟨work, hsum, herror⟩
      · obtain ⟨hnone, rfl⟩ := okOr_eq_error.mp hsum
        refine .exceeds .scheduleWork (.overflow ?_)
        exact (checkedAdd_eq_none.mp hnone).trans ((Nat.le_add_left _ _).trans hwork)
      obtain ⟨rfl, -⟩ := checkedAdd_eq_some.mp (okOr_eq_ok.mp hsum)
      rcases bind_eq_error herror with hbudget | ⟨_, -, herror⟩
      · exact .exceeds .scheduleWork (exceeds_of_checkedLimit hbudget rfl hwork)
      · cases herror

theorem planSchedule_blames (hvalid : ∀ action ∈ schedule.actions, action.Valid)
    (herror : (after limits before).planSchedule before.length schedule = .error error) :
    Blames limits before (.faultSchedule schedule) error := by
  have hv : (after limits before).Indexes (envelopeIdsOf before) := indexes_after h.envelopeIds
  have hprefix : (envelopeIdsOf before).length ≤
      Resource.scheduleOccurrences.total before (.faultSchedule schedule) := Nat.le_add_right _ _
  rcases bind_eq_error herror with hlen | ⟨prefixLen, hlen, herror⟩
  · rw [hv.size] at hlen
    exact .exceeds .scheduleOccurrences (exceeds_of_countLen hlen hprefix)
  obtain ⟨rfl, -⟩ := countLen_eq_ok.mp hlen
  rw [hv.size] at herror
  rcases bind_eq_error herror with hlimit | ⟨occurrences, hlimit, herror⟩
  · refine .exceeds .scheduleOccurrences (exceeds_of_checkedLimit hlimit rfl ?_)
    exact (Nat.zero_add _).trans_le hprefix
  obtain ⟨rfl, hle⟩ := checkedLimit_eq_ok.mp hlimit
  rw [Nat.zero_add] at hle herror
  rcases bind_eq_error herror with hactions | ⟨_, -, herror⟩
  · -- the first action that cannot be planned
    obtain ⟨done', action', rest', plan, hzip, hdone, haction⟩ := foldlM_eq_error hactions
    obtain ⟨done, actions, hsplit, rfl, hcons⟩ := List.zipIdx_eq_append_iff.mp hzip
    obtain ⟨action, rest, rfl, rfl, -⟩ := List.zipIdx_eq_cons_iff.mp hcons.symm
    have hbefore : ∀ action ∈ done, action.Valid := fun action hmem =>
      hvalid action (hsplit ▸ List.mem_append_left _ hmem)
    have hthis : action.Valid :=
      hvalid action (hsplit ▸ List.mem_append_right _ List.mem_cons_self)
    obtain ⟨-, ht, -⟩ := planActions_sound hv hbefore (tracks_start hle) hdone
    rw [Nat.zero_add] at ht haction
    exact planAction_blames h hsplit hthis ht haction
  · cases herror

theorem pushSchedule_blames (hvalid : ∀ action ∈ schedule.actions, action.Valid)
    (herror : (after limits before).pushSchedule before.length schedule = .error error) :
    Blames limits before (.faultSchedule schedule) error := by
  have hv : (after limits before).Indexes (envelopeIdsOf before) := indexes_after h.envelopeIds
  have hcard : (after limits before).schedules.card = (schedulesOf before).length :=
    schedules_card_after h.scheduleIds
  have hcount : (schedulesOf before).length + 1 =
      Resource.faultSchedules.total before (.faultSchedule schedule) := by
    simp [Resource.total, schedulesOf_snoc]
  have hactions : faultActionsOf before + schedule.actions.length =
      Resource.faultActions.total before (.faultSchedule schedule) := by
    simp [Resource.total, faultActionsOf_snoc]
  have hbytes : identityBytesOf before + ([schedule.scheduleId].map len).sum =
      Resource.identityBytes.total before (.faultSchedule schedule) := by
    simp [Resource.total, identityBytesOf_snoc]
  have hwork : scheduleWorkOf before +
      ((envelopeIdsOf before).length + totalCopies schedule.actions) =
        Resource.scheduleWork.total before (.faultSchedule schedule) := by
    simp [Resource.total, scheduleWorkOf_snoc]
  rcases bind_eq_error herror with hid | ⟨_, -, herror⟩
  · obtain ⟨hmem, rfl⟩ := rejectIf_eq_error.mp hid
    exact .duplicateScheduleId (List.mem_toFinset.mp hmem)
  rcases bind_eq_error herror with hlen | ⟨count, hlen, herror⟩
  · rw [hcard] at hlen
    exact .exceeds .faultSchedules (exceeds_of_countLen hlen (Nat.le_of_lt (by omega)))
  obtain ⟨rfl, -⟩ := countLen_eq_ok.mp hlen
  rcases bind_eq_error herror with hlimit | ⟨_, -, herror⟩
  · rw [hcard] at hlimit
    exact .exceeds .faultSchedules (exceeds_of_checkedLimit hlimit rfl hcount.le)
  rcases bind_eq_error herror with hlen | ⟨count, hlen, herror⟩
  · exact .exceeds .faultActions
      (exceeds_of_countLen hlen ((Nat.le_add_left _ _).trans hactions.le))
  obtain ⟨rfl, -⟩ := countLen_eq_ok.mp hlen
  rcases bind_eq_error herror with hlimit | ⟨_, -, herror⟩
  · exact .exceeds .faultActions (exceeds_of_checkedLimit hlimit rfl hactions.le)
  rcases bind_eq_error herror with hidentities | ⟨_, -, herror⟩
  · exact .exceeds .identityBytes (exceeds_of_identityBytes hidentities hbytes.le)
  rcases bind_eq_error herror with hplan | ⟨planned, hplan, herror⟩
  · exact planSchedule_blames h hvalid hplan
  obtain ⟨-, -, rfl⟩ := planSchedule_sound hv hvalid hplan
  rcases bind_eq_error herror with hlimit | ⟨_, -, herror⟩
  · exact .exceeds .scheduleWork (exceeds_of_checkedLimit hlimit rfl hwork.le)
  · cases herror

end Schedule

/-! ### One push -/

/-- An error of a push is about the record and what is before it. -/
theorem pushInner_blames (h : WellFormed limits before) {record : ValidatedRecord}
    (herror : (after limits before).pushInner record = .error error) :
    Blames limits before record.asRecord error := by
  have hcount : before.length + 1 = Resource.records.total before record.asRecord := by
    simp [Resource.total]
  rcases bind_eq_error herror with hlimit | ⟨_, -, herror⟩
  · exact .exceeds .records (exceeds_of_checkedLimit hlimit rfl hcount.le)
  rcases bind_eq_error herror with hvalid | ⟨_, hvalid, herror⟩
  · obtain ⟨failure, hfailure, rfl⟩ := mapError_eq_error.mp hvalid
    exact .recordValidation hfailure
  rw [mapError_eq_ok] at hvalid
  have hzero : before.length = 0 ↔ before = [] := List.length_eq_zero_iff
  rcases bind_eq_error herror with hrecord | ⟨v, hrecord, herror⟩
  · change (after limits before).pushRecord before.length record.asRecord = _ at hrecord
    cases hkind : record.asRecord with
    | traceHeader header =>
        rw [hkind, pushRecord] at hrecord
        split at hrecord
        next => cases hrecord
        next hne =>
          obtain rfl := Except.error.inj hrecord
          exact .duplicateHeader (hzero.not.mp hne)
    | stream s =>
        rw [hkind, pushRecord] at hrecord
        split at hrecord
        next hnil =>
          obtain rfl := Except.error.inj hrecord
          exact .headerNotFirst (hzero.mp hnil) rfl
        next => exact pushStream_blames h hrecord
    | envelope e =>
        rw [hkind, pushRecord] at hrecord
        split at hrecord
        next hnil =>
          obtain rfl := Except.error.inj hrecord
          exact .headerNotFirst (hzero.mp hnil) rfl
        next hne => exact pushEnvelope_blames h (hzero.not.mp hne) hrecord
    | faultSchedule schedule =>
        rw [hkind, pushRecord] at hrecord
        rw [hkind] at hvalid
        split at hrecord
        next hnil =>
          obtain rfl := Except.error.inj hrecord
          exact .headerNotFirst (hzero.mp hnil) rfl
        next => exact pushSchedule_blames h (Record.validate_faultSchedule hvalid) hrecord
  · obtain ⟨-, -, rfl⟩ := (pushRecord_after h hvalid).mp hrecord
    rcases bind_eq_error herror with hsum | ⟨_, -, herror⟩
    · obtain ⟨hnone, rfl⟩ := okOr_eq_error.mp hsum
      exact .exceeds .records (.overflow ((checkedAdd_eq_none.mp hnone).trans hcount.le))
    · cases herror

theorem tryPush_eq_ok (h : WellFormed limits before) {record : ValidatedRecord}
    {v : TraceValidator} : (after limits before).tryPush record = .ok v ↔
      WellFormed limits (before ++ [record.asRecord]) ∧
        after limits (before ++ [record.asRecord]) = v := by
  rw [← pushInner_after h]
  have hlive : (after limits before).failed = false := rfl
  unfold tryPush push
  rw [hlive, if_neg Bool.false_ne_true]
  cases (after limits before).pushInner record with
  | ok v' => rfl
  | error error => exact iff_of_false (fun hbad => by cases hbad) (fun hbad => by cases hbad)

theorem tryPush_blames (h : WellFormed limits before) {record : ValidatedRecord}
    (herror : (after limits before).tryPush record = .error error) :
    Blames limits before record.asRecord error := by
  have hlive : (after limits before).failed = false := rfl
  unfold tryPush push at herror
  rw [hlive, if_neg Bool.false_ne_true] at herror
  cases hpush : (after limits before).pushInner record with
  | ok v' =>
      rw [hpush] at herror
      cases herror
  | error error' =>
      rw [hpush] at herror
      obtain rfl := Except.error.inj herror
      exact pushInner_blames h hpush

/-- Records are taken one by one as long as they stay well-formed. -/
theorem foldlM_tryPush {records : List ValidatedRecord} :
    ∀ {before : List Record} {v : TraceValidator}, WellFormed limits before →
      (records.foldlM tryPush (after limits before) = .ok v ↔
        WellFormed limits (before ++ records.map ValidatedRecord.asRecord) ∧
          after limits (before ++ records.map ValidatedRecord.asRecord) = v) := by
  induction records with
  | nil =>
      intro before v h
      rw [List.map_nil, List.append_nil, List.foldlM_nil, pure_eq_ok]
      exact (and_iff_right h).symm
  | cons record records ih =>
      intro before v h
      rw [List.foldlM_cons, bind_eq_ok, List.map_cons, List.append_cons]
      constructor
      · rintro ⟨v', hfirst, hrest⟩
        obtain ⟨hwell, rfl⟩ := (tryPush_eq_ok h).mp hfirst
        exact (ih hwell).mp hrest
      · rintro ⟨hwell, hv⟩
        have hfirst : WellFormed limits (before ++ [record.asRecord]) := hwell.of_append
        exact ⟨_, (tryPush_eq_ok h).mpr ⟨hfirst, rfl⟩, (ih hfirst).mpr ⟨hwell, hv⟩⟩

end TraceValidator

/-! ### The summary -/

/-- The summary of a well-formed trace. -/
def summaryOf (records : List Record) (header : TraceHeader) : TraceSummary where
  records := records.length
  streams := (streamsOf records).length
  envelopes := (envelopesOf records).length
  faultSchedules := (schedulesOf records).length
  faultActions := faultActionsOf records
  identityBytes := identityBytesOf records
  scheduleWork := scheduleWorkOf records
  redaction := header.redaction

section Summary

open TraceValidator

variable {limits : Limits} {records : List Record}

/-- The plan of a well-formed trace. -/
theorem finishPlanned_eq (h : WellFormed limits records) {header : TraceHeader}
    (hheaders : headersOf records = [header]) :
    (after limits records).finishPlanned = .ok {
      summary := summaryOf records header
      limits := limits
      streamIds := streamIdsOf records
      envelopeIds := envelopeIdsOf records
      schedules := plansOf records } := by
  have hstreams := limits.maxStreamsPerTrace.toNat_lt
  have henvelopes := limits.maxEnvelopesPerTrace.toNat_lt
  have hschedules := limits.maxFaultSchedulesPerTrace.toNat_lt
  have hstreams_le := h.streams_le
  have henvelopes_le := h.envelopes_le
  have hschedules_le := h.schedules_le
  have hsize : (after limits records).envelopes.size = (envelopesOf records).length := by
    rw [(indexes_after h.envelopeIds).size, length_envelopeIdsOf]
  have hlive : rejectIf ((after limits records).failed = true) TraceError.validatorFailed =
      .ok () := rejectIf_eq_ok.mpr Bool.false_ne_true
  have hheader : (after limits records).header = some ⟨header.redaction⟩ := by
    show (headersOf records).head?.map _ = _
    rw [hheaders]
    rfl
  exact bind_ok hlive <| bind_ok (okOr_eq_ok.mpr hheader) <|
    bind_ok (countLen_eq_ok.mpr ⟨streams_size_after h.streamIds, by omega⟩) <|
    bind_ok (countLen_eq_ok.mpr ⟨hsize, by omega⟩) <|
    bind_ok (countLen_eq_ok.mpr ⟨schedules_card_after h.scheduleIds, by omega⟩) rfl

theorem finish_after (h : WellFormed limits records) {header : TraceHeader}
    (hheaders : headersOf records = [header]) :
    (after limits records).finish = .ok (summaryOf records header) := by
  unfold finish
  rw [finishPlanned_eq h hheaders]
  rfl

/-- A trace passes when it is well-formed and has a header. -/
theorem validateTrace_eq_ok {records : List ValidatedRecord} {summary : TraceSummary} :
    validateTrace records limits = .ok summary ↔ limits.maxDepth.toNat ≤ maxJsonDepth ∧
      WellFormed limits (records.map ValidatedRecord.asRecord) ∧
      ∃ header, headersOf (records.map ValidatedRecord.asRecord) = [header] ∧
        summary = summaryOf (records.map ValidatedRecord.asRecord) header := by
  have hnil : WellFormed limits [] := wellFormed_nil limits
  constructor
  · intro h
    obtain ⟨v, hnew, h⟩ := bind_eq_ok.mp h
    obtain ⟨_, hdepth, hnew⟩ := bind_eq_ok.mp hnew
    obtain rfl := pure_eq_ok.mp hnew
    obtain ⟨v, hrecords, hfinish⟩ := bind_eq_ok.mp h
    obtain ⟨hwell, rfl⟩ := (foldlM_tryPush hnil).mp hrecords
    rw [List.nil_append] at hwell hfinish
    refine ⟨Nat.not_lt.mp (rejectIf_eq_ok.mp hdepth), hwell, ?_⟩
    by_cases hne : records.map ValidatedRecord.asRecord = []
    · rw [hne] at hfinish
      cases hfinish
    · obtain ⟨header, hheaders, -⟩ := header_after hwell hne
      rw [finish_after hwell hheaders] at hfinish
      exact ⟨header, hheaders, (Except.ok.inj hfinish).symm⟩
  · rintro ⟨hdepth, hwell, header, hheaders, rfl⟩
    have hle : rejectIf (limits.maxDepth.toNat > maxJsonDepth)
        (TraceError.unsupportedDepthLimit limits.maxDepth.toNat maxJsonDepth) = .ok () :=
      rejectIf_eq_ok.mpr (Nat.not_lt.mpr hdepth)
    have hnew : TraceValidator.new limits = .ok (after limits []) := bind_ok hle rfl
    have hrecords : records.foldlM tryPush (after limits []) =
        .ok (after limits (records.map ValidatedRecord.asRecord)) :=
      (foldlM_tryPush hnil).mpr ⟨hwell, rfl⟩
    exact bind_ok hnew (bind_ok hrecords (finish_after hwell hheaders))

/-- Why a trace does not pass. -/
theorem validateTrace_eq_error {records : List ValidatedRecord} {error : TraceError}
    (h : validateTrace records limits = .error error) :
    maxJsonDepth < limits.maxDepth.toNat ∧
        error = .unsupportedDepthLimit limits.maxDepth.toNat maxJsonDepth ∨
      records = [] ∧ error = .missingHeader ∨
      ∃ before record after, records.map ValidatedRecord.asRecord = before ++ record :: after ∧
        WellFormed limits before ∧ ¬ WellFormed limits (before ++ [record]) ∧
        Blames limits before record error := by
  have hnil : WellFormed limits [] := wellFormed_nil limits
  rcases bind_eq_error h with hnew | ⟨v, hnew, h⟩
  · rcases bind_eq_error hnew with hnew | ⟨_, -, hnew⟩
    · obtain ⟨hdepth, rfl⟩ := rejectIf_eq_error.mp hnew
      exact .inl ⟨hdepth, rfl⟩
    · cases hnew
  obtain ⟨_, -, hnew⟩ := bind_eq_ok.mp hnew
  obtain rfl := pure_eq_ok.mp hnew
  rcases bind_eq_error h with hrecords | ⟨v, hrecords, hfinish⟩
  -- the first record that is not pushed comes after a well-formed beginning
  · obtain ⟨done, record, rest, v, rfl, hdone, hrecord⟩ := foldlM_eq_error hrecords
    obtain ⟨hwell, rfl⟩ := (foldlM_tryPush hnil).mp hdone
    rw [List.nil_append] at hwell hrecord
    refine .inr (.inr ⟨done.map ValidatedRecord.asRecord, record.asRecord,
      rest.map ValidatedRecord.asRecord, List.map_append, hwell, fun hmore => ?_,
      tryPush_blames hwell hrecord⟩)
    have hok := (tryPush_eq_ok hwell).mpr ⟨hmore, rfl⟩
    cases hok.symm.trans hrecord
  -- `finish` only misses the header of an empty trace
  · obtain ⟨hwell, rfl⟩ := (foldlM_tryPush hnil).mp hrecords
    rw [List.nil_append] at hwell hfinish
    by_cases hne : records.map ValidatedRecord.asRecord = []
    · rw [hne] at hfinish
      exact .inr (.inl ⟨List.map_eq_nil_iff.mp hne, (Except.error.inj hfinish).symm⟩)
    · obtain ⟨header, hheaders, -⟩ := header_after hwell hne
      rw [finish_after hwell hheaders] at hfinish
      cases hfinish

/-- The one-pass check of a trace passes exactly the well-formed traces, with
the summary of their records.  Otherwise it refuses excessive limits, an empty
trace, or the first record that makes the sequence ill-formed, and says what is
wrong with that record. -/
theorem validate_trace_exact (records : List ValidatedRecord) (limits : Limits) :
    (∀ summary, validateTrace records limits = .ok summary ↔
      limits.maxDepth.toNat ≤ maxJsonDepth ∧
        WellFormed limits (records.map ValidatedRecord.asRecord) ∧
        ∃ header, headersOf (records.map ValidatedRecord.asRecord) = [header] ∧
          summary = summaryOf (records.map ValidatedRecord.asRecord) header) ∧
    ∀ error, validateTrace records limits = .error error →
      maxJsonDepth < limits.maxDepth.toNat ∧
          error = .unsupportedDepthLimit limits.maxDepth.toNat maxJsonDepth ∨
        records = [] ∧ error = .missingHeader ∨
        ∃ before record after, records.map ValidatedRecord.asRecord = before ++ record :: after ∧
          WellFormed limits before ∧ ¬ WellFormed limits (before ++ [record]) ∧
          Blames limits before record error :=
  ⟨fun _ => validateTrace_eq_ok, fun _ => validateTrace_eq_error⟩

end Summary

end KvCrucible
