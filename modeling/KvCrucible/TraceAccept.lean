/-
KvCrucible/TraceAccept.lean

A validator accepts exactly the well-formed traces.

`TraceValidator.after` is the state a validator has after it accepted a given
sequence; every field of it can be read off the sequence.  One push succeeds
exactly when the longer sequence is still well-formed, and then the state is
again the one that belongs to it (`pushInner_after`).
-/
import KvCrucible.Basis.TreeMap
import KvCrucible.TracePlan
import KvCrucible.WellFormed

namespace KvCrucible

open Basis Std

namespace TraceValidator

/-! ### The state after a well-formed beginning -/

/-- The state a validator has after it accepted `records`. -/
def after (limits : Limits) (records : List Record) : TraceValidator where
  limits := limits
  records := records.length
  header := (headersOf records).head?.map fun header => ⟨header.redaction⟩
  streams := ofEntries compare
    ((streamsOf records).map fun stream => (stream.streamId, ⟨stream.initialCursor.get.toNat⟩))
  streamOrder := streamIdsOf records
  streamIdentities := ((streamsOf records).map StreamIdentity.ofStream).toFinset
  envelopes := ofEntries compare (envelopeIdsOf records).zipIdx
  envelopeOrder := envelopeIdsOf records
  schedules := (scheduleIdsOf records).toFinset
  schedulePlans := plansOf records
  faultActions := faultActionsOf records
  identityBytes := identityBytesOf records
  scheduleWork := scheduleWorkOf records
  failed := false

variable {limits : Limits} {records : List Record} {v v' : TraceValidator} {index : Nat}

/-- The envelope index numbers the envelopes in physical order. -/
theorem indexes_after (h : (envelopeIdsOf records).Nodup) :
    (after limits records).Indexes (envelopeIdsOf records) where
  lookup := fun id => by
    have hkeys : ((envelopeIdsOf records).zipIdx.map Prod.fst).Nodup := by
      rwa [List.zipIdx_map_fst]
    show (ofEntries compare (envelopeIdsOf records).zipIdx)[id]? = _
    by_cases hmem : id ∈ envelopeIdsOf records
    · rw [if_pos hmem, getElem?_ofEntries hkeys, List.mk_mem_zipIdx_iff_getElem?]
      exact List.getElem?_idxOf hmem
    · rw [if_neg hmem]
      refine ExtTreeMap.getElem?_eq_none ?_
      rwa [mem_ofEntries, List.zipIdx_map_fst]
  size := by
    have hkeys : ((envelopeIdsOf records).zipIdx.map Prod.fst).Nodup := by
      rwa [List.zipIdx_map_fst]
    show (ofEntries compare (envelopeIdsOf records).zipIdx).size = _
    rw [size_ofEntries hkeys, List.length_zipIdx]

/-! ### What the handlers check -/

theorem pushStream_eq_ok {stream : StreamDeclaration} :
    v.pushStream index stream = .ok v' ↔
      stream.streamId ∉ v.streams ∧ StreamIdentity.ofStream stream ∉ v.streamIdentities ∧
      v.streams.size + 1 ≤ v.limits.maxStreamsPerTrace.toNat ∧
      v.identityBytes + (stream.identities.map len).sum ≤
        v.limits.maxIdentityBytesPerTrace.toNat ∧
      { v with
        streams := v.streams.insert stream.streamId ⟨stream.initialCursor.get.toNat⟩
        streamOrder := v.streamOrder ++ [stream.streamId]
        streamIdentities := insert (StreamIdentity.ofStream stream) v.streamIdentities
        identityBytes := v.identityBytes + (stream.identities.map len).sum } = v' := by
  have hmax := v.limits.maxStreamsPerTrace.toNat_lt
  constructor
  · intro h
    obtain ⟨_, hid, h⟩ := bind_eq_ok.mp h
    obtain ⟨_, hidentity, h⟩ := bind_eq_ok.mp h
    obtain ⟨count, hcount, h⟩ := bind_eq_ok.mp h
    obtain ⟨_, hlimit, h⟩ := bind_eq_ok.mp h
    obtain ⟨bytes, hbytes, h⟩ := bind_eq_ok.mp h
    rw [rejectIf_eq_ok] at hid hidentity
    obtain ⟨rfl, -⟩ := countLen_eq_ok.mp hcount
    obtain ⟨rfl, hle⟩ := checkedLimit_eq_ok.mp hlimit
    obtain ⟨rfl, hbytes⟩ := checkedIdentityBytes_eq_ok.mp hbytes
    exact ⟨hid, hidentity, hle, hbytes, pure_eq_ok.mp h⟩
  · rintro ⟨hid, hidentity, hle, hbytes, rfl⟩
    have hid : rejectIf (stream.streamId ∈ v.streams) (TraceError.duplicateStreamId index) =
        .ok () := rejectIf_eq_ok.mpr hid
    have hidentity : rejectIf (StreamIdentity.ofStream stream ∈ v.streamIdentities)
        (TraceError.duplicateStreamIdentity index) = .ok () := rejectIf_eq_ok.mpr hidentity
    exact bind_ok hid <| bind_ok hidentity <| bind_ok (countLen_eq_ok.mpr ⟨rfl, by omega⟩) <|
      bind_ok (checkedLimit_eq_ok.mpr ⟨rfl, hle⟩) <|
      bind_ok (checkedIdentityBytes_eq_ok.mpr ⟨rfl, hbytes⟩) rfl

theorem validateRedaction_eq_ok {redaction : RedactionMode} {mutations : List Mutation} :
    validateRedaction index redaction mutations = .ok () ↔
      ∀ mutation ∈ mutations, ∀ evidence, mutation.tokenEvidence = some evidence →
        evidenceMatches redaction (tokenEvidenceKind evidence) = true := by
  have hone : ∀ i mutation, checkRedaction index redaction i mutation = .ok () ↔
      ∀ evidence, mutation.tokenEvidence = some evidence →
        evidenceMatches redaction (tokenEvidenceKind evidence) = true := by
    intro i mutation
    unfold checkRedaction
    cases mutation.tokenEvidence with
    | none => simp
    | some evidence => simp
  unfold validateRedaction
  rw [forM_eq_ok]
  constructor
  · intro h mutation hmem
    obtain ⟨i, hi⟩ := List.getElem?_of_mem hmem
    exact (hone i mutation).mp (h (mutation, i) (List.mk_mem_zipIdx_iff_getElem?.mpr hi))
  · rintro h ⟨mutation, i⟩ hmem
    exact (hone i mutation).mpr (h mutation (List.fst_mem_of_mem_zipIdx hmem))

theorem pushEnvelope_eq_ok {envelope : EventEnvelope} :
    v.pushEnvelope index envelope = .ok v' ↔
      envelope.envelopeId ∉ v.envelopes ∧
      v.envelopes.size + 1 ≤ v.limits.maxEnvelopesPerTrace.toNat ∧
      (∃ stream, v.streams[envelope.streamId]? = some stream ∧
        stream.initialCursor ≤ envelope.cursor.get.toNat) ∧
      (∃ header, v.header = some header ∧ envelope.Matches header.redaction) ∧
      v.identityBytes + len envelope.envelopeId ≤ v.limits.maxIdentityBytesPerTrace.toNat ∧
      { v with
        envelopes := v.envelopes.insert envelope.envelopeId v.envelopeOrder.length
        envelopeOrder := v.envelopeOrder ++ [envelope.envelopeId]
        identityBytes := v.identityBytes + len envelope.envelopeId } = v' := by
  have hmax := v.limits.maxEnvelopesPerTrace.toNat_lt
  have hone : ([envelope.envelopeId].map len).sum = len envelope.envelopeId := List.sum_singleton
  constructor
  · intro h
    obtain ⟨_, hid, h⟩ := bind_eq_ok.mp h
    obtain ⟨count, hcount, h⟩ := bind_eq_ok.mp h
    obtain ⟨_, hlimit, h⟩ := bind_eq_ok.mp h
    obtain ⟨stream, hstream, h⟩ := bind_eq_ok.mp h
    obtain ⟨_, hcursor, h⟩ := bind_eq_ok.mp h
    obtain ⟨header, hheader, h⟩ := bind_eq_ok.mp h
    obtain ⟨_, hmatches, h⟩ := bind_eq_ok.mp h
    obtain ⟨bytes, hbytes, h⟩ := bind_eq_ok.mp h
    rw [rejectIf_eq_ok] at hid hcursor
    rw [okOr_eq_ok] at hstream hheader
    obtain ⟨rfl, -⟩ := countLen_eq_ok.mp hcount
    obtain ⟨rfl, hle⟩ := checkedLimit_eq_ok.mp hlimit
    obtain ⟨rfl, hbytes⟩ := checkedIdentityBytes_eq_ok.mp hbytes
    rw [hone] at hbytes h
    exact ⟨hid, hle, ⟨stream, hstream, Nat.le_of_not_lt hcursor⟩,
      ⟨header, hheader, validateRedaction_eq_ok.mp hmatches⟩, hbytes, pure_eq_ok.mp h⟩
  · rintro ⟨hid, hle, ⟨stream, hstream, hcursor⟩, ⟨header, hheader, hmatches⟩, hbytes, rfl⟩
    have hid : rejectIf (envelope.envelopeId ∈ v.envelopes)
        (TraceError.duplicateEnvelopeId index) = .ok () := rejectIf_eq_ok.mpr hid
    have hcursor : rejectIf (envelope.cursor.get.toNat < stream.initialCursor)
        (TraceError.cursorBeforeInitial index) = .ok () :=
      rejectIf_eq_ok.mpr (Nat.not_lt_of_le hcursor)
    exact bind_ok hid <| bind_ok (countLen_eq_ok.mpr ⟨rfl, by omega⟩) <|
      bind_ok (checkedLimit_eq_ok.mpr ⟨rfl, hle⟩) <| bind_ok (okOr_eq_ok.mpr hstream) <|
      bind_ok hcursor <| bind_ok (okOr_eq_ok.mpr hheader) <|
      bind_ok (validateRedaction_eq_ok.mpr hmatches) <|
      bind_ok (checkedIdentityBytes_eq_ok.mpr ⟨congrArg _ hone, hbytes⟩) rfl

theorem pushSchedule_eq_ok {schedule : FaultSchedule} :
    v.pushSchedule index schedule = .ok v' ↔
      schedule.scheduleId ∉ v.schedules ∧
      v.schedules.card + 1 ≤ v.limits.maxFaultSchedulesPerTrace.toNat ∧
      v.faultActions + schedule.actions.length ≤ v.limits.maxFaultActionsPerTrace.toNat ∧
      v.identityBytes + len schedule.scheduleId ≤ v.limits.maxIdentityBytesPerTrace.toNat ∧
      ∃ planned, v.planSchedule index schedule = .ok planned ∧
        v.scheduleWork + planned.1 ≤ v.limits.maxScheduleWorkPerTrace.toNat ∧
        { v with
          schedules := insert schedule.scheduleId v.schedules
          schedulePlans := v.schedulePlans ++ [{
            id := schedule.scheduleId
            streamPrefixLen := v.streamOrder.length
            prefixLen := v.envelopeOrder.length
            actions := planned.2 }]
          faultActions := v.faultActions + schedule.actions.length
          identityBytes := v.identityBytes + len schedule.scheduleId
          scheduleWork := v.scheduleWork + planned.1 } = v' := by
  have hmax := v.limits.maxFaultSchedulesPerTrace.toNat_lt
  have hmaxActions := v.limits.maxFaultActionsPerTrace.toNat_lt
  have hone : ([schedule.scheduleId].map len).sum = len schedule.scheduleId := List.sum_singleton
  constructor
  · intro h
    obtain ⟨_, hid, h⟩ := bind_eq_ok.mp h
    obtain ⟨count, hcount, h⟩ := bind_eq_ok.mp h
    obtain ⟨_, hlimit, h⟩ := bind_eq_ok.mp h
    obtain ⟨actions, hactions, h⟩ := bind_eq_ok.mp h
    obtain ⟨total, htotal, h⟩ := bind_eq_ok.mp h
    obtain ⟨bytes, hbytes, h⟩ := bind_eq_ok.mp h
    obtain ⟨planned, hplanned, h⟩ := bind_eq_ok.mp h
    obtain ⟨work, hwork, h⟩ := bind_eq_ok.mp h
    rw [rejectIf_eq_ok] at hid
    obtain ⟨rfl, -⟩ := countLen_eq_ok.mp hcount
    obtain ⟨rfl, hle⟩ := checkedLimit_eq_ok.mp hlimit
    obtain ⟨rfl, -⟩ := countLen_eq_ok.mp hactions
    obtain ⟨rfl, htotal⟩ := checkedLimit_eq_ok.mp htotal
    obtain ⟨rfl, hbytes⟩ := checkedIdentityBytes_eq_ok.mp hbytes
    obtain ⟨rfl, hwork⟩ := checkedLimit_eq_ok.mp hwork
    rw [hone] at hbytes h
    exact ⟨hid, hle, htotal, hbytes, planned, hplanned, hwork, pure_eq_ok.mp h⟩
  · rintro ⟨hid, hle, htotal, hbytes, planned, hplanned, hwork, rfl⟩
    have hid : rejectIf (schedule.scheduleId ∈ v.schedules)
        (TraceError.duplicateScheduleId index) = .ok () := rejectIf_eq_ok.mpr hid
    exact bind_ok hid <| bind_ok (countLen_eq_ok.mpr ⟨rfl, by omega⟩) <|
      bind_ok (checkedLimit_eq_ok.mpr ⟨rfl, hle⟩) <|
      bind_ok (countLen_eq_ok.mpr ⟨rfl, by omega⟩) <|
      bind_ok (checkedLimit_eq_ok.mpr ⟨rfl, htotal⟩) <|
      bind_ok (checkedIdentityBytes_eq_ok.mpr ⟨congrArg _ hone, hbytes⟩) <|
      bind_ok hplanned <| bind_ok (checkedLimit_eq_ok.mpr ⟨rfl, hwork⟩) rfl

/-! ### One push -/

theorem streams_after (h : (streamIdsOf records).Nodup) {id : String} {facts : StreamFacts} :
    (after limits records).streams[id]? = some facts ↔
      ∃ stream ∈ streamsOf records, stream.streamId = id ∧
        facts = ⟨stream.initialCursor.get.toNat⟩ := by
  have hkeys : (((streamsOf records).map fun stream =>
      (stream.streamId, (⟨stream.initialCursor.get.toNat⟩ : StreamFacts))).map Prod.fst).Nodup := by
    rwa [List.map_map]
  show (ofEntries compare _)[id]? = some facts ↔ _
  rw [getElem?_ofEntries hkeys, List.mem_map]
  simp only [Prod.mk.injEq]
  constructor
  · rintro ⟨stream, hmem, hid, rfl⟩
    exact ⟨stream, hmem, hid, rfl⟩
  · rintro ⟨stream, hmem, hid, rfl⟩
    exact ⟨stream, hmem, hid, rfl⟩

theorem mem_streams_after {id : String} :
    id ∈ (after limits records).streams ↔ id ∈ streamIdsOf records := by
  show id ∈ ofEntries compare _ ↔ _
  rw [mem_ofEntries, List.map_map]
  rfl

theorem streams_size_after (h : (streamIdsOf records).Nodup) :
    (after limits records).streams.size = (streamsOf records).length := by
  show (ofEntries compare _).size = _
  rw [size_ofEntries (by rwa [List.map_map]), List.length_map]

theorem mem_envelopes_after {id : String} :
    id ∈ (after limits records).envelopes ↔ id ∈ envelopeIdsOf records := by
  show id ∈ ofEntries compare _ ↔ _
  rw [mem_ofEntries, List.zipIdx_map_fst]

theorem schedules_card_after (h : (scheduleIdsOf records).Nodup) :
    (after limits records).schedules.card = (schedulesOf records).length := by
  show (scheduleIdsOf records).toFinset.card = _
  rw [List.toFinset_card_of_nodup h, scheduleIdsOf, List.length_map]

theorem length_envelopeIdsOf : (envelopeIdsOf records).length = (envelopesOf records).length :=
  List.length_map _

/-- The only header of a well-formed beginning is its first record. -/
theorem header_after (h : WellFormed limits records) (hne : records ≠ []) :
    ∃ header, headersOf records = [header] ∧
      (after limits records).header = some ⟨header.redaction⟩ := by
  induction records using List.reverseRecOn with
  | nil => exact absurd rfl hne
  | append_singleton records record ih =>
      obtain ⟨hbefore, -, hplace, -⟩ := wellFormed_snoc.mp h
      have hcons : ∀ header, headersOf (records ++ [record]) = [header] →
          (after limits (records ++ [record])).header = some ⟨header.redaction⟩ := by
        intro header heq
        show (headersOf (records ++ [record])).head?.map _ = _
        rw [heq]
        rfl
      cases record with
      | traceHeader header =>
          obtain rfl : records = [] := hplace
          exact ⟨header, rfl, hcons header rfl⟩
      | stream stream =>
          obtain ⟨header, heq, -⟩ := ih hbefore hplace
          refine ⟨header, ?_, hcons header ?_⟩ <;> simp [headersOf_snoc, heq]
      | envelope envelope =>
          obtain ⟨header, heq, -⟩ := ih hbefore hplace.1
          refine ⟨header, ?_, hcons header ?_⟩ <;> simp [headersOf_snoc, heq]
      | faultSchedule schedule =>
          obtain ⟨header, heq, -⟩ := ih hbefore hplace.1
          refine ⟨header, ?_, hcons header ?_⟩ <;> simp [headersOf_snoc, heq]

/-- The state the next record leads to, before the record is counted. -/
def next (limits : Limits) (records : List Record) (record : Record) : TraceValidator :=
  { after limits (records ++ [record]) with records := records.length }

theorem pushStream_after (h : WellFormed limits records) {stream : StreamDeclaration} :
    (after limits records).pushStream index stream = .ok v' ↔
      Fits limits records (.stream stream) ∧ next limits records (.stream stream) = v' := by
  have hstate : next limits records (.stream stream) =
      { after limits records with
        streams := (after limits records).streams.insert stream.streamId
          ⟨stream.initialCursor.get.toNat⟩
        streamOrder := (after limits records).streamOrder ++ [stream.streamId]
        streamIdentities := insert (StreamIdentity.ofStream stream)
          (after limits records).streamIdentities
        identityBytes := (after limits records).identityBytes +
          (stream.identities.map len).sum } := by
    simp [next, after, headersOf_snoc, streamsOf_snoc, streamIdsOf_snoc, envelopeIdsOf_snoc,
      scheduleIdsOf_snoc, plansOf_snoc, faultActionsOf_snoc, identityBytesOf_snoc,
      scheduleWorkOf_snoc, ofEntries_snoc]
  rw [pushStream_eq_ok, hstate, mem_streams_after, streams_size_after h.streamIds]
  show _ ∧ StreamIdentity.ofStream stream ∉ (List.map _ _).toFinset ∧ _ ↔ _
  rw [List.mem_toFinset, Fits, and_assoc, and_assoc, and_assoc]
  rfl

theorem pushEnvelope_after (h : WellFormed limits records) (hne : records ≠ [])
    {envelope : EventEnvelope} :
    (after limits records).pushEnvelope index envelope = .ok v' ↔
      InPlace limits records (.envelope envelope) ∧ Fits limits records (.envelope envelope) ∧
        next limits records (.envelope envelope) = v' := by
  have hstate : next limits records (.envelope envelope) =
      { after limits records with
        envelopes := (after limits records).envelopes.insert envelope.envelopeId
          (after limits records).envelopeOrder.length
        envelopeOrder := (after limits records).envelopeOrder ++ [envelope.envelopeId]
        identityBytes := (after limits records).identityBytes + len envelope.envelopeId } := by
    simp [next, after, headersOf_snoc, streamsOf_snoc, streamIdsOf_snoc, envelopeIdsOf_snoc,
      scheduleIdsOf_snoc, plansOf_snoc, faultActionsOf_snoc, identityBytesOf_snoc,
      scheduleWorkOf_snoc, ofEntries_snoc, List.zipIdx_append]
  obtain ⟨header, hheaders, hheader⟩ := header_after h hne
  rw [pushEnvelope_eq_ok, hstate, mem_envelopes_after, (indexes_after h.envelopeIds).size,
    length_envelopeIdsOf]
  constructor
  · rintro ⟨hid, hle, ⟨facts, hfacts, hcursor⟩, ⟨facts', hfacts', hmatches⟩, hbytes, rfl⟩
    obtain ⟨stream, hmem, hstream, rfl⟩ := (streams_after h.streamIds).mp hfacts
    obtain rfl := Option.some.inj (hheader.symm.trans hfacts')
    refine ⟨⟨hne, ⟨stream, hmem, hstream, hcursor⟩, ?_⟩, ⟨hid, hle, hbytes⟩, rfl⟩
    rw [hheaders]
    simpa using hmatches
  · rintro ⟨⟨-, ⟨stream, hmem, hstream, hcursor⟩, hmatches⟩, ⟨hid, hle, hbytes⟩, rfl⟩
    have hfacts : (after limits records).streams[envelope.streamId]? =
        some ⟨stream.initialCursor.get.toNat⟩ :=
      (streams_after h.streamIds).mpr ⟨stream, hmem, hstream, rfl⟩
    rw [hheaders] at hmatches
    exact ⟨hid, hle, ⟨_, hfacts, hcursor⟩, ⟨_, hheader, hmatches header (List.mem_singleton_self _)⟩,
      hbytes, rfl⟩

theorem pushSchedule_after (h : WellFormed limits records) (hne : records ≠ [])
    {schedule : FaultSchedule} (hvalid : ∀ action ∈ schedule.actions, action.Valid) :
    (after limits records).pushSchedule index schedule = .ok v' ↔
      InPlace limits records (.faultSchedule schedule) ∧
        Fits limits records (.faultSchedule schedule) ∧
        next limits records (.faultSchedule schedule) = v' := by
  have hindexes : (after limits records).Indexes (envelopeIdsOf records) :=
    indexes_after h.envelopeIds
  have hstate : next limits records (.faultSchedule schedule) =
      { after limits records with
        schedules := insert schedule.scheduleId (after limits records).schedules
        schedulePlans := (after limits records).schedulePlans ++ [{
          id := schedule.scheduleId
          streamPrefixLen := (after limits records).streamOrder.length
          prefixLen := (after limits records).envelopeOrder.length
          actions := Replay.plannedAll (envelopeIdsOf records)
            (Replay.start (envelopeIdsOf records).length) schedule.actions }]
        faultActions := (after limits records).faultActions + schedule.actions.length
        identityBytes := (after limits records).identityBytes + len schedule.scheduleId
        scheduleWork := (after limits records).scheduleWork +
          ((envelopeIdsOf records).length + totalCopies schedule.actions) } := by
    simp [next, after, headersOf_snoc, streamsOf_snoc, streamIdsOf_snoc, envelopeIdsOf_snoc,
      scheduleIdsOf_snoc, plansOf_snoc, faultActionsOf_snoc, identityBytesOf_snoc,
      scheduleWorkOf_snoc]
  rw [pushSchedule_eq_ok, hstate, schedules_card_after h.scheduleIds]
  show schedule.scheduleId ∉ (scheduleIdsOf records).toFinset ∧ _ ↔ _
  rw [List.mem_toFinset]
  constructor
  · rintro ⟨hid, hle, hactions, hbytes, planned, hplanned, hwork, rfl⟩
    obtain ⟨hall, hoccurrences, rfl⟩ := planSchedule_sound hindexes hvalid hplanned
    exact ⟨⟨hne, hall, hoccurrences⟩, ⟨hid, hle, hactions, hbytes, hwork⟩, rfl⟩
  · rintro ⟨⟨-, hall, hoccurrences⟩, ⟨hid, hle, hactions, hbytes, hwork⟩, rfl⟩
    have hplan : ∃ planned, (after limits records).planSchedule index schedule = .ok planned :=
      planSchedule_complete hindexes hvalid hall hoccurrences hwork
    obtain ⟨planned, hplanned⟩ := hplan
    obtain ⟨-, -, rfl⟩ := planSchedule_sound hindexes hvalid hplanned
    exact ⟨hid, hle, hactions, hbytes, _, hplanned, hwork, rfl⟩

/-- A record is taken exactly when it is in place and fits. -/
theorem pushRecord_after (h : WellFormed limits records) {record : Record}
    (hvalid : record.validate limits = .ok ()) :
    (after limits records).pushRecord records.length record = .ok v' ↔
      InPlace limits records record ∧ Fits limits records record ∧
        next limits records record = v' := by
  have hzero : records.length = 0 ↔ records = [] := List.length_eq_zero_iff
  cases record with
  | traceHeader header =>
      simp only [pushRecord, InPlace, Fits, hzero, true_and]
      split
      next hnil =>
        subst hnil
        simp only [Except.ok.injEq, true_and]
        rfl
      next hne => simp [hne]
  | stream stream =>
      simp only [pushRecord, InPlace, hzero]
      split
      next hnil => simp [hnil]
      next hne =>
        rw [pushStream_after h]
        simp [hne]
  | envelope envelope =>
      simp only [pushRecord, hzero]
      split
      next hnil => simp [hnil, InPlace]
      next hne => exact pushEnvelope_after h hne
  | faultSchedule schedule =>
      simp only [pushRecord, hzero]
      split
      next hnil => simp [hnil, InPlace]
      next hne => exact pushSchedule_after h hne (Record.validate_faultSchedule hvalid)

/-- One push succeeds exactly when the longer sequence is well-formed, and
leads to its state. -/
theorem pushInner_after (h : WellFormed limits records) {record : ValidatedRecord} :
    (after limits records).pushInner record = .ok v' ↔
      WellFormed limits (records ++ [record.asRecord]) ∧
        after limits (records ++ [record.asRecord]) = v' := by
  have hmax := limits.maxRecordsPerTrace.toNat_lt
  have hcounted : after limits (records ++ [record.asRecord]) =
      { next limits records record.asRecord with records := records.length + 1 } := by
    simp [next, after]
  rw [wellFormed_snoc]
  constructor
  · intro hpush
    obtain ⟨count, hcount, hpush⟩ := bind_eq_ok.mp hpush
    obtain ⟨_, hvalid, hpush⟩ := bind_eq_ok.mp hpush
    obtain ⟨v₁, hrecord, hpush⟩ := bind_eq_ok.mp hpush
    obtain ⟨total, htotal, hpush⟩ := bind_eq_ok.mp hpush
    obtain rfl := pure_eq_ok.mp hpush
    obtain ⟨rfl, hle⟩ := checkedLimit_eq_ok.mp hcount
    rw [mapError_eq_ok] at hvalid
    obtain ⟨hplace, hfits, rfl⟩ := (pushRecord_after h hvalid).mp hrecord
    obtain ⟨rfl, -⟩ := checkedAdd_eq_some.mp (okOr_eq_ok.mp htotal)
    refine ⟨⟨h, hvalid, hplace, hle, hfits⟩, ?_⟩
    rw [hcounted]
    rfl
  · rintro ⟨⟨-, hvalid, hplace, hle, hfits⟩, rfl⟩
    have htotal : checkedAdd records.length 1 = some (records.length + 1) :=
      checkedAdd_eq_some.mpr ⟨rfl, by omega⟩
    rw [hcounted]
    exact bind_ok (checkedLimit_eq_ok.mpr ⟨rfl, hle⟩) <| bind_ok (mapError_eq_ok.mpr hvalid) <|
      bind_ok ((pushRecord_after h hvalid).mpr ⟨hplace, hfits, rfl⟩) <|
      bind_ok (okOr_eq_ok.mpr htotal) rfl

/-! ### Whole sequences -/

theorem push_after (h : WellFormed limits records) (record : ValidatedRecord) :
    (WellFormed limits (records ++ [record.asRecord]) ∧
      (after limits records).push record =
        (.ok (), after limits (records ++ [record.asRecord]))) ∨
    (¬ WellFormed limits (records ++ [record.asRecord]) ∧
      ∃ error failed, (after limits records).push record = (.error error, failed) ∧
        failed.failed = true) := by
  have hlive : (after limits records).failed = false := rfl
  unfold push
  rw [hlive, if_neg Bool.false_ne_true]
  cases hpush : (after limits records).pushInner record with
  | error error =>
      refine .inr ⟨fun hwell => ?_, error, _, rfl, rfl⟩
      have hok := (pushInner_after h).mpr ⟨hwell, rfl⟩
      rw [hpush] at hok
      cases hok
  | ok v =>
      obtain ⟨hwell, rfl⟩ := (pushInner_after h).mp hpush
      exact .inl ⟨hwell, rfl⟩

/-- A failure is sticky. -/
theorem pushAll_failed (h : v.failed = true) (more : List ValidatedRecord) :
    (v.pushAll more).failed = true := by
  induction more generalizing v with
  | nil => exact h
  | cons record more ih =>
      apply ih
      simp [push, h]

/-- A sequence is taken as long as it stays well-formed. -/
theorem pushAll_after (h : WellFormed limits records) (more : List ValidatedRecord) :
    (WellFormed limits (records ++ more.map ValidatedRecord.asRecord) ∧
      (after limits records).pushAll more =
        after limits (records ++ more.map ValidatedRecord.asRecord)) ∨
    (¬ WellFormed limits (records ++ more.map ValidatedRecord.asRecord) ∧
      ((after limits records).pushAll more).failed = true) := by
  induction more generalizing records with
  | nil =>
      rw [List.map_nil, List.append_nil]
      exact .inl ⟨h, rfl⟩
  | cons record more ih =>
      have happend : records ++ (record :: more).map ValidatedRecord.asRecord =
          (records ++ [record.asRecord]) ++ more.map ValidatedRecord.asRecord := by
        simp
      rw [happend]
      rcases push_after h record with ⟨hwell, hpush⟩ | ⟨hill, error, failed, hpush, hfailed⟩
      · have hstep : (after limits records).pushAll (record :: more) =
            (after limits (records ++ [record.asRecord])).pushAll more := by
          show ((after limits records).push record).2.pushAll more = _
          rw [hpush]
        rw [hstep]
        exact ih hwell
      · refine .inr ⟨fun hwell => hill hwell.of_append, ?_⟩
        show (((after limits records).push record).2.pushAll more).failed = true
        rw [hpush]
        exact pushAll_failed hfailed more

/-- What the plan of a well-formed trace holds. -/
theorem finishPlanned_after (h : WellFormed limits records) (hne : records ≠ []) :
    ∃ summary, (after limits records).finishPlanned = .ok {
      summary := summary
      limits := limits
      streamIds := streamIdsOf records
      envelopeIds := envelopeIdsOf records
      schedules := plansOf records } := by
  have hstreams := limits.maxStreamsPerTrace.toNat_lt
  have henvelopes := limits.maxEnvelopesPerTrace.toNat_lt
  have hschedules := limits.maxFaultSchedulesPerTrace.toNat_lt
  have hstreams_le := h.streams_le
  have henvelopes_le := h.envelopes_le
  have hschedules_le := h.schedules_le
  obtain ⟨header, -, hheader⟩ := header_after h hne
  have hsize : (after limits records).envelopes.size = (envelopesOf records).length := by
    rw [(indexes_after h.envelopeIds).size, length_envelopeIdsOf]
  have hlive : rejectIf ((after limits records).failed = true) TraceError.validatorFailed =
      .ok () := rejectIf_eq_ok.mpr Bool.false_ne_true
  refine ⟨_, bind_ok hlive <| bind_ok (okOr_eq_ok.mpr hheader) <|
    bind_ok (countLen_eq_ok.mpr ⟨streams_size_after h.streamIds, by omega⟩) <|
    bind_ok (countLen_eq_ok.mpr ⟨hsize, by omega⟩) <|
    bind_ok (countLen_eq_ok.mpr ⟨schedules_card_after h.scheduleIds, by omega⟩) rfl⟩

/-- A validator accepts exactly the well-formed traces. -/
theorem accepts_iff_wellFormed (hdepth : limits.maxDepth.toNat ≤ maxJsonDepth)
    (records : List ValidatedRecord) :
    ∃ fresh, new limits = .ok fresh ∧
      ((∃ plan, (fresh.pushAll records).finishPlanned = .ok plan) ↔
        records ≠ [] ∧ WellFormed limits (records.map ValidatedRecord.asRecord)) := by
  have hfresh : new limits = .ok (after limits []) := by
    have hle : rejectIf (limits.maxDepth.toNat > maxJsonDepth)
        (TraceError.unsupportedDepthLimit limits.maxDepth.toNat maxJsonDepth) = .ok () :=
      rejectIf_eq_ok.mpr (Nat.not_lt_of_le hdepth)
    exact bind_ok hle rfl
  refine ⟨after limits [], hfresh, ?_⟩
  rcases pushAll_after (wellFormed_nil limits) records with ⟨hwell, hall⟩ | ⟨hill, hfailed⟩
  · rw [hall, List.nil_append]
    rw [List.nil_append] at hwell
    constructor
    · rintro ⟨plan, hplan⟩
      refine ⟨?_, hwell⟩
      rintro rfl
      cases hplan
    · rintro ⟨hne, -⟩
      obtain ⟨summary, hplan⟩ := finishPlanned_after hwell (List.map_eq_nil_iff.not.mpr hne)
      exact ⟨_, hplan⟩
  · constructor
    · rintro ⟨plan, hplan⟩
      obtain ⟨_, hlive, -⟩ := bind_eq_ok.mp hplan
      exact absurd hfailed (rejectIf_eq_ok.mp hlive)
    · rintro ⟨-, hwell⟩
      exact absurd hwell hill

/-- The sample records, under the limits they were written for. -/
theorem accepts_sample_iff_wellFormed :
    ∃ fresh, new Sample.forgetful = .ok fresh ∧
      ((∃ plan, (fresh.pushAll Sample.records).finishPlanned = .ok plan) ↔
        Sample.records ≠ [] ∧
          WellFormed Sample.forgetful (Sample.records.map ValidatedRecord.asRecord)) :=
  accepts_iff_wellFormed (by decide) Sample.records

end TraceValidator

end KvCrucible
