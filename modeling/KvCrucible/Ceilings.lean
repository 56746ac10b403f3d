/-
KvCrucible/Ceilings.lean

Raising ceilings refuses nothing that was accepted.

`Raised` compares the ceilings of record validation, of the codec and of a
trace.  What these layers accept is said elsewhere without their running
counters (`Record.validate_eq_ok_iff`, `visits`, `encodeLine_eq_ok`,
`validate_trace`); here each of these conditions is kept when the ceilings are
raised, and what comes out does not depend on them.
-/
import KvCrucible.RoundTrip
import KvCrucible.TraceVerdict
import KvCrucible.Validity

namespace KvCrucible

open Basis Basis.JsonText

/-- Every ceiling of one line and of a whole trace is at least as high. -/
structure Raised (limits limits' : Limits) : Prop where
  lineBytes : limits.maxLineBytes ≤ limits'.maxLineBytes
  records : limits.maxRecordsPerTrace ≤ limits'.maxRecordsPerTrace
  streams : limits.maxStreamsPerTrace ≤ limits'.maxStreamsPerTrace
  envelopes : limits.maxEnvelopesPerTrace ≤ limits'.maxEnvelopesPerTrace
  faultSchedules : limits.maxFaultSchedulesPerTrace ≤ limits'.maxFaultSchedulesPerTrace
  faultActionsPerTrace : limits.maxFaultActionsPerTrace ≤ limits'.maxFaultActionsPerTrace
  identityBytesPerTrace : limits.maxIdentityBytesPerTrace ≤ limits'.maxIdentityBytesPerTrace
  occurrences : limits.maxOccurrencesPerSchedule ≤ limits'.maxOccurrencesPerSchedule
  scheduleWork : limits.maxScheduleWorkPerTrace ≤ limits'.maxScheduleWorkPerTrace
  depth : limits.maxDepth ≤ limits'.maxDepth
  values : limits.maxValues ≤ limits'.maxValues
  stringBytes : limits.maxStringBytes ≤ limits'.maxStringBytes
  identityBytes : limits.maxIdentityBytes ≤ limits'.maxIdentityBytes
  totalStringBytes : limits.maxTotalStringBytes ≤ limits'.maxTotalStringBytes
  arrayItems : limits.maxArrayItems ≤ limits'.maxArrayItems
  objectMembers : limits.maxObjectMembers ≤ limits'.maxObjectMembers
  mutations : limits.maxMutationsPerEnvelope ≤ limits'.maxMutationsPerEnvelope
  hashesPerMutation : limits.maxHashesPerMutation ≤ limits'.maxHashesPerMutation
  hashesPerEnvelope : limits.maxHashesPerEnvelope ≤ limits'.maxHashesPerEnvelope
  opaqueHashBytes : limits.maxOpaqueHashBytes ≤ limits'.maxOpaqueHashBytes
  tokenIds : limits.maxTokenIdsPerMutation ≤ limits'.maxTokenIdsPerMutation
  tokenCount : limits.maxTokenCount ≤ limits'.maxTokenCount
  blockSize : limits.maxBlockSize ≤ limits'.maxBlockSize
  workerMetadata : limits.maxWorkerMetadata ≤ limits'.maxWorkerMetadata
  faultActions : limits.maxFaultActions ≤ limits'.maxFaultActions
  duplicateCopies : limits.maxDuplicateCopies ≤ limits'.maxDuplicateCopies

section Raised

variable {limits limits' : Limits} (h : Raised limits limits')

/-! ### Records -/

theorem Affords.raised {ceiling ceiling' : UInt64} {total : Nat} (hle : ceiling ≤ ceiling')
    (h : Affords ceiling total) : Affords ceiling' total := by
  have hlt := ceiling'.toNat_lt
  have hle : ceiling.toNat ≤ ceiling'.toNat := hle
  unfold Affords at h ⊢
  omega

include h

theorem Identity.raised {value : String} (hvalue : Identity limits value) :
    Identity limits' value where
  nonempty := hvalue.nonempty
  identityBytes := hvalue.identityBytes.trans h.identityBytes
  stringBytes := hvalue.stringBytes.trans h.stringBytes

theorem Supply.Fits.raised {supply : Supply} (hsupply : supply.Fits limits) :
    supply.Fits limits' := by
  cases supply with
  | text value => exact Nat.le_trans hsupply h.stringBytes
  | node value depth =>
      obtain ⟨hdepth, hmembers, hvalues, hnumber⟩ := hsupply
      exact ⟨hdepth.trans h.depth, fun members heq => (hmembers members heq).trans h.objectMembers,
        fun values heq => (hvalues values heq).trans h.arrayItems, hnumber⟩

theorem InertFits.raised {members : IrObject} (hmembers : InertFits limits members) :
    InertFits limits' members :=
  fun supply hsupply => Supply.Fits.raised h (hmembers supply hsupply)

theorem OpaqueHash.Valid.raised {hash : OpaqueHash} (hhash : hash.Valid limits) :
    hash.Valid limits' := by
  cases hash with
  | u64 value => trivial
  | bytes value => exact ⟨hhash.1, hhash.2.trans h.opaqueHashBytes⟩

theorem ValidHashes.raised {hashes : List OpaqueHash} (hhashes : ValidHashes limits hashes) :
    ValidHashes limits' hashes where
  nonempty := hhashes.nonempty
  count := hhashes.count.trans h.hashesPerMutation
  each := fun hash hmem => OpaqueHash.Valid.raised h (hhashes.each hash hmem)

theorem StorageMedium.Valid.raised {medium : StorageMedium} (hmedium : medium.Valid limits) :
    medium.Valid limits' := by
  cases medium with
  | named value => exact Identity.raised h hmedium
  | unspecified => trivial

theorem Lineage.Valid.raised {lineage : Lineage} (hlineage : lineage.Valid limits) :
    lineage.Valid limits' := by
  cases lineage with
  | chain parentOfFirst => exact OpaqueHash.Valid.raised h hlineage
  | opaque_ => trivial

theorem TokenEvidence.Valid.raised {tokenCount : Option UInt64} {evidence : TokenEvidence}
    (hevidence : evidence.Valid limits tokenCount) : evidence.Valid limits' tokenCount := by
  cases evidence with
  | keyedDigest algorithm keyId value => exact Identity.raised h hevidence
  | unkeyedDigest algorithm value => trivial
  | tokenIds values => exact ⟨hevidence.1.trans h.tokenIds, hevidence.2⟩

theorem Mutation.Valid.raised {mutation : Mutation} (hmutation : mutation.Valid limits) :
    mutation.Valid limits' := by
  cases mutation with
  | storeRun run =>
      have hrun : run.Valid limits := hmutation
      exact {
        hashes := hrun.hashes.raised h
        lineage := fun lineage hmem => Lineage.Valid.raised h (hrun.lineage lineage hmem)
        tokenCount := fun count hmem =>
          ⟨(hrun.tokenCount count hmem).1,
            UInt64.le_trans (hrun.tokenCount count hmem).2 h.tokenCount⟩
        tokenEvidence := fun evidence hmem =>
          TokenEvidence.Valid.raised h (hrun.tokenEvidence evidence hmem)
        blockSize := fun size hmem =>
          ⟨(hrun.blockSize size hmem).1, UInt32.le_trans (hrun.blockSize size hmem).2 h.blockSize⟩
        medium := StorageMedium.Valid.raised h hrun.medium
        blockMetadata := fun objects hmem => ⟨(hrun.blockMetadata objects hmem).1,
          fun object hobject =>
            InertFits.raised h ((hrun.blockMetadata objects hmem).2 object hobject)⟩
        metadata := InertFits.raised h hrun.metadata : run.Valid limits' }
  | remove hashes group medium metadata =>
      obtain ⟨hhashes, hmedium, hmetadata⟩ := hmutation
      exact ⟨hhashes.raised h, StorageMedium.Valid.raised h hmedium, InertFits.raised h hmetadata⟩
  | clear metadata => exact InertFits.raised h hmutation

theorem FaultAction.Meets.raised {action : FaultAction} (haction : action.Meets limits) :
    action.Meets limits' := by
  cases action with
  | drop target => exact Identity.raised h haction
  | duplicate target copies =>
      obtain ⟨hid, hcopies, hle⟩ := haction
      exact ⟨hid.raised h, hcopies, UInt16.le_trans hle h.duplicateCopies⟩
  | moveBefore target anchor =>
      obtain ⟨htarget, hanchor, hne⟩ := haction
      exact ⟨htarget.raised h, hanchor.raised h, hne⟩

theorem Record.Meets.raised {record : Record} (hrecord : record.Meets limits) :
    record.Meets limits' := by
  cases record with
  | traceHeader header =>
      obtain ⟨hformat, htrace, hcreated, hextensions⟩ := hrecord
      exact ⟨hformat, htrace.raised h, hcreated.raised h, InertFits.raised h hextensions⟩
  | stream s =>
      obtain ⟨hid, hengine, hversion, hinstance, hpublisher, hepoch, hcount, hworkers,
        hextensions⟩ := hrecord
      exact ⟨hid.raised h, hengine.raised h, hversion.raised h, hinstance.raised h,
        hpublisher.raised h, hepoch.raised h, Nat.le_trans hcount h.workerMetadata,
        fun worker hmem => (hworkers worker hmem).raised h, InertFits.raised h hextensions⟩
  | envelope e =>
      obtain ⟨hid, hstream, hcount, hmutations, hextensions⟩ := hrecord
      exact ⟨hid.raised h, hstream.raised h, Nat.le_trans hcount h.mutations,
        fun mutation hmem => Mutation.Valid.raised h (hmutations mutation hmem),
        InertFits.raised h hextensions⟩
  | faultSchedule schedule =>
      obtain ⟨hid, hcount, hactions, hextensions⟩ := hrecord
      exact ⟨hid.raised h, Nat.le_trans hcount h.faultActions,
        fun action hmem => FaultAction.Meets.raised h (hactions action hmem),
        InertFits.raised h hextensions⟩

theorem Record.Valid.raised {record : Record} (hrecord : record.Valid limits) :
    record.Valid limits' where
  meets := Record.Meets.raised h hrecord.meets
  stringBytes := hrecord.stringBytes.raised h.totalStringBytes
  jsonValues := hrecord.jsonValues.raised h.values
  envelopeHashes := hrecord.envelopeHashes.raised h.hashesPerEnvelope

/-- A record stays valid. -/
theorem validate_raised {record : Record} (hrecord : record.validate limits = .ok ()) :
    record.validate limits' = .ok () :=
  Record.validate_eq_ok.mpr (Record.Valid.raised h (Record.validate_eq_ok.mp hrecord))

/-! ### Lines -/

theorem NodeFits.raised {node : Json × Nat} (hnode : NodeFits limits node) :
    NodeFits limits' node where
  depth := hnode.depth.trans h.depth
  text := fun s hs => (hnode.text s hs).trans h.stringBytes
  items := hnode.items.trans h.arrayItems
  members := hnode.members.trans h.objectMembers
  keys := hnode.keys

theorem Within.raised {s : DecodeState} (hs : Within limits s) : Within limits' s where
  values := hs.values.trans h.values
  strings := hs.strings.trans h.totalStringBytes

theorem WithinBudgets.raised {tree : Json} (htree : WithinBudgets limits tree) :
    WithinBudgets limits' tree where
  depth := fun node hnode => (htree.depth node hnode).trans h.depth
  values := htree.values.trans h.values
  text := fun node hnode s hs => (htree.text node hnode s hs).trans h.stringBytes
  strings := htree.strings.trans h.totalStringBytes
  items := fun node hnode => (htree.items node hnode).trans h.arrayItems
  members := fun node hnode => (htree.members node hnode).trans h.objectMembers

section Depth

variable (hdepth : limits'.maxDepth.toNat ≤ maxJsonDepth)

include hdepth

/-- A text is decoded to the same tree. -/
theorem decodeValue_raised {reader : Reader} {text : List UInt8} {json : Json}
    (hvalue : decodeValue reader text limits = .ok json) :
    decodeValue reader text limits' = .ok json := by
  have hroom : limits'.maxDepth.toNat < 2 ^ 64 - 1 :=
    hdepth.trans_lt (by decide)
  have hle : limits.maxDepth.toNat ≤ limits'.maxDepth.toNat := h.depth
  obtain ⟨_, hnumbers, hvalue⟩ := bind_eq_ok.mp hvalue
  obtain ⟨⟨value, s⟩, hseed, hvalue⟩ := bind_eq_ok.mp hvalue
  -- the visitors say no more than the tree does
  have hseed' : valueSeed limits' 1 .new (reader.read text).value = .ok (value, s) := by
    obtain ⟨tree, htree, hsorted, hs, hfits, hwithin⟩ :=
      (visits (hle.trans_lt hroom) _ within_new).mp (mapError_eq_ok.mp hseed)
    apply (visits hroom _ within_new).mpr
    exact ⟨tree, htree, hsorted, hs, fun node hnode => NodeFits.raised h (hfits node hnode),
      Within.raised h hwithin⟩
  exact bind_ok hnumbers (bind_ok (mapError_eq_ok.mpr hseed') hvalue)

/-- A line is decoded to the same record. -/
theorem decodeLine_raised {reader : Reader} {convert : Json → Option Record}
    {input : List UInt8} {record : ValidatedRecord}
    (hline : decodeLine reader convert input limits = .ok record) :
    decodeLine reader convert input limits' = .ok record := by
  have hdecodes := decodeLine_eq_ok.mp hline
  obtain ⟨json, hvalue, hconvert⟩ := hdecodes.value
  exact decodeLine_eq_ok.mpr { hdecodes with
    depth := hdepth
    length := hdecodes.length.trans h.lineBytes
    value := ⟨json, decodeValue_raised h hdepth hvalue, hconvert⟩
    valid := validate_raised h hdecodes.valid }

/-- A record is encoded to the same line. -/
theorem encodeLine_raised {serde : Serializers} {reader : Reader} {record : ValidatedRecord}
    {bytes : List UInt8} (hordered : record.asRecord.Ordered)
    (hserde : serde.Faithful reader record.asRecord.toJson)
    (hline : encodeLine serde reader record limits = .ok bytes) :
    encodeLine serde reader record limits' = .ok bytes := by
  obtain ⟨-, hvalid, hplain, hbudgets, hcanonical, hbytes⟩ :=
    (encodeLine_eq_ok hordered hserde).mp hline
  exact (encodeLine_eq_ok hordered hserde).mpr ⟨hdepth, validate_raised h hvalid,
    hplain.trans h.lineBytes, WithinBudgets.raised h hbudgets, hcanonical.trans h.lineBytes, hbytes⟩

end Depth

/-! ### Traces -/

theorem Replayable.raised {before : List Record} {schedule : FaultSchedule}
    (hschedule : Replayable limits before schedule) : Replayable limits' before schedule :=
  ⟨hschedule.1, hschedule.2.trans h.occurrences⟩

theorem InPlace.raised {before : List Record} {record : Record}
    (hrecord : InPlace limits before record) : InPlace limits' before record := by
  cases record with
  | traceHeader header => exact hrecord
  | stream s => exact hrecord
  | envelope e => exact hrecord
  | faultSchedule schedule => exact ⟨hrecord.1, Replayable.raised h hrecord.2⟩

/-- A trace stays well-formed. -/
theorem WellFormed.raised {records : List Record} (hrecords : WellFormed limits records) :
    WellFormed limits' records where
  valid := fun record hmem => validate_raised h (hrecords.valid record hmem)
  inPlace := fun before record after heq =>
    InPlace.raised h (hrecords.inPlace before record after heq)
  streamIds := hrecords.streamIds
  streamIdentities := hrecords.streamIdentities
  envelopeIds := hrecords.envelopeIds
  scheduleIds := hrecords.scheduleIds
  records_le := hrecords.records_le.trans h.records
  streams_le := hrecords.streams_le.trans h.streams
  envelopes_le := hrecords.envelopes_le.trans h.envelopes
  schedules_le := hrecords.schedules_le.trans h.faultSchedules
  faultActions_le := hrecords.faultActions_le.trans h.faultActionsPerTrace
  identityBytes_le := hrecords.identityBytes_le.trans h.identityBytesPerTrace
  scheduleWork_le := hrecords.scheduleWork_le.trans h.scheduleWork

/-- A trace passes with the same summary. -/
theorem validateTrace_raised (hdepth : limits'.maxDepth.toNat ≤ maxJsonDepth)
    {records : List ValidatedRecord} {summary : TraceSummary}
    (htrace : validateTrace records limits = .ok summary) :
    validateTrace records limits' = .ok summary := by
  obtain ⟨-, hwell, hsummary⟩ := validateTrace_eq_ok.mp htrace
  exact validateTrace_eq_ok.mpr ⟨hdepth, WellFormed.raised h hwell, hsummary⟩

end Raised

/-- Raising the ceilings, within the supported depth, refuses nothing that was
accepted and changes no result: a record stays valid, a line is decoded to the
same record, a record is encoded to the same line and a trace passes with the
same summary. -/
theorem raised_ceilings_keep {limits limits' : Limits} (h : Raised limits limits')
    (hdepth : limits'.maxDepth.toNat ≤ maxJsonDepth) :
    (∀ record : Record, record.validate limits = .ok () → record.validate limits' = .ok ()) ∧
    (∀ (reader : Reader) (convert : Json → Option Record) (input : List UInt8)
      (record : ValidatedRecord), decodeLine reader convert input limits = .ok record →
      decodeLine reader convert input limits' = .ok record) ∧
    (∀ (serde : Serializers) (reader : Reader) (record : ValidatedRecord) (bytes : List UInt8),
      record.asRecord.Ordered → serde.Faithful reader record.asRecord.toJson →
      encodeLine serde reader record limits = .ok bytes →
      encodeLine serde reader record limits' = .ok bytes) ∧
    ∀ (records : List ValidatedRecord) (summary : TraceSummary),
      validateTrace records limits = .ok summary → validateTrace records limits' = .ok summary :=
  ⟨fun _ => validate_raised h, fun _ _ _ _ => decodeLine_raised h hdepth,
    fun _ _ _ _ => encodeLine_raised h hdepth, fun _ _ => validateTrace_raised h hdepth⟩

namespace Sample

/-- The deepest supported limits. -/
def deepest : Limits := { Limits.default with maxDepth := 64 }

theorem raised_deepest : Raised Limits.default deepest := by
  constructor <;> decide

/-- The law at a schedule, which stays valid and is encoded to and decoded from
the same line, and at the sample trace, which passes with the same summary. -/
theorem raised_ceilings_keep_schedule :
    (Record.faultSchedule schedule).validate deepest = .ok () ∧
    decodeLine (twoTexts declared inOrder) fromValue (printed inOrder ++ [10]) deepest =
      .ok validSchedule ∧
    encodeLine serde (twoTexts declared inOrder) validSchedule deepest =
      .ok (printed inOrder ++ [10]) ∧
    ∃ summary, validateTrace records .default = .ok summary ∧
      validateTrace records deepest = .ok summary := by
  obtain ⟨hvalid, hdecode, hencode, htrace⟩ := raised_ceilings_keep raised_deepest (by decide)
  have hpasses : (validateTrace records .default).isOk = true := by decide +kernel
  refine ⟨hvalid _ schedule_valid, ?_, ?_, ?_⟩
  · exact hdecode _ _ _ _ (decodeLine_encoded schedule_ordered serde_faithful encodeLine_schedule)
  · exact hencode serde (twoTexts declared inOrder) validSchedule (printed inOrder ++ [10])
      schedule_ordered serde_faithful encodeLine_schedule
  · cases hsummary : validateTrace records .default with
    | error error =>
        rw [hsummary] at hpasses
        cases hpasses
    | ok summary => exact ⟨summary, rfl, htrace records summary hsummary⟩

end Sample

end KvCrucible
