/-
KvCrucible/Validate.lean

Record-local semantic validation (`Record::validate` in `ir.rs`).

One `ValidationContext` is threaded through a record: it accumulates the
string bytes, inert JSON values and cache hashes seen so far and stops at
the first violated requirement.  A `ValidatedRecord` is a record together
with the fact that some limits accepted it; which limits is forgotten, so
every later layer validates again under its own.
-/
import KvCrucible.Basis.Except
import KvCrucible.Ir

namespace KvCrucible

open Basis

/-- `usize::saturating_add`. -/
def saturatingAdd (a b : Nat) : Nat := min (a + b) (2 ^ 64 - 1)

/-- `ValidationError`. -/
inductive ValidationError where
  | unsupportedFormat
  | emptyField (field : String)
  | fieldTooLong (field : String) (limit actual : Nat)
  | tooManyItems (field : String) (limit actual : Nat)
  | emptyHashes (operation : String)
  | invalidOpaqueHashLength (limit actual : Nat)
  | blockMetadataLength (hashes metadata : Nat)
  | tokenCountExceeded (limit actual : Nat)
  | tokenCountMismatch (declared tokenIds : Nat)
  | invalidBlockSize (limit actual : Nat)
  | tooManyEnvelopeHashes (limit actual : Nat)
  | unsafeJsonInteger
  | jsonLimitExceeded (limitName : String) (limit actual : Nat)
  | invalidDuplicateCopies (limit actual : Nat)
  | sameMoveTargetAndAnchor
  deriving DecidableEq

/-- `ValidationContext`. -/
structure ValidationContext where
  limits : Limits
  stringBytes : Nat
  jsonValues : Nat
  envelopeHashes : Nat

namespace ValidationContext

/-- `ValidationContext::new`. -/
def new (limits : Limits) : ValidationContext where
  limits := limits
  stringBytes := 0
  jsonValues := 0
  envelopeHashes := 0

variable (c : ValidationContext)

/-! ### Counters -/

/-- `add_string_bytes`. -/
def addStringBytes (added : Nat) : Except ValidationError ValidationContext := do
  let stringBytes := saturatingAdd c.stringBytes added
  rejectIf (stringBytes > c.limits.maxTotalStringBytes.toNat)
    (.jsonLimitExceeded "total_string_bytes" c.limits.maxTotalStringBytes.toNat stringBytes)
  return { c with stringBytes := stringBytes }

/-- `json_value_count`. -/
def jsonValueCount (added : Nat) : Except ValidationError ValidationContext := do
  let jsonValues := saturatingAdd c.jsonValues added
  rejectIf (jsonValues > c.limits.maxValues.toNat)
    (.jsonLimitExceeded "json_values" c.limits.maxValues.toNat jsonValues)
  return { c with jsonValues := jsonValues }

/-- `depth`. -/
def depth (depth : Nat) : Except ValidationError Unit :=
  rejectIf (depth > c.limits.maxDepth.toNat)
    (.jsonLimitExceeded "json_depth" c.limits.maxDepth.toNat depth)

/-- `items`. -/
def items (field : String) (actual limit : Nat) : Except ValidationError Unit :=
  rejectIf (actual > limit) (.tooManyItems field limit actual)

/-- `string`. -/
def string (value : String) : Except ValidationError ValidationContext := do
  rejectIf (len value > c.limits.maxStringBytes.toNat)
    (.jsonLimitExceeded "string_bytes" c.limits.maxStringBytes.toNat (len value))
  c.addStringBytes (len value)

/-- `identity`. -/
def identity (field value : String) : Except ValidationError ValidationContext := do
  rejectIf (value.isEmpty) (.emptyField field)
  let limit := min c.limits.maxIdentityBytes.toNat c.limits.maxStringBytes.toNat
  rejectIf (len value > limit) (.fieldTooLong field limit (len value))
  c.addStringBytes (len value)

/-! ### Inert JSON -/

mutual

/-- `value`: the object branch is `object`. -/
def value (c : ValidationContext) : IrValue → Nat → Except ValidationError ValidationContext
  | .object members, depth => do
      let c ← c.jsonValueCount 1
      items "object_members" members.length c.limits.maxObjectMembers.toNat
      c.depth depth
      objectMembers c members depth
  | .null, depth => do
      let c ← c.jsonValueCount 1
      c.depth depth
      return c
  | .bool _, depth => do
      let c ← c.jsonValueCount 1
      c.depth depth
      return c
  | .integer number, depth => do
      let c ← c.jsonValueCount 1
      c.depth depth
      rejectIf (number.toInt.natAbs > maxSafeJsonInteger) .unsafeJsonInteger
      return c
  | .string string, depth => do
      let c ← c.jsonValueCount 1
      c.depth depth
      c.string string
  | .array values, depth => do
      let c ← c.jsonValueCount 1
      c.depth depth
      items "array_items" values.length c.limits.maxArrayItems.toNat
      arrayItems c values depth

/-- The loop of `value` over array items. -/
def arrayItems (c : ValidationContext) :
    List IrValue → Nat → Except ValidationError ValidationContext
  | [], _ => .ok c
  | child :: rest, depth => do
      let c ← value c child (depth + 1)
      arrayItems c rest depth

/-- The loop of `object` over its members. -/
def objectMembers (c : ValidationContext) :
    List (String × IrValue) → Nat → Except ValidationError ValidationContext
  | [], _ => .ok c
  | (key, child) :: rest, depth => do
      let c ← c.string key
      let c ← value c child (depth + 1)
      objectMembers c rest depth

end

/-- `object`. -/
def object (members : IrObject) (depth : Nat) : Except ValidationError ValidationContext := do
  let c ← c.jsonValueCount 1
  items "object_members" members.length c.limits.maxObjectMembers.toNat
  c.depth depth
  objectMembers c members depth

/-! ### Mutations -/

/-- `hash`. -/
def hash : OpaqueHash → Except ValidationError Unit
  | .u64 _ => .ok ()
  | .bytes value =>
      let actual := value.asBytes.length
      rejectIf (actual = 0 ∨ actual > c.limits.maxOpaqueHashBytes.toNat)
        (.invalidOpaqueHashLength c.limits.maxOpaqueHashBytes.toNat actual)

/-- `hashes`. -/
def hashes (operation : String) (hashes : List OpaqueHash) :
    Except ValidationError ValidationContext := do
  rejectIf hashes.isEmpty (.emptyHashes operation)
  items "hashes" hashes.length c.limits.maxHashesPerMutation.toNat
  let c := { c with envelopeHashes := saturatingAdd c.envelopeHashes hashes.length }
  rejectIf (c.envelopeHashes > c.limits.maxHashesPerEnvelope.toNat)
    (.tooManyEnvelopeHashes c.limits.maxHashesPerEnvelope.toNat c.envelopeHashes)
  hashes.forM c.hash
  return c

/-- The check of a chained lineage's parent. -/
def lineage : Option Lineage → Except ValidationError Unit
  | some (.chain parentOfFirst) => c.hash parentOfFirst
  | _ => .ok ()

/-- `medium`. -/
def medium : StorageMedium → Except ValidationError ValidationContext
  | .named value => c.identity "medium" value
  | .unspecified => .ok c

/-- A declared token count must match raw token evidence. -/
def tokenCountMatches (values : List UInt32) : Option UInt64 → Except ValidationError Unit
  | some declared =>
      rejectIf (declared.toNat ≠ values.length)
        (.tokenCountMismatch declared.toNat values.length)
  | none => .ok ()

/-- `token_evidence`, at an optional field. -/
def tokenEvidence (tokenCount : Option UInt64) :
    Option TokenEvidence → Except ValidationError ValidationContext
  | none => .ok c
  | some (.keyedDigest _ keyId _) => c.identity "key_id" keyId
  | some (.unkeyedDigest _ _) => .ok c
  | some (.tokenIds values) => do
      items "token_ids" values.length c.limits.maxTokenIdsPerMutation.toNat
      tokenCountMatches values tokenCount
      return c

/-- The two checks of a declared token count. -/
def tokenCount : Option UInt64 → Except ValidationError Unit
  | some count => do
      rejectIf (count.toNat > maxSafeJsonInteger) .unsafeJsonInteger
      rejectIf (count > c.limits.maxTokenCount)
        (.tokenCountExceeded c.limits.maxTokenCount.toNat count.toNat)
  | none => .ok ()

/-- The check of a declared block size. -/
def blockSize : Option UInt32 → Except ValidationError Unit
  | some size =>
      rejectIf (size = 0 ∨ size > c.limits.maxBlockSize)
        (.invalidBlockSize c.limits.maxBlockSize.toNat size.toNat)
  | none => .ok ()

/-- The check of aligned per-hash metadata. -/
def blockMetadata (hashes : List OpaqueHash) :
    Option (List IrObject) → Except ValidationError ValidationContext
  | some objects => do
      rejectIf (objects.length ≠ hashes.length)
        (.blockMetadataLength hashes.length objects.length)
      objects.foldlM (fun c object => c.object object 1) c
  | none => .ok c

/-- `validate_mutation`. -/
def validateMutation : Mutation → Except ValidationError ValidationContext
  | .storeRun run => do
      let c ← c.hashes "store_run" run.hashes
      c.lineage run.lineage
      c.tokenCount run.tokenCount
      let c ← c.tokenEvidence run.tokenCount run.tokenEvidence
      c.blockSize run.blockSize
      let c ← c.medium run.medium
      let c ← c.blockMetadata run.hashes run.blockMetadata
      c.object run.metadata 1
  | .remove hashes _ medium metadata => do
      let c ← c.hashes "remove" hashes
      let c ← c.medium medium
      c.object metadata 1
  | .clear metadata => c.object metadata 1

/-! ### Records -/

/-- `validate_header`. -/
def validateHeader (header : TraceHeader) : Except ValidationError ValidationContext := do
  rejectIf (header.format ≠ traceFormatVersion) .unsupportedFormat
  let c ← c.identity "trace_id" header.traceId
  let c ← c.identity "created_by" header.createdBy
  c.object header.extensions 1

/-- `validate_stream`. -/
def validateStream (stream : StreamDeclaration) : Except ValidationError ValidationContext := do
  let c ← c.identity "stream_id" stream.streamId
  let c ← c.identity "engine" stream.engine
  let c ← c.identity "engine_version" stream.engineVersion
  let c ← c.identity "engine_instance" stream.engineInstance
  let c ← c.identity "publisher" stream.publisher
  let c ← c.identity "epoch" stream.epoch
  items "worker_metadata" stream.workerMetadata.length c.limits.maxWorkerMetadata.toNat
  let c ← stream.workerMetadata.foldlM (fun c worker => c.identity "worker_metadata" worker) c
  c.object stream.extensions 1

/-- `validate_envelope`. -/
def validateEnvelope (envelope : EventEnvelope) : Except ValidationError ValidationContext := do
  let c ← c.identity "envelope_id" envelope.envelopeId
  let c ← c.identity "stream_id" envelope.streamId
  items "mutations" envelope.mutations.length c.limits.maxMutationsPerEnvelope.toNat
  let c ← envelope.mutations.foldlM validateMutation c
  c.object envelope.extensions 1

/-- `delivery_ref`. -/
def deliveryRef (delivery : DeliveryRef) : Except ValidationError ValidationContext :=
  c.identity "envelope_id" delivery.envelopeId

/-- One action of `validate_schedule`. -/
def validateAction : FaultAction → Except ValidationError ValidationContext
  | .drop target => c.deliveryRef target
  | .duplicate target copies => do
      let c ← c.deliveryRef target
      rejectIf (copies = 0 ∨ copies > c.limits.maxDuplicateCopies)
        (.invalidDuplicateCopies c.limits.maxDuplicateCopies.toNat copies.toNat)
      return c
  | .moveBefore target anchor => do
      let c ← c.deliveryRef target
      let c ← c.deliveryRef anchor
      rejectIf (target = anchor) .sameMoveTargetAndAnchor
      return c

/-- `validate_schedule`. -/
def validateSchedule (schedule : FaultSchedule) : Except ValidationError ValidationContext := do
  let c ← c.identity "schedule_id" schedule.scheduleId
  items "fault_actions" schedule.actions.length c.limits.maxFaultActions.toNat
  let c ← schedule.actions.foldlM validateAction c
  c.object schedule.extensions 1

end ValidationContext

/-- `Record::validate`, with the context it ends in. -/
def ValidationContext.validateRecord (context : ValidationContext) :
    Record → Except ValidationError ValidationContext
  | .traceHeader header => context.validateHeader header
  | .stream stream => context.validateStream stream
  | .envelope envelope => context.validateEnvelope envelope
  | .faultSchedule schedule => context.validateSchedule schedule

/-- `Record::validate`. -/
def Record.validate (record : Record) (limits : Limits) : Except ValidationError Unit := do
  let _ ← (ValidationContext.new limits).validateRecord record
  return ()

/-- `ValidatedRecord`: a record that passed validation under some limits. -/
structure ValidatedRecord where
  asRecord : Record
  validated : ∃ limits, asRecord.validate limits = .ok ()

/-- `ValidatedRecord::new`. -/
def ValidatedRecord.new (record : Record) (limits : Limits) :
    Except ValidationError ValidatedRecord :=
  match h : record.validate limits with
  | .ok () => .ok ⟨record, limits, h⟩
  | .error error => .error error

/-! ### A sample trace -/

namespace Sample

/-- The default limits without a window of recent fingerprints. -/
def forgetful : Limits := { Limits.default with maxRecentFingerprintsPerStream := 0 }

/-- Two envelopes that contradict each other, and a schedule that drops the
first of them. -/
def records : List ValidatedRecord := [
  ⟨.traceHeader header, forgetful, by decide +kernel⟩,
  ⟨.stream stream, forgetful, by decide +kernel⟩,
  ⟨.envelope (envelope "first" 0 [store 1]), forgetful, by decide +kernel⟩,
  ⟨.envelope (envelope "second" 0 [store 2]), forgetful, by decide +kernel⟩,
  ⟨.faultSchedule schedule, forgetful, by decide +kernel⟩]

end Sample

end KvCrucible
