/-
KvCrucible/Ir.lean

The typed records of `kvcrucible.trace/v1alpha1` (`ir.rs`): stream
declarations, event envelopes with their cache mutations, and fault
schedules.

Every field of the source is present.  Integer fields keep their width.  A
`BTreeMap<String, IrValue>` is the list of its entries in key order: the
records only ever count and walk those entries.
-/
import KvCrucible.Limits

namespace KvCrucible

/-- `TRACE_FORMAT_VERSION`. -/
def traceFormatVersion : String := "kvcrucible.trace/v1alpha1"

/-- `MAX_SAFE_JSON_INTEGER`, the largest interoperable JSON integer. -/
def maxSafeJsonInteger : Nat := 9007199254740991

/-- `str::len`: the UTF-8 length. -/
abbrev len (value : String) : Nat := value.utf8ByteSize

/-! ### Inert JSON -/

/-- `IrValue`: inert JSON data without floating-point numbers. -/
inductive IrValue where
  | null
  | bool (value : Bool)
  | integer (value : Int64)
  | string (value : String)
  | array (values : List IrValue)
  | object (members : List (String × IrValue))

/-- Induction over an inert value. -/
theorem IrValue.inductionOn {P : IrValue → Prop} (value : IrValue) (null : P .null)
    (bool : ∀ b, P (.bool b)) (integer : ∀ n, P (.integer n)) (string : ∀ s, P (.string s))
    (array : ∀ values, (∀ child ∈ values, P child) → P (.array values))
    (object : ∀ members, (∀ member ∈ members, P member.2) → P (.object members)) : P value :=
  @IrValue.rec P (fun values => ∀ child ∈ values, P child)
    (fun members => ∀ member ∈ members, P member.2) (fun member => P member.2) null bool integer
    string array object (List.forall_mem_nil _)
    (fun _ _ hchild hrest => List.forall_mem_cons.mpr ⟨hchild, hrest⟩) (List.forall_mem_nil _)
    (fun _ _ hmember hrest => List.forall_mem_cons.mpr ⟨hmember, hrest⟩) (fun _ _ hvalue => hvalue)
    value

/-- `IrObject`: the entries of the map in key order. -/
abbrev IrObject := List (String × IrValue)

/-! ### Scalars -/

/-- `DecimalU64`. -/
structure DecimalU64 where
  get : UInt64
  deriving DecidableEq

/-- `Base64Bytes`: the decoded bytes. -/
structure Base64Bytes where
  asBytes : List UInt8
  deriving DecidableEq

/-- `Sha256Digest`. -/
structure Sha256Digest where
  asBytes : Vector UInt8 32
  deriving DecidableEq

/-- `OpaqueHash`: the wire representation is part of a hash's identity. -/
inductive OpaqueHash where
  | u64 (value : DecimalU64)
  | bytes (value : Base64Bytes)
  deriving DecidableEq

/-! ### Enumerations -/

/-- `RedactionMode`: trace-level statement about token data. -/
inductive RedactionMode where
  | omitted
  | keyedDigests
  | unkeyedLinkable
  | containsTokenIds
  deriving DecidableEq

/-- `Baseline`: the raw claim about the initial cache view. -/
inductive Baseline where
  | emptyAtEngineStart
  | unknownAtAttach
  deriving DecidableEq

/-- `Origin`. -/
inductive Origin where
  | live
  | replay
  deriving DecidableEq

/-- `CacheGroup`. -/
inductive CacheGroup where
  | index (value : UInt32)
  | unspecified
  deriving DecidableEq

/-- `StorageMedium`. -/
inductive StorageMedium where
  | named (value : String)
  | unspecified
  deriving DecidableEq

/-- `Lineage`. -/
inductive Lineage where
  | chain (parentOfFirst : OpaqueHash)
  | opaque_
  deriving DecidableEq

/-- `KeyedDigestAlgorithm`. -/
inductive KeyedDigestAlgorithm where
  | hmacSha256
  deriving DecidableEq

/-- `UnkeyedDigestAlgorithm`. -/
inductive UnkeyedDigestAlgorithm where
  | sha256
  deriving DecidableEq

/-- `TokenEvidence`. -/
inductive TokenEvidence where
  | keyedDigest (algorithm : KeyedDigestAlgorithm) (keyId : String) (value : Sha256Digest)
  | unkeyedDigest (algorithm : UnkeyedDigestAlgorithm) (value : Sha256Digest)
  | tokenIds (values : List UInt32)
  deriving DecidableEq

/-! ### Mutations -/

/-- `Mutation::StoreRun`. -/
structure StoreRun where
  hashes : List OpaqueHash
  lineage : Option Lineage
  tokenCount : Option UInt64
  tokenEvidence : Option TokenEvidence
  blockSize : Option UInt32
  group : CacheGroup
  medium : StorageMedium
  blockMetadata : Option (List IrObject)
  metadata : IrObject

/-- `Mutation`: one engine-neutral cache mutation. -/
inductive Mutation where
  | storeRun (run : StoreRun)
  | remove (hashes : List OpaqueHash) (group : CacheGroup) (medium : StorageMedium)
      (metadata : IrObject)
  | clear (metadata : IrObject)

/-- `matches!(mutation, Mutation::Clear { .. })`. -/
def Mutation.isClear : Mutation → Bool
  | .clear _ => true
  | _ => false

/-! ### Records -/

/-- `TraceHeader`. -/
structure TraceHeader where
  format : String
  traceId : String
  redaction : RedactionMode
  createdBy : String
  extensions : IrObject

/-- `StreamDeclaration`: one publisher incarnation with its own cursor
domain. -/
structure StreamDeclaration where
  streamId : String
  engine : String
  engineVersion : String
  engineInstance : String
  publisher : String
  dataParallelRank : UInt32
  epoch : String
  initialCursor : DecimalU64
  baseline : Baseline
  workerMetadata : List String
  extensions : IrObject

/-- `EventEnvelope`. -/
structure EventEnvelope where
  envelopeId : String
  streamId : String
  cursor : DecimalU64
  origin : Origin
  mutations : List Mutation
  extensions : IrObject

/-- `DeliveryRef`: zero is the original delivery, positive occurrences are
synthesized copies. -/
structure DeliveryRef where
  envelopeId : String
  occurrence : UInt16
  deriving DecidableEq

/-- `FaultAction`. -/
inductive FaultAction where
  | drop (target : DeliveryRef)
  | duplicate (target : DeliveryRef) (copies : UInt16)
  | moveBefore (target anchor : DeliveryRef)
  deriving DecidableEq

/-- `FaultSchedule`. -/
structure FaultSchedule where
  scheduleId : String
  actions : List FaultAction
  extensions : IrObject

/-- `Record`: one top-level trace record. -/
inductive Record where
  | traceHeader (header : TraceHeader)
  | stream (stream : StreamDeclaration)
  | envelope (envelope : EventEnvelope)
  | faultSchedule (schedule : FaultSchedule)

/-! ### Sample records -/

namespace Sample

/-- A store of one integer hash without evidence. -/
def store (value : UInt64) : Mutation := .storeRun {
  hashes := [.u64 ⟨value⟩]
  lineage := none
  tokenCount := none
  tokenEvidence := none
  blockSize := none
  group := .unspecified
  medium := .unspecified
  blockMetadata := none
  metadata := [] }

/-- A clear. -/
def clear : Mutation := .clear []

/-- A header without token data. -/
def header : TraceHeader where
  format := traceFormatVersion
  traceId := "trace"
  redaction := .omitted
  createdBy := "test"
  extensions := []

/-- A declaration with an empty baseline. -/
def stream : StreamDeclaration where
  streamId := "stream"
  engine := "engine"
  engineVersion := "1"
  engineInstance := "instance"
  publisher := "publisher"
  dataParallelRank := 0
  epoch := "epoch"
  initialCursor := ⟨0⟩
  baseline := .emptyAtEngineStart
  workerMetadata := []
  extensions := []

/-- An envelope of the stream. -/
def envelope (envelopeId : String) (cursor : UInt64) (mutations : List Mutation) :
    EventEnvelope where
  envelopeId := envelopeId
  streamId := "stream"
  cursor := ⟨cursor⟩
  origin := .live
  mutations := mutations
  extensions := []

/-- A schedule that drops the envelope `first`. -/
def schedule : FaultSchedule where
  scheduleId := "select-second"
  actions := [.drop ⟨"first", 0⟩]
  extensions := []

end Sample

end KvCrucible
