/-
KvCrucible/Schema.lean

Reading a JSON tree as a record (the `Deserialize` side of `ir.rs`).

The source derives these readers; what the derived code does with a tree is
fixed by the attributes of each type.  A struct reads an object by the names
of its fields and refuses any other member, or a sequence that lists the
fields in the order of declaration.  An internally tagged enum takes its tag
out of either form first.  A unit variant of such an enum ignores the members
that are left, but not the items.  Inside a record a tag may also be the index
of the variant; the tag of the record itself is a label.

A tree comes from a parser that keeps the members of an object in key order
and each key once, so that collecting members into a map keeps the list.

`fromValue` undoes `Record.toJson` (`Record.read_toJson`).
-/
import KvCrucible.RecordJson

namespace KvCrucible

open Basis

/-! ### Derived readers -/

section Readers

variable {α : Type}

/-- The visitors of a struct with these fields, in the order of declaration.
Every struct ends with a field that has no default, so a sequence has to list
all fields. -/
def fieldsOf (names : List String) : Json → Option (String → Option Json)
  | .object members =>
      if ∀ member ∈ members, member.1 ∈ names then some fun name => members.lookup name else none
  | .array items =>
      if items.length = names.length then some fun name => (names.zip items).lookup name else none
  | _ => none

/-- A field without default. -/
def required (get : String → Option Json) (name : String) (read : Json → Option α) : Option α :=
  (get name).bind read

/-- `deserialize_present`, with the default for a field that is absent: what
is there has to be a value. -/
def present (get : String → Option Json) (name : String) (read : Json → Option α) :
    Option (Option α) :=
  (get name).elim (some none) fun json => (read json).map some

/-- A list field whose default is empty. -/
def orEmpty (get : String → Option Json) (name : String) (read : Json → Option (List α)) :
    Option (List α) :=
  (get name).elim (some []) read

/-- `TaggedContentVisitor`: the tag and what is left. -/
def splitTag (tag : String) : Json → Option (Json × Json)
  | .object members => (members.lookup tag).map fun value =>
      (value, .object (members.filter fun member => member.1 != tag))
  | .array (value :: items) => some (value, .array items)
  | _ => none

/-- The variant a tag stands for: by its label, or by its index. -/
def variantOf (variants : List (String × α)) : Json → Option α
  | .string label => variants.lookup label
  | .number index => if 0 ≤ index then (variants.map Prod.snd)[index.toNat]? else none
  | _ => none

/-- The variant a label stands for. -/
def labelled (variants : List (String × α)) : Json → Option α
  | .string label => variants.lookup label
  | _ => none

/-- An internally tagged enum inside a record. -/
def taggedEnum (tag : String) (variants : List (String × (Json → Option α))) (json : Json) :
    Option α :=
  (splitTag tag json).bind fun content => (variantOf variants content.1).bind fun read =>
    read content.2

/-- A unit variant of an internally tagged enum. -/
def unitVariant (value : α) : Json → Option α
  | .object _ => some value
  | .array [] => some value
  | _ => none

/-- What can stand for the unit value. -/
def isUnit : Json → Bool
  | .null => true
  | .object [] => true
  | _ => false

/-- An externally tagged enum of unit variants. -/
def unitEnum (variants : List (String × α)) : Json → Option α
  | .string label => variants.lookup label
  | .object [(label, content)] => if isUnit content then variants.lookup label else none
  | _ => none

/-- `Vec::deserialize`. -/
def readVec (read : Json → Option α) : Json → Option (List α)
  | .array items => items.mapM read
  | _ => none

end Readers

/-! ### Scalars -/

/-- `String::deserialize`. -/
def readString : Json → Option String
  | .string value => some value
  | _ => none

/-- An unsigned integer below `bound`. -/
def readUnsigned (bound : Nat) : Json → Option Nat
  | .number n => if 0 ≤ n ∧ n.toNat < bound then some n.toNat else none
  | _ => none

/-- `u16::deserialize`. -/
def readU16 (json : Json) : Option UInt16 := (readUnsigned (2 ^ 16) json).map UInt16.ofNat

/-- `u32::deserialize`. -/
def readU32 (json : Json) : Option UInt32 := (readUnsigned (2 ^ 32) json).map UInt32.ofNat

/-- `u64::deserialize`. -/
def readU64 (json : Json) : Option UInt64 := (readUnsigned (2 ^ 64) json).map UInt64.ofNat

/-- `i64::deserialize` at a number. -/
def readI64 (n : Int) : Option Int64 :=
  if -(2 ^ 63) ≤ n ∧ n < 2 ^ 63 then some (Int64.ofInt n) else none

/-- `DecimalU64::deserialize`. -/
def DecimalU64.fromContent (json : Json) : Option DecimalU64 :=
  (readString json).bind fun value => (DecimalU64.fromStr value).toOption

/-- `Base64Bytes::deserialize`. -/
def Base64Bytes.fromContent (json : Json) : Option Base64Bytes :=
  (readString json).bind fun encoded => (Base64.decodeString encoded).bind fun decoded =>
    if Base64.encodeString decoded = encoded then some ⟨decoded⟩ else none

/-- `Sha256Digest::deserialize`. -/
def Sha256Digest.fromContent (json : Json) : Option Sha256Digest :=
  (readString json).bind fun encoded => (decodeSha256 encoded).toOption.map Sha256Digest.mk

/-! ### Inert JSON -/

mutual

/-- `IrValue::deserialize`: the variants are tried in order, and no two of
them accept the same value. -/
def IrValue.fromContent : Json → Option IrValue
  | .null => some .null
  | .bool value => some (.bool value)
  | .number n => (readI64 n).map .integer
  | .string value => some (.string value)
  | .array items => (valuesOfItems items).map .array
  | .object members => (valuesOfMembers members).map .object

/-- The items of an array. -/
def valuesOfItems : List Json → Option (List IrValue)
  | [] => some []
  | item :: items => (IrValue.fromContent item).bind fun value =>
      (valuesOfItems items).map (value :: ·)

/-- The members of an object. -/
def valuesOfMembers : List (String × Json) → Option (List (String × IrValue))
  | [] => some []
  | member :: members => (IrValue.fromContent member.2).bind fun value =>
      (valuesOfMembers members).map ((member.1, value) :: ·)

end

/-- `IrObject::deserialize`. -/
def readObject : Json → Option IrObject
  | .object members => valuesOfMembers members
  | _ => none

/-! ### Enumerations -/

/-- `OpaqueHash::deserialize`. -/
def OpaqueHash.fromContent : Json → Option OpaqueHash := taggedEnum "encoding" [
  ("u64", fun json => do
    let get ← fieldsOf ["value"] json
    return .u64 (← required get "value" DecimalU64.fromContent)),
  ("bytes", fun json => do
    let get ← fieldsOf ["value"] json
    return .bytes (← required get "value" Base64Bytes.fromContent))]

/-- `RedactionMode::deserialize`. -/
def RedactionMode.fromContent : Json → Option RedactionMode := unitEnum [("omitted", .omitted),
  ("keyed_digests", .keyedDigests), ("unkeyed_linkable", .unkeyedLinkable),
  ("contains_token_ids", .containsTokenIds)]

/-- `Baseline::deserialize`. -/
def Baseline.fromContent : Json → Option Baseline := taggedEnum "kind" [
  ("empty_at_engine_start", unitVariant .emptyAtEngineStart),
  ("unknown_at_attach", unitVariant .unknownAtAttach)]

/-- `Origin::deserialize`. -/
def Origin.fromContent : Json → Option Origin := unitEnum [("live", .live), ("replay", .replay)]

/-- `CacheGroup::deserialize`. -/
def CacheGroup.fromContent : Json → Option CacheGroup := taggedEnum "kind" [
  ("index", fun json => do
    let get ← fieldsOf ["value"] json
    return .index (← required get "value" readU32)),
  ("unspecified", unitVariant .unspecified)]

/-- `StorageMedium::deserialize`. -/
def StorageMedium.fromContent : Json → Option StorageMedium := taggedEnum "kind" [
  ("named", fun json => do
    let get ← fieldsOf ["value"] json
    return .named (← required get "value" readString)),
  ("unspecified", unitVariant .unspecified)]

/-- `Lineage::deserialize`. -/
def Lineage.fromContent : Json → Option Lineage := taggedEnum "kind" [
  ("chain", fun json => do
    let get ← fieldsOf ["parent_of_first"] json
    return .chain (← required get "parent_of_first" OpaqueHash.fromContent)),
  ("opaque", unitVariant .opaque_)]

/-- `KeyedDigestAlgorithm::deserialize`. -/
def KeyedDigestAlgorithm.fromContent : Json → Option KeyedDigestAlgorithm :=
  unitEnum [("hmac-sha256", .hmacSha256)]

/-- `UnkeyedDigestAlgorithm::deserialize`. -/
def UnkeyedDigestAlgorithm.fromContent : Json → Option UnkeyedDigestAlgorithm :=
  unitEnum [("sha256", .sha256)]

/-- `TokenEvidence::deserialize`. -/
def TokenEvidence.fromContent : Json → Option TokenEvidence := taggedEnum "kind" [
  ("keyed_digest", fun json => do
    let get ← fieldsOf ["algorithm", "key_id", "value"] json
    let algorithm ← required get "algorithm" KeyedDigestAlgorithm.fromContent
    let keyId ← required get "key_id" readString
    return .keyedDigest algorithm keyId (← required get "value" Sha256Digest.fromContent)),
  ("unkeyed_digest", fun json => do
    let get ← fieldsOf ["algorithm", "value"] json
    let algorithm ← required get "algorithm" UnkeyedDigestAlgorithm.fromContent
    return .unkeyedDigest algorithm (← required get "value" Sha256Digest.fromContent)),
  ("token_ids", fun json => do
    let get ← fieldsOf ["values"] json
    return .tokenIds (← required get "values" (readVec readU32)))]

/-! ### Mutations -/

/-- `Mutation::StoreRun`. -/
def StoreRun.fromContent (json : Json) : Option StoreRun := do
  let get ← fieldsOf ["hashes", "lineage", "token_count", "token_evidence", "block_size", "group",
    "medium", "block_metadata", "metadata"] json
  return {
    hashes := ← required get "hashes" (readVec OpaqueHash.fromContent)
    lineage := ← present get "lineage" Lineage.fromContent
    tokenCount := ← present get "token_count" readU64
    tokenEvidence := ← present get "token_evidence" TokenEvidence.fromContent
    blockSize := ← present get "block_size" readU32
    group := ← required get "group" CacheGroup.fromContent
    medium := ← required get "medium" StorageMedium.fromContent
    blockMetadata := ← present get "block_metadata" (readVec readObject)
    metadata := ← required get "metadata" readObject }

/-- `Mutation::deserialize`. -/
def Mutation.fromContent : Json → Option Mutation := taggedEnum "op" [
  ("store_run", fun json => (StoreRun.fromContent json).map .storeRun),
  ("remove", fun json => do
    let get ← fieldsOf ["hashes", "group", "medium", "metadata"] json
    let hashes ← required get "hashes" (readVec OpaqueHash.fromContent)
    let group ← required get "group" CacheGroup.fromContent
    let medium ← required get "medium" StorageMedium.fromContent
    return .remove hashes group medium (← required get "metadata" readObject)),
  ("clear", fun json => do
    let get ← fieldsOf ["metadata"] json
    return .clear (← required get "metadata" readObject))]

/-! ### Records -/

/-- `TraceHeader::deserialize`. -/
def TraceHeader.fromContent (json : Json) : Option TraceHeader := do
  let get ← fieldsOf ["format", "trace_id", "redaction", "created_by", "extensions"] json
  return {
    format := ← required get "format" readString
    traceId := ← required get "trace_id" readString
    redaction := ← required get "redaction" RedactionMode.fromContent
    createdBy := ← required get "created_by" readString
    extensions := ← required get "extensions" readObject }

/-- `StreamDeclaration::deserialize`. -/
def StreamDeclaration.fromContent (json : Json) : Option StreamDeclaration := do
  let get ← fieldsOf ["stream_id", "engine", "engine_version", "engine_instance", "publisher",
    "data_parallel_rank", "epoch", "initial_cursor", "baseline", "worker_metadata",
    "extensions"] json
  return {
    streamId := ← required get "stream_id" readString
    engine := ← required get "engine" readString
    engineVersion := ← required get "engine_version" readString
    engineInstance := ← required get "engine_instance" readString
    publisher := ← required get "publisher" readString
    dataParallelRank := ← required get "data_parallel_rank" readU32
    epoch := ← required get "epoch" readString
    initialCursor := ← required get "initial_cursor" DecimalU64.fromContent
    baseline := ← required get "baseline" Baseline.fromContent
    workerMetadata := ← orEmpty get "worker_metadata" (readVec readString)
    extensions := ← required get "extensions" readObject }

/-- `EventEnvelope::deserialize`. -/
def EventEnvelope.fromContent (json : Json) : Option EventEnvelope := do
  let get ← fieldsOf ["envelope_id", "stream_id", "cursor", "origin", "mutations",
    "extensions"] json
  return {
    envelopeId := ← required get "envelope_id" readString
    streamId := ← required get "stream_id" readString
    cursor := ← required get "cursor" DecimalU64.fromContent
    origin := ← required get "origin" Origin.fromContent
    mutations := ← required get "mutations" (readVec Mutation.fromContent)
    extensions := ← required get "extensions" readObject }

/-- `DeliveryRef::deserialize`. -/
def DeliveryRef.fromContent (json : Json) : Option DeliveryRef := do
  let get ← fieldsOf ["envelope_id", "occurrence"] json
  return {
    envelopeId := ← required get "envelope_id" readString
    occurrence := ← required get "occurrence" readU16 }

/-- `FaultAction::deserialize`. -/
def FaultAction.fromContent : Json → Option FaultAction := taggedEnum "action" [
  ("drop", fun json => do
    let get ← fieldsOf ["target"] json
    return .drop (← required get "target" DeliveryRef.fromContent)),
  ("duplicate", fun json => do
    let get ← fieldsOf ["target", "copies"] json
    let target ← required get "target" DeliveryRef.fromContent
    return .duplicate target (← required get "copies" readU16)),
  ("move_before", fun json => do
    let get ← fieldsOf ["target", "anchor"] json
    let target ← required get "target" DeliveryRef.fromContent
    return .moveBefore target (← required get "anchor" DeliveryRef.fromContent))]

/-- `FaultSchedule::deserialize`. -/
def FaultSchedule.fromContent (json : Json) : Option FaultSchedule := do
  let get ← fieldsOf ["schedule_id", "actions", "extensions"] json
  return {
    scheduleId := ← required get "schedule_id" readString
    actions := ← required get "actions" (readVec FaultAction.fromContent)
    extensions := ← required get "extensions" readObject }

/-- The variants of a record. -/
def Record.variants : List (String × (Json → Option Record)) := [
  ("trace_header", fun json => (TraceHeader.fromContent json).map .traceHeader),
  ("stream", fun json => (StreamDeclaration.fromContent json).map .stream),
  ("envelope", fun json => (EventEnvelope.fromContent json).map .envelope),
  ("fault_schedule", fun json => (FaultSchedule.fromContent json).map .faultSchedule)]

/-- `serde_json::from_value` at `Record`. -/
def fromValue (json : Json) : Option Record :=
  (splitTag "kind" json).bind fun content => (labelled Record.variants content.1).bind fun read =>
    read content.2

/-! ### Fields of an object -/

section Fields

variable {α : Type} {fields : List (String × Option Json)} {get : String → Option Json}
  {name : String}

theorem fieldsOf_ofFields {names : List String} (hkeys : (fields.map Prod.fst).Nodup)
    (hnames : ∀ key ∈ fields.map Prod.fst, key ∈ names) : ∃ get,
      fieldsOf names (.ofFields fields) = some get ∧
        ∀ name, get name = (fields.lookup name).join := by
  refine ⟨fun name => (Json.present fields).lookup name, ?_, fun name => ?_⟩
  · refine if_pos fun member hmember => hnames _ ?_
    exact List.mem_map.mpr ⟨_, Json.mem_present.mp hmember, rfl⟩
  · exact Json.member?_ofFields hkeys

theorem required_eq {read : Json → Option α} {json : Json} {value : α}
    (hget : get name = some json) (hread : read json = some value) :
    required get name read = some value := by
  rw [required, hget, Option.bind_some, hread]

theorem present_eq {read : Json → Option α} {toJson : α → Json} {value : Option α}
    (hget : get name = value.map toJson) (hread : ∀ x, read (toJson x) = some x) :
    present get name read = some value := by
  rw [present, hget]
  cases value with
  | none => rfl
  | some x =>
      show (read (toJson x)).map some = some (some x)
      rw [hread]
      rfl

theorem splitTag_ofFields {tag : String} (hkeys : (fields.map Prod.fst).Nodup) :
    splitTag tag (.ofFields fields) = (fields.lookup tag).join.map fun value =>
      (value, .ofFields (fields.filter fun field => field.1 != tag)) := by
  have hlookup : (Json.present fields).lookup tag = (fields.lookup tag).join :=
    Json.member?_ofFields hkeys
  have hrest : (Json.present fields).filter (fun member => member.1 != tag) =
      Json.present (fields.filter fun field => field.1 != tag) := by
    unfold Json.present
    rw [List.filter_filterMap, List.filterMap_filter]
    apply List.filterMap_congr
    intro field _
    obtain ⟨key, _ | value⟩ := field
    · cases key != tag <;> rfl
    · by_cases h : key = tag
      · simp [h]
      · simp [h]
  show ((Json.present fields).lookup tag).map _ = _
  rw [hlookup, hrest]
  rfl

end Fields

/-! ### Scalars read back -/

theorem readVec_map {α : Type} {read : Json → Option α} {toJson : α → Json}
    (h : ∀ x, read (toJson x) = some x) (xs : List α) :
    readVec read (.array (xs.map toJson)) = some xs := by
  show (xs.map toJson).mapM read = some xs
  induction xs with
  | nil => rfl
  | cons x xs ih =>
      rw [List.map_cons, List.mapM_cons, h, ih]
      rfl

theorem readString_string (value : String) : readString (.string value) = some value := rfl

theorem readUnsigned_nat {bound n : Nat} (h : n < bound) :
    readUnsigned bound (.number n) = some n :=
  if_pos ⟨Int.natCast_nonneg n, h⟩

theorem readU16_toNat (n : UInt16) : readU16 (.number n.toNat) = some n := by
  rw [readU16, readUnsigned_nat n.toNat_lt, Option.map_some, UInt16.ofNat_toNat]

theorem readU32_toNat (n : UInt32) : readU32 (.number n.toNat) = some n := by
  rw [readU32, readUnsigned_nat n.toNat_lt, Option.map_some, UInt32.ofNat_toNat]

theorem readU64_toNat (n : UInt64) : readU64 (.number n.toNat) = some n := by
  rw [readU64, readUnsigned_nat n.toNat_lt, Option.map_some, UInt64.ofNat_toNat]

theorem readI64_toInt (n : Int64) : readI64 n.toInt = some n := by
  rw [readI64, if_pos ⟨n.le_toInt, n.toInt_lt⟩, Int64.ofInt_toInt]

theorem DecimalU64.fromContent_toJson (value : DecimalU64) :
    DecimalU64.fromContent value.toJson = some value := by
  show (DecimalU64.fromStr value.toString).toOption = some value
  rw [DecimalU64.fromStr_iff.mpr rfl]
  rfl

theorem Sha256Digest.fromContent_toJson (digest : Sha256Digest) :
    Sha256Digest.fromContent digest.toJson = some digest := by
  show (decodeSha256 (encodeHex digest.asBytes)).toOption.map Sha256Digest.mk = some digest
  rw [decodeSha256_iff.mpr rfl]
  rfl

theorem Base64Bytes.fromContent_encode (value : Base64Bytes) :
    Base64Bytes.fromContent (.string (Base64.encodeString value.asBytes)) = some value := by
  show ((Base64.decodeString (Base64.encodeString value.asBytes)).bind fun decoded => _) = _
  rw [Base64.decodeString_encodeString, Option.bind_some, if_pos rfl]

theorem OpaqueHash.fromContent_toJson (hash : OpaqueHash) :
    OpaqueHash.fromContent hash.toJson = some hash := by
  cases hash with
  | u64 value =>
      have hvalue : DecimalU64.fromContent (.string value.toString) = some value :=
        value.fromContent_toJson
      simp [fromContent, toJson, taggedEnum, splitTag, variantOf, fieldsOf, required, List.lookup,
        hvalue]
  | bytes value =>
      simp [fromContent, toJson, taggedEnum, splitTag, variantOf, fieldsOf, required, List.lookup,
        value.fromContent_encode]

theorem RedactionMode.fromContent_toJson (redaction : RedactionMode) :
    RedactionMode.fromContent redaction.toJson = some redaction := by
  cases redaction <;> rfl

theorem Origin.fromContent_toJson (origin : Origin) :
    Origin.fromContent origin.toJson = some origin := by
  cases origin <;> rfl

theorem Baseline.fromContent_toJson (baseline : Baseline) :
    Baseline.fromContent baseline.toJson = some baseline := by
  cases baseline <;> rfl

theorem CacheGroup.fromContent_toJson (group : CacheGroup) :
    CacheGroup.fromContent group.toJson = some group := by
  cases group with
  | index value =>
      simp [fromContent, toJson, taggedEnum, splitTag, variantOf, fieldsOf, required, List.lookup,
        readU32_toNat]
  | unspecified => rfl

theorem StorageMedium.fromContent_toJson (medium : StorageMedium) :
    StorageMedium.fromContent medium.toJson = some medium := by
  cases medium with
  | named value => rfl
  | unspecified => rfl

theorem Lineage.fromContent_toJson (lineage : Lineage) :
    Lineage.fromContent lineage.toJson = some lineage := by
  cases lineage with
  | chain parent =>
      simp [fromContent, toJson, taggedEnum, splitTag, variantOf, fieldsOf, required, List.lookup,
        parent.fromContent_toJson]
  | opaque_ => rfl

theorem KeyedDigestAlgorithm.fromContent_toJson (algorithm : KeyedDigestAlgorithm) :
    KeyedDigestAlgorithm.fromContent algorithm.toJson = some algorithm := by
  cases algorithm
  rfl

theorem UnkeyedDigestAlgorithm.fromContent_toJson (algorithm : UnkeyedDigestAlgorithm) :
    UnkeyedDigestAlgorithm.fromContent algorithm.toJson = some algorithm := by
  cases algorithm
  rfl

theorem TokenEvidence.fromContent_toJson (evidence : TokenEvidence) :
    TokenEvidence.fromContent evidence.toJson = some evidence := by
  cases evidence with
  | keyedDigest algorithm keyId value =>
      simp [fromContent, toJson, taggedEnum, splitTag, variantOf, fieldsOf, required, List.lookup,
        readString_string, algorithm.fromContent_toJson, value.fromContent_toJson]
  | unkeyedDigest algorithm value =>
      simp [fromContent, toJson, taggedEnum, splitTag, variantOf, fieldsOf, required, List.lookup,
        algorithm.fromContent_toJson, value.fromContent_toJson]
  | tokenIds values =>
      have hvalues := readVec_map readU32_toNat values
      simp [fromContent, toJson, taggedEnum, splitTag, variantOf, fieldsOf, required, List.lookup,
        hvalues]

theorem IrValue.fromContent_toJson (value : IrValue) : fromContent value.toJson = some value := by
  induction value using IrValue.inductionOn with
  | null => rfl
  | bool b => rfl
  | string s => rfl
  | integer n =>
      rw [toJson, fromContent, readI64_toInt]
      rfl
  | array values ih =>
      have hitems : valuesOfItems (values.map toJson) = some values := by
        induction values with
        | nil => rfl
        | cons value values ihvalues =>
            obtain ⟨hvalue, hvalues⟩ := List.forall_mem_cons.mp ih
            rw [List.map_cons, valuesOfItems, hvalue, Option.bind_some, ihvalues hvalues]
            rfl
      rw [toJson, toJsonItems_eq, fromContent, hitems]
      rfl
  | object members ih =>
      have hmembers : valuesOfMembers (members.map fun member => (member.1, member.2.toJson)) =
          some members := by
        induction members with
        | nil => rfl
        | cons member members ihmembers =>
            obtain ⟨hmember, hmembers⟩ := List.forall_mem_cons.mp ih
            rw [List.map_cons, valuesOfMembers, hmember, Option.bind_some, ihmembers hmembers]
            rfl
      rw [toJson, toJsonMembers_eq, fromContent, hmembers]
      rfl

theorem readObject_objectJson (members : IrObject) :
    readObject (objectJson members) = some members := by
  have hvalue := (IrValue.object members).fromContent_toJson
  rw [IrValue.toJson, IrValue.fromContent] at hvalue
  obtain ⟨members', hmembers, heq⟩ := Option.map_eq_some_iff.mp hvalue
  rw [objectJson, IrValue.toJson, readObject, hmembers, IrValue.object.inj heq]

/-! ### Mutations and records read back -/

/-- The fields of an object beside its tag. -/
def untagged (tag : String) (fields : List (String × Option Json)) : List (String × Option Json) :=
  fields.filter fun field => field.1 != tag

/-- An enum is read from an object by the variant of its tag. -/
theorem taggedEnum_ofFields {α : Type} {tag label : String}
    {variants : List (String × (Json → Option α))} {fields : List (String × Option Json)}
    {read : Json → Option α} (hkeys : (fields.map Prod.fst).Nodup)
    (htag : fields.lookup tag = some (some (.string label)))
    (hread : variants.lookup label = some read) :
    taggedEnum tag variants (.ofFields fields) = read (.ofFields (untagged tag fields)) := by
  rw [taggedEnum, splitTag_ofFields hkeys, htag]
  show (variants.lookup label).bind _ = _
  rw [hread]
  rfl

theorem StoreRun.fromContent_fields (run : StoreRun) :
    StoreRun.fromContent (.ofFields (untagged "op" run.fields)) = some run := by
  have hkeys : (untagged "op" run.fields).map Prod.fst = ["block_metadata", "block_size", "group",
    "hashes", "lineage", "medium", "metadata", "token_count", "token_evidence"] := rfl
  obtain ⟨get, hfields, hget⟩ := @fieldsOf_ofFields (untagged "op" run.fields) ["hashes", "lineage",
    "token_count", "token_evidence", "block_size", "group", "medium", "block_metadata", "metadata"]
    (by rw [hkeys]; decide) (by rw [hkeys]; decide)
  unfold fromContent
  rw [hfields]
  simp only [Option.bind_eq_bind, Option.bind_some,
    required_eq (hget "hashes") (readVec_map OpaqueHash.fromContent_toJson run.hashes),
    present_eq (hget "lineage") Lineage.fromContent_toJson,
    present_eq (hget "token_count") readU64_toNat,
    present_eq (hget "token_evidence") TokenEvidence.fromContent_toJson,
    present_eq (hget "block_size") readU32_toNat,
    required_eq (hget "group") run.group.fromContent_toJson,
    required_eq (hget "medium") run.medium.fromContent_toJson,
    present_eq (hget "block_metadata") (readVec_map readObject_objectJson),
    required_eq (hget "metadata") (readObject_objectJson run.metadata)]
  rfl

theorem Mutation.fromContent_toJson (mutation : Mutation) :
    Mutation.fromContent mutation.toJson = some mutation := by
  cases mutation with
  | storeRun run =>
      rw [toJson, fromContent, taggedEnum_ofFields (by rw [StoreRun.keys_fields]; decide) rfl rfl]
      show (StoreRun.fromContent _).map storeRun = _
      rw [run.fromContent_fields]
      rfl
  | remove hashes group medium metadata =>
      simp [fromContent, toJson, taggedEnum, splitTag, variantOf, fieldsOf, required, List.lookup,
        readVec_map OpaqueHash.fromContent_toJson hashes, group.fromContent_toJson,
        medium.fromContent_toJson, readObject_objectJson]
  | clear metadata =>
      simp [fromContent, toJson, taggedEnum, splitTag, variantOf, fieldsOf, required, List.lookup,
        readObject_objectJson]

theorem TraceHeader.fromContent_fields (header : TraceHeader) :
    TraceHeader.fromContent (.ofFields (untagged "kind" header.fields)) = some header := by
  have hkeys : (untagged "kind" header.fields).map Prod.fst =
    ["created_by", "extensions", "format", "redaction", "trace_id"] := rfl
  obtain ⟨get, hfields, hget⟩ := @fieldsOf_ofFields (untagged "kind" header.fields)
    ["format", "trace_id", "redaction", "created_by", "extensions"]
    (by rw [hkeys]; decide) (by rw [hkeys]; decide)
  unfold fromContent
  rw [hfields]
  simp only [Option.bind_eq_bind, Option.bind_some,
    required_eq (hget "format") (readString_string header.format),
    required_eq (hget "trace_id") (readString_string header.traceId),
    required_eq (hget "redaction") header.redaction.fromContent_toJson,
    required_eq (hget "created_by") (readString_string header.createdBy),
    required_eq (hget "extensions") (readObject_objectJson header.extensions)]
  rfl

/-- Worker labels that are left out are none. -/
theorem orEmpty_workerMetadata {get : String → Option Json} {workers : List String}
    (hget : get "worker_metadata" = workerMetadataJson workers) :
    orEmpty get "worker_metadata" (readVec readString) = some workers := by
  rw [orEmpty, hget, workerMetadataJson]
  by_cases hempty : workers.isEmpty = true
  · rw [if_pos hempty, List.isEmpty_iff.mp hempty]
    rfl
  · rw [if_neg hempty]
    exact readVec_map readString_string workers

theorem StreamDeclaration.fromContent_fields (stream : StreamDeclaration) :
    StreamDeclaration.fromContent (.ofFields (untagged "kind" stream.fields)) = some stream := by
  have hkeys : (untagged "kind" stream.fields).map Prod.fst = ["baseline", "data_parallel_rank",
    "engine", "engine_instance", "engine_version", "epoch", "extensions", "initial_cursor",
    "publisher", "stream_id", "worker_metadata"] := rfl
  obtain ⟨get, hfields, hget⟩ := @fieldsOf_ofFields (untagged "kind" stream.fields) ["stream_id",
    "engine", "engine_version", "engine_instance", "publisher", "data_parallel_rank", "epoch",
    "initial_cursor", "baseline", "worker_metadata", "extensions"]
    (by rw [hkeys]; decide) (by rw [hkeys]; decide)
  unfold fromContent
  rw [hfields]
  simp only [Option.bind_eq_bind, Option.bind_some,
    required_eq (hget "stream_id") (readString_string stream.streamId),
    required_eq (hget "engine") (readString_string stream.engine),
    required_eq (hget "engine_version") (readString_string stream.engineVersion),
    required_eq (hget "engine_instance") (readString_string stream.engineInstance),
    required_eq (hget "publisher") (readString_string stream.publisher),
    required_eq (hget "data_parallel_rank") (readU32_toNat stream.dataParallelRank),
    required_eq (hget "epoch") (readString_string stream.epoch),
    required_eq (hget "initial_cursor") stream.initialCursor.fromContent_toJson,
    required_eq (hget "baseline") stream.baseline.fromContent_toJson,
    orEmpty_workerMetadata (hget "worker_metadata"),
    required_eq (hget "extensions") (readObject_objectJson stream.extensions)]
  rfl

theorem EventEnvelope.fromContent_fields (envelope : EventEnvelope) :
    EventEnvelope.fromContent (.ofFields (untagged "kind" envelope.fields)) = some envelope := by
  have hkeys : (untagged "kind" envelope.fields).map Prod.fst =
    ["cursor", "envelope_id", "extensions", "mutations", "origin", "stream_id"] := rfl
  obtain ⟨get, hfields, hget⟩ := @fieldsOf_ofFields (untagged "kind" envelope.fields)
    ["envelope_id", "stream_id", "cursor", "origin", "mutations", "extensions"]
    (by rw [hkeys]; decide) (by rw [hkeys]; decide)
  unfold fromContent
  rw [hfields]
  simp only [Option.bind_eq_bind, Option.bind_some,
    required_eq (hget "envelope_id") (readString_string envelope.envelopeId),
    required_eq (hget "stream_id") (readString_string envelope.streamId),
    required_eq (hget "cursor") envelope.cursor.fromContent_toJson,
    required_eq (hget "origin") envelope.origin.fromContent_toJson,
    required_eq (hget "mutations") (readVec_map Mutation.fromContent_toJson envelope.mutations),
    required_eq (hget "extensions") (readObject_objectJson envelope.extensions)]
  rfl

theorem DeliveryRef.fromContent_toJson (delivery : DeliveryRef) :
    DeliveryRef.fromContent delivery.toJson = some delivery := by
  simp [fromContent, toJson, fieldsOf, required, List.lookup, readString_string, readU16_toNat]

theorem FaultAction.fromContent_toJson (action : FaultAction) :
    FaultAction.fromContent action.toJson = some action := by
  cases action with
  | drop target =>
      simp [fromContent, toJson, taggedEnum, splitTag, variantOf, fieldsOf, required, List.lookup,
        target.fromContent_toJson]
  | duplicate target copies =>
      simp [fromContent, toJson, taggedEnum, splitTag, variantOf, fieldsOf, required, List.lookup,
        target.fromContent_toJson, readU16_toNat]
  | moveBefore target anchor =>
      simp [fromContent, toJson, taggedEnum, splitTag, variantOf, fieldsOf, required, List.lookup,
        target.fromContent_toJson, anchor.fromContent_toJson]

theorem FaultSchedule.fromContent_fields (schedule : FaultSchedule) :
    FaultSchedule.fromContent (.ofFields (untagged "kind" schedule.fields)) = some schedule := by
  have hkeys : (untagged "kind" schedule.fields).map Prod.fst =
    ["actions", "extensions", "schedule_id"] := rfl
  obtain ⟨get, hfields, hget⟩ := @fieldsOf_ofFields (untagged "kind" schedule.fields)
    ["schedule_id", "actions", "extensions"] (by rw [hkeys]; decide) (by rw [hkeys]; decide)
  unfold fromContent
  rw [hfields]
  simp only [Option.bind_eq_bind, Option.bind_some,
    required_eq (hget "schedule_id") (readString_string schedule.scheduleId),
    required_eq (hget "actions") (readVec_map FaultAction.fromContent_toJson schedule.actions),
    required_eq (hget "extensions") (readObject_objectJson schedule.extensions)]
  rfl

/-- The label of a record. -/
def Record.kind : Record → String
  | .traceHeader _ => "trace_header"
  | .stream _ => "stream"
  | .envelope _ => "envelope"
  | .faultSchedule _ => "fault_schedule"

theorem Record.lookup_kind (record : Record) :
    record.fields.lookup "kind" = some (some (.string record.kind)) := by
  cases record <;> rfl

/-- Reading undoes writing. -/
theorem Record.read_toJson (record : Record) : fromValue record.toJson = some record := by
  rw [fromValue, toJson, splitTag_ofFields (record.keys_fields.imp ne_of_lt), record.lookup_kind]
  show (variants.lookup record.kind).bind
    (fun read => read (.ofFields (untagged "kind" record.fields))) = some record
  cases record with
  | traceHeader header =>
      show (TraceHeader.fromContent (.ofFields (untagged "kind" header.fields))).map traceHeader = _
      rw [header.fromContent_fields]
      rfl
  | stream declaration =>
      show (StreamDeclaration.fromContent (.ofFields (untagged "kind" declaration.fields))).map
        Record.stream = _
      rw [declaration.fromContent_fields]
      rfl
  | envelope source =>
      show (EventEnvelope.fromContent (.ofFields (untagged "kind" source.fields))).map
        Record.envelope = _
      rw [source.fromContent_fields]
      rfl
  | faultSchedule schedule =>
      show (FaultSchedule.fromContent (.ofFields (untagged "kind" schedule.fields))).map
        faultSchedule = _
      rw [schedule.fromContent_fields]
      rfl

/-- The tree of a record is read as that record, and distinct records have
distinct trees. -/
theorem record_tree_round_trip (record : Record) : fromValue record.toJson = some record ∧
    ∀ record' : Record, record'.toJson = record.toJson → record' = record := by
  refine ⟨record.read_toJson, fun record' h => ?_⟩
  have hread := record'.read_toJson
  rw [h, record.read_toJson] at hread
  exact (Option.some.inj hread).symm

end KvCrucible
