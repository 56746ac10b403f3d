/-
KvCrucible/MutationJson.lean

The JSON form of mutations (the `Serialize` side of `ir.rs`).

An enum is an object with its tag; a field that is `None` is left out.
Objects list their members in key order, which is how two of them are
compared.  Every level of the mapping is injective, so a list of mutations is
determined by its tree (`mutationsJson_injective`).
-/
import KvCrucible.Basis.Base64
import KvCrucible.Basis.JsonObject
import KvCrucible.Ir
import KvCrucible.Scalars

namespace KvCrucible

open Basis

/-! ### Inert JSON -/

mutual

/-- `IrValue::serialize`. -/
def IrValue.toJson : IrValue → Json
  | .null => .null
  | .bool value => .bool value
  | .integer value => .number value.toInt
  | .string value => .string value
  | .array values => .array (toJsonItems values)
  | .object members => .object (toJsonMembers members)

/-- The items of an array. -/
def toJsonItems : List IrValue → List Json
  | [] => []
  | value :: values => value.toJson :: toJsonItems values

/-- The members of an object. -/
def toJsonMembers : List (String × IrValue) → List (String × Json)
  | [] => []
  | member :: members => (member.1, member.2.toJson) :: toJsonMembers members

end

/-- The serialized form of an `IrObject`. -/
def objectJson (members : IrObject) : Json := (IrValue.object members).toJson

theorem toJsonItems_eq (values : List IrValue) : toJsonItems values = values.map IrValue.toJson := by
  induction values with
  | nil => rfl
  | cons value values ih => rw [toJsonItems, ih, List.map_cons]

theorem toJsonMembers_eq (members : List (String × IrValue)) :
    toJsonMembers members = members.map fun member => (member.1, member.2.toJson) := by
  induction members with
  | nil => rfl
  | cons member members ih => rw [toJsonMembers, ih, List.map_cons]

/-! ### Scalars and tags -/

/-- `OpaqueHash::serialize`. -/
def OpaqueHash.toJson : OpaqueHash → Json
  | .u64 value => .object [("encoding", .string "u64"), ("value", .string value.toString)]
  | .bytes value =>
      .object [("encoding", .string "bytes"), ("value", .string (Base64.encodeString value.asBytes))]

/-- `CacheGroup::serialize`. -/
def CacheGroup.toJson : CacheGroup → Json
  | .index value => .object [("kind", .string "index"), ("value", .number value.toNat)]
  | .unspecified => .object [("kind", .string "unspecified")]

/-- `StorageMedium::serialize`. -/
def StorageMedium.toJson : StorageMedium → Json
  | .named value => .object [("kind", .string "named"), ("value", .string value)]
  | .unspecified => .object [("kind", .string "unspecified")]

/-- `Lineage::serialize`. -/
def Lineage.toJson : Lineage → Json
  | .chain parentOfFirst =>
      .object [("kind", .string "chain"), ("parent_of_first", parentOfFirst.toJson)]
  | .opaque_ => .object [("kind", .string "opaque")]

/-- `KeyedDigestAlgorithm::serialize`. -/
def KeyedDigestAlgorithm.toJson : KeyedDigestAlgorithm → Json
  | .hmacSha256 => .string "hmac-sha256"

/-- `UnkeyedDigestAlgorithm::serialize`. -/
def UnkeyedDigestAlgorithm.toJson : UnkeyedDigestAlgorithm → Json
  | .sha256 => .string "sha256"

/-- `Sha256Digest::serialize`. -/
def Sha256Digest.toJson (digest : Sha256Digest) : Json := .string (encodeHex digest.asBytes)

/-- `TokenEvidence::serialize`. -/
def TokenEvidence.toJson : TokenEvidence → Json
  | .keyedDigest algorithm keyId value => .object [("algorithm", algorithm.toJson),
      ("key_id", .string keyId), ("kind", .string "keyed_digest"), ("value", value.toJson)]
  | .unkeyedDigest algorithm value => .object [("algorithm", algorithm.toJson),
      ("kind", .string "unkeyed_digest"), ("value", value.toJson)]
  | .tokenIds values => .object [("kind", .string "token_ids"),
      ("values", .array (values.map fun value => .number value.toNat))]

/-! ### Mutations -/

/-- The fields of a store run. -/
def StoreRun.fields (run : StoreRun) : List (String × Option Json) :=
  [("block_metadata", run.blockMetadata.map fun objects => .array (objects.map objectJson)),
    ("block_size", run.blockSize.map fun size => .number size.toNat),
    ("group", some run.group.toJson),
    ("hashes", some (.array (run.hashes.map OpaqueHash.toJson))),
    ("lineage", run.lineage.map Lineage.toJson),
    ("medium", some run.medium.toJson),
    ("metadata", some (objectJson run.metadata)),
    ("op", some (.string "store_run")),
    ("token_count", run.tokenCount.map fun count => .number count.toNat),
    ("token_evidence", run.tokenEvidence.map TokenEvidence.toJson)]

/-- `Mutation::serialize`. -/
def Mutation.toJson : Mutation → Json
  | .storeRun run => .ofFields run.fields
  | .remove hashes group medium metadata => .object [("group", group.toJson),
      ("hashes", .array (hashes.map OpaqueHash.toJson)), ("medium", medium.toJson),
      ("metadata", objectJson metadata), ("op", .string "remove")]
  | .clear metadata => .object [("metadata", objectJson metadata), ("op", .string "clear")]

/-- The serialized form of a list of mutations. -/
def mutationsJson (mutations : List Mutation) : Json := .array (mutations.map Mutation.toJson)

/-! ### The tree determines the value -/

/-- A map that is injective at the elements of a list. -/
theorem map_inj_at {α β : Type*} {f : α → β} {xs : List α}
    (hf : ∀ x ∈ xs, ∀ y, f x = f y → x = y) : ∀ {ys : List α}, xs.map f = ys.map f → xs = ys := by
  induction xs with
  | nil =>
      intro ys h
      exact (List.map_eq_nil_iff.mp h.symm).symm
  | cons x xs ih =>
      intro ys h
      obtain ⟨hx, hxs⟩ := List.forall_mem_cons.mp hf
      cases ys with
      | nil => cases h
      | cons y ys =>
          obtain ⟨hhead, htail⟩ := List.cons.inj h
          rw [hx y hhead, ih hxs htail]

theorem IrValue.toJson_injective : Function.Injective IrValue.toJson := by
  intro value
  induction value using IrValue.inductionOn with
  | null =>
      intro value' h
      cases value' with
      | null => rfl
      | _ => cases h
  | bool b =>
      intro value' h
      cases value' with
      | bool b' => exact congrArg IrValue.bool (Json.bool.inj h)
      | _ => cases h
  | integer n =>
      intro value' h
      cases value' with
      | integer n' => exact congrArg IrValue.integer (Int64.toInt_inj.mp (Json.number.inj h))
      | _ => cases h
  | string s =>
      intro value' h
      cases value' with
      | string s' => exact congrArg IrValue.string (Json.string.inj h)
      | _ => cases h
  | array values ih =>
      intro value' h
      cases value' with
      | array values' =>
          have hitems : toJsonItems values = toJsonItems values' := Json.array.inj h
          rw [toJsonItems_eq, toJsonItems_eq] at hitems
          exact congrArg IrValue.array (map_inj_at (fun child hchild _ => @ih child hchild _) hitems)
      | _ => cases h
  | object members ih =>
      intro value' h
      cases value' with
      | object members' =>
          have hmembers : toJsonMembers members = toJsonMembers members' := Json.object.inj h
          rw [toJsonMembers_eq, toJsonMembers_eq] at hmembers
          refine congrArg IrValue.object (map_inj_at (fun member hmember member' heq => ?_) hmembers)
          obtain ⟨hkey, hvalue⟩ := Prod.mk.inj heq
          exact Prod.ext hkey (ih member hmember hvalue)
      | _ => cases h

theorem objectJson_injective : Function.Injective objectJson := fun _ _ h =>
  IrValue.object.inj (IrValue.toJson_injective h)

theorem DecimalU64.toString_injective : Function.Injective DecimalU64.toString := by
  intro value value' h
  have hread : fromStr value.toString = .ok value' := fromStr_iff.mpr h
  rw [fromStr_iff.mpr rfl] at hread
  exact Except.ok.inj hread

theorem encodeHex_injective : Function.Injective encodeHex := by
  intro bytes bytes' h
  have hread : decodeSha256 (encodeHex bytes) = .ok bytes' := decodeSha256_iff.mpr h
  rw [decodeSha256_iff.mpr rfl] at hread
  exact Except.ok.inj hread

/-- The encodings tell an integer hash from a byte hash that prints alike. -/
theorem OpaqueHash.toJson_injective : Function.Injective OpaqueHash.toJson := by
  intro hash hash' h
  cases hash with
  | u64 value =>
      cases hash' with
      | u64 value' =>
          simp only [toJson, Json.object.injEq, List.cons.injEq, Prod.mk.injEq, Json.string.injEq,
            true_and, and_true] at h
          rw [DecimalU64.toString_injective h]
      | bytes value' => simp [toJson] at h
  | bytes value =>
      cases hash' with
      | u64 value' => simp [toJson] at h
      | bytes value' =>
          simp only [toJson, Json.object.injEq, List.cons.injEq, Prod.mk.injEq, Json.string.injEq,
            true_and, and_true] at h
          exact congrArg (fun bytes => OpaqueHash.bytes ⟨bytes⟩) (Base64.encodeString_inj h)

theorem CacheGroup.toJson_injective : Function.Injective CacheGroup.toJson := by
  intro group group' h
  cases group with
  | index value =>
      cases group' with
      | index value' =>
          simp only [toJson, Json.object.injEq, List.cons.injEq, Prod.mk.injEq, Json.number.injEq,
            true_and, and_true, Nat.cast_inj] at h
          rw [UInt32.toNat_inj.mp h]
      | unspecified => simp [toJson] at h
  | unspecified =>
      cases group' with
      | index value' => simp [toJson] at h
      | unspecified => rfl

theorem StorageMedium.toJson_injective : Function.Injective StorageMedium.toJson := by
  intro medium medium' h
  cases medium with
  | named value =>
      cases medium' with
      | named value' =>
          simp only [toJson, Json.object.injEq, List.cons.injEq, Prod.mk.injEq, Json.string.injEq,
            true_and, and_true] at h
          rw [h]
      | unspecified => simp [toJson] at h
  | unspecified =>
      cases medium' with
      | named value' => simp [toJson] at h
      | unspecified => rfl

theorem Lineage.toJson_injective : Function.Injective Lineage.toJson := by
  intro lineage lineage' h
  cases lineage with
  | chain parent =>
      cases lineage' with
      | chain parent' =>
          simp only [toJson, Json.object.injEq, List.cons.injEq, Prod.mk.injEq, true_and,
            and_true] at h
          rw [OpaqueHash.toJson_injective h]
      | opaque_ => simp [toJson] at h
  | opaque_ =>
      cases lineage' with
      | chain parent' => simp [toJson] at h
      | opaque_ => rfl

theorem Sha256Digest.toJson_injective : Function.Injective Sha256Digest.toJson := by
  intro digest digest' h
  exact congrArg Sha256Digest.mk (encodeHex_injective (Json.string.inj h))

theorem TokenEvidence.toJson_injective : Function.Injective TokenEvidence.toJson := by
  intro evidence evidence' h
  cases evidence with
  | keyedDigest algorithm keyId value =>
      cases evidence' with
      | keyedDigest algorithm' keyId' value' =>
          simp only [toJson, Json.object.injEq, List.cons.injEq, Prod.mk.injEq, Json.string.injEq,
            true_and, and_true] at h
          rw [h.1, Sha256Digest.toJson_injective h.2]
      | unkeyedDigest algorithm' value' => simp [toJson] at h
      | tokenIds values' => simp [toJson] at h
  | unkeyedDigest algorithm value =>
      cases evidence' with
      | keyedDigest algorithm' keyId' value' => simp [toJson] at h
      | unkeyedDigest algorithm' value' =>
          simp only [toJson, Json.object.injEq, List.cons.injEq, Prod.mk.injEq, true_and,
            and_true] at h
          rw [Sha256Digest.toJson_injective h]
      | tokenIds values' => simp [toJson] at h
  | tokenIds values =>
      cases evidence' with
      | keyedDigest algorithm' keyId' value' => simp [toJson] at h
      | unkeyedDigest algorithm' value' => simp [toJson] at h
      | tokenIds values' =>
          simp only [toJson, Json.object.injEq, List.cons.injEq, Prod.mk.injEq, Json.array.injEq,
            true_and, and_true] at h
          refine congrArg TokenEvidence.tokenIds (map_inj_at (fun id _ id' heq => ?_) h)
          exact UInt32.toNat_inj.mp (Nat.cast_inj.mp (Json.number.inj heq))

/-- The keys of a store run are in order. -/
theorem StoreRun.keys_fields (run : StoreRun) : run.fields.map Prod.fst = ["block_metadata",
    "block_size", "group", "hashes", "lineage", "medium", "metadata", "op", "token_count",
    "token_evidence"] := rfl

theorem StoreRun.fields_injective : Function.Injective StoreRun.fields := by
  intro run run' h
  have hnat : Function.Injective fun count : UInt64 => Json.number count.toNat :=
    fun _ _ heq => UInt64.toNat_inj.mp (Nat.cast_inj.mp (Json.number.inj heq))
  have hsize : Function.Injective fun size : UInt32 => Json.number size.toNat :=
    fun _ _ heq => UInt32.toNat_inj.mp (Nat.cast_inj.mp (Json.number.inj heq))
  have hobjects : Function.Injective fun objects : List IrObject =>
      Json.array (objects.map objectJson) :=
    fun _ _ heq => List.map_injective_iff.mpr objectJson_injective (Json.array.inj heq)
  simp only [fields, List.cons.injEq, Prod.mk.injEq, true_and, and_true, Option.some.injEq,
    Json.array.injEq] at h
  obtain ⟨hblocks, hblock, hgroup, hhashes, hlineage, hmedium, hmetadata, hcount, hevidence⟩ := h
  have hhashes := List.map_injective_iff.mpr OpaqueHash.toJson_injective hhashes
  have hlineage := Option.map_injective Lineage.toJson_injective hlineage
  have hcount := Option.map_injective hnat hcount
  have hevidence := Option.map_injective TokenEvidence.toJson_injective hevidence
  have hblock := Option.map_injective hsize hblock
  have hblocks := Option.map_injective hobjects hblocks
  cases run
  cases run'
  rw [StoreRun.mk.injEq]
  exact ⟨hhashes, hlineage, hcount, hevidence, hblock, CacheGroup.toJson_injective hgroup,
    StorageMedium.toJson_injective hmedium, hblocks, objectJson_injective hmetadata⟩

/-- The tag of a mutation. -/
def Mutation.op : Mutation → String
  | .storeRun _ => "store_run"
  | .remove _ _ _ _ => "remove"
  | .clear _ => "clear"

theorem Mutation.member?_toJson (mutation : Mutation) :
    mutation.toJson.member? "op" = some (.string mutation.op) := by
  cases mutation with
  | storeRun run =>
      rw [toJson, Json.member?_ofFields (by rw [StoreRun.keys_fields]; decide)]
      rfl
  | remove hashes group medium metadata => rfl
  | clear metadata => rfl

theorem Mutation.toJson_injective : Function.Injective Mutation.toJson := by
  intro mutation mutation' h
  have hop : mutation.op = mutation'.op := by
    have hmember := congrArg (Json.member? "op") h
    rw [member?_toJson, member?_toJson] at hmember
    exact Json.string.inj (Option.some.inj hmember)
  cases mutation with
  | storeRun run =>
      cases mutation' with
      | storeRun run' =>
          have hfields : run.fields = run'.fields := by
            refine Json.present_inj ?_ ?_ (Json.object.inj h)
            · rw [StoreRun.keys_fields]
              decide
            · rw [StoreRun.keys_fields, StoreRun.keys_fields]
          rw [StoreRun.fields_injective hfields]
      | remove _ _ _ _ => exact absurd hop (by simp [op])
      | clear _ => exact absurd hop (by simp [op])
  | remove hashes group medium metadata =>
      cases mutation' with
      | storeRun _ => exact absurd hop (by simp [op])
      | remove hashes' group' medium' metadata' =>
          simp only [toJson, Json.object.injEq, List.cons.injEq, Prod.mk.injEq, true_and,
            and_true, Json.array.injEq] at h
          obtain ⟨hgroup, hhashes, hmedium, hmetadata⟩ := h
          rw [CacheGroup.toJson_injective hgroup, StorageMedium.toJson_injective hmedium,
            objectJson_injective hmetadata,
            List.map_injective_iff.mpr OpaqueHash.toJson_injective hhashes]
      | clear _ => exact absurd hop (by simp [op])
  | clear metadata =>
      cases mutation' with
      | storeRun _ => exact absurd hop (by simp [op])
      | remove _ _ _ _ => exact absurd hop (by simp [op])
      | clear metadata' =>
          simp only [toJson, Json.object.injEq, List.cons.injEq, Prod.mk.injEq, true_and,
            and_true] at h
          rw [objectJson_injective h]

/-- The tree determines the mutations. -/
theorem mutationsJson_injective : Function.Injective mutationsJson := fun _ _ h =>
  List.map_injective_iff.mpr Mutation.toJson_injective (Json.array.inj h)

end KvCrucible
