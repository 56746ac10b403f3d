/-
KvCrucible/Identity.lean

Fingerprints identify mutation lists (`fingerprint.rs`).

The mutations of a valid envelope have a tree that every JSON implementation
prints: keys in order, integers exact (`printable_mutations`).  With a
canonicalizer that prints distinct such trees to distinct texts, the bytes
that are hashed are equal exactly for equal mutation lists, whatever else the
envelopes say.
-/
import KvCrucible.Basis.Except
import KvCrucible.Fingerprint
import KvCrucible.MutationJson
import KvCrucible.Validate

namespace KvCrucible

open Basis

/-! ### Trees that print exactly -/

/-- A value that all JSON implementations agree about: keys in order and a
safe integer. -/
structure Plain (node : Json) : Prop where
  keys : node.keys.Pairwise (· < ·)
  safe : ∀ n, node = .number n → n.natAbs ≤ maxSafeJsonInteger

/-- All values of a tree are plain. -/
def Printable (tree : Json) : Prop := tree.Every Plain

/-- The objects of a mutation. -/
def Mutation.objects : Mutation → List IrObject
  | .storeRun run => run.metadata :: run.blockMetadata.getD []
  | .remove _ _ _ metadata => [metadata]
  | .clear metadata => [metadata]

/-- The entries of a map stand in key order, at every depth: what a `BTreeMap`
guarantees. -/
def Mutation.Ordered (mutation : Mutation) : Prop :=
  ∀ members ∈ mutation.objects, (objectJson members).Every fun node => node.keys.Pairwise (· < ·)

theorem plain_array (items : List Json) : Plain (.array items) :=
  ⟨List.Pairwise.nil, fun _ h => by cases h⟩

theorem plain_object {members : List (String × Json)}
    (h : (members.map Prod.fst).Pairwise (· < ·)) : Plain (.object members) :=
  ⟨h, fun _ h => by cases h⟩

theorem printable_string (value : String) : Printable (.string value) :=
  Json.every_string.mpr ⟨List.Pairwise.nil, fun _ h => by cases h⟩

theorem printable_bool (value : Bool) : Printable (.bool value) :=
  (Json.IsScalar.bool value).every.mpr ⟨List.Pairwise.nil, fun _ h => by cases h⟩

theorem printable_null : Printable .null :=
  Json.IsScalar.null.every.mpr ⟨List.Pairwise.nil, fun _ h => by cases h⟩

theorem printable_number {n : Int} (h : n.natAbs ≤ maxSafeJsonInteger) : Printable (.number n) := by
  refine (Json.IsScalar.number n).every.mpr ⟨List.Pairwise.nil, fun m hm => ?_⟩
  rw [← Json.number.inj hm]
  exact h

theorem printable_array {items : List Json} (h : ∀ item ∈ items, Printable item) :
    Printable (.array items) :=
  Json.every_array.mpr ⟨plain_array items, h⟩

theorem printable_object {members : List (String × Json)}
    (hkeys : (members.map Prod.fst).Pairwise (· < ·))
    (h : ∀ member ∈ members, Printable member.2) : Printable (.object members) :=
  Json.every_object.mpr ⟨plain_object hkeys, h⟩

/-! ### Inert values of valid records -/

theorem ValidationContext.arrayItems_ok {values : List IrValue} {depth : Nat} :
    ∀ {c c' : ValidationContext}, c.arrayItems values depth = .ok c' →
      ∀ child ∈ values, ∃ before after : ValidationContext,
        before.value child (depth + 1) = .ok after := by
  induction values with
  | nil => exact fun _ => List.forall_mem_nil _
  | cons child rest ih =>
      intro c c' h
      rw [arrayItems] at h
      obtain ⟨c₁, hchild, h⟩ := bind_eq_ok.mp h
      exact List.forall_mem_cons.mpr ⟨⟨c, c₁, hchild⟩, ih h⟩

theorem ValidationContext.objectMembers_ok {members : List (String × IrValue)} {depth : Nat} :
    ∀ {c c' : ValidationContext}, c.objectMembers members depth = .ok c' →
      ∀ member ∈ members, ∃ before after : ValidationContext,
        before.value member.2 (depth + 1) = .ok after := by
  induction members with
  | nil => exact fun _ => List.forall_mem_nil _
  | cons member rest ih =>
      intro c c' h
      obtain ⟨key, child⟩ := member
      rw [objectMembers] at h
      obtain ⟨c₁, -, h⟩ := bind_eq_ok.mp h
      obtain ⟨c₂, hchild, h⟩ := bind_eq_ok.mp h
      exact List.forall_mem_cons.mpr ⟨⟨c₁, c₂, hchild⟩, ih h⟩

/-- A valid inert value in key order prints. -/
theorem printable_value {value : IrValue} : ∀ {c c' : ValidationContext} {depth : Nat},
    c.value value depth = .ok c' →
      (value.toJson.Every fun node => node.keys.Pairwise (· < ·)) → Printable value.toJson := by
  induction value using IrValue.inductionOn with
  | null => exact fun _ _ => printable_null
  | bool b => exact fun _ _ => printable_bool b
  | string s => exact fun _ _ => printable_string s
  | integer number =>
      intro c c' depth h _
      rw [ValidationContext.value] at h
      obtain ⟨c₁, -, h⟩ := bind_eq_ok.mp h
      obtain ⟨⟨⟩, -, h⟩ := bind_eq_ok.mp h
      obtain ⟨⟨⟩, hsafe, -⟩ := bind_eq_ok.mp h
      exact printable_number (Nat.not_lt.mp (rejectIf_eq_ok.mp hsafe))
  | array values ih =>
      intro c c' depth h hkeys
      rw [IrValue.toJson, toJsonItems_eq] at hkeys ⊢
      rw [ValidationContext.value] at h
      obtain ⟨c₁, -, h⟩ := bind_eq_ok.mp h
      obtain ⟨⟨⟩, -, h⟩ := bind_eq_ok.mp h
      obtain ⟨⟨⟩, -, h⟩ := bind_eq_ok.mp h
      have hitems := (Json.every_array.mp hkeys).2
      refine printable_array (List.forall_mem_map.mpr fun child hchild => ?_)
      obtain ⟨before, after, hvalue⟩ := ValidationContext.arrayItems_ok h child hchild
      exact ih child hchild hvalue (hitems _ (List.mem_map_of_mem hchild))
  | object members ih =>
      intro c c' depth h hkeys
      rw [IrValue.toJson, toJsonMembers_eq] at hkeys ⊢
      rw [ValidationContext.value] at h
      obtain ⟨c₁, -, h⟩ := bind_eq_ok.mp h
      obtain ⟨⟨⟩, -, h⟩ := bind_eq_ok.mp h
      obtain ⟨⟨⟩, -, h⟩ := bind_eq_ok.mp h
      obtain ⟨hown, hmembers⟩ := Json.every_object.mp hkeys
      refine printable_object hown (List.forall_mem_map.mpr fun member hmember => ?_)
      obtain ⟨before, after, hvalue⟩ := ValidationContext.objectMembers_ok h member hmember
      exact ih member hmember hvalue (hmembers _ (List.mem_map_of_mem hmember))

/-- The objects of a store run's blocks. -/
theorem ValidationContext.blockMetadata_ok {c c' : ValidationContext} {hashes : List OpaqueHash}
    {blocks : Option (List IrObject)} (h : c.blockMetadata hashes blocks = .ok c') :
    ∀ members ∈ blocks.getD [], ∃ before after : ValidationContext,
      before.object members 1 = .ok after := by
  cases blocks with
  | none => exact List.forall_mem_nil _
  | some objects =>
      obtain ⟨⟨⟩, -, hfold⟩ := bind_eq_ok.mp h
      exact foldlM_forall (fun hstep => ⟨_, _, hstep⟩) hfold

/-- Validation walks every object of a mutation. -/
theorem ValidationContext.validateMutation_objects {c c' : ValidationContext} {mutation : Mutation}
    (h : c.validateMutation mutation = .ok c') : ∀ members ∈ mutation.objects,
      ∃ before after : ValidationContext, before.object members 1 = .ok after := by
  cases mutation with
  | storeRun run =>
      obtain ⟨c₁, -, h⟩ := bind_eq_ok.mp h
      obtain ⟨⟨⟩, -, h⟩ := bind_eq_ok.mp h
      obtain ⟨⟨⟩, -, h⟩ := bind_eq_ok.mp h
      obtain ⟨c₂, -, h⟩ := bind_eq_ok.mp h
      obtain ⟨⟨⟩, -, h⟩ := bind_eq_ok.mp h
      obtain ⟨c₃, -, h⟩ := bind_eq_ok.mp h
      obtain ⟨c₄, hblocks, h⟩ := bind_eq_ok.mp h
      exact List.forall_mem_cons.mpr ⟨⟨c₄, c', h⟩, blockMetadata_ok hblocks⟩
  | remove hashes group medium metadata =>
      obtain ⟨c₁, -, h⟩ := bind_eq_ok.mp h
      obtain ⟨c₂, -, h⟩ := bind_eq_ok.mp h
      exact List.forall_mem_singleton.mpr ⟨c₂, c', h⟩
  | clear metadata => exact List.forall_mem_singleton.mpr ⟨c, c', h⟩

/-- The token count of a valid store run is safe. -/
theorem ValidationContext.validateMutation_tokenCount {c c' : ValidationContext} {run : StoreRun}
    (h : c.validateMutation (.storeRun run) = .ok c') {count : UInt64}
    (hcount : run.tokenCount = some count) : count.toNat ≤ maxSafeJsonInteger := by
  obtain ⟨c₁, -, h⟩ := bind_eq_ok.mp h
  obtain ⟨⟨⟩, -, h⟩ := bind_eq_ok.mp h
  obtain ⟨⟨⟩, htokens, h⟩ := bind_eq_ok.mp h
  rw [hcount] at htokens
  obtain ⟨⟨⟩, hsafe, -⟩ := bind_eq_ok.mp htokens
  exact Nat.not_lt.mp (rejectIf_eq_ok.mp hsafe)

/-- A valid object in key order prints. -/
theorem printable_objectJson {c c' : ValidationContext} {members : IrObject}
    (h : c.object members 1 = .ok c')
    (hkeys : (objectJson members).Every fun node => node.keys.Pairwise (· < ·)) :
    Printable (objectJson members) := by
  have hvalue : c.value (.object members) 1 = .ok c' := by
    rw [ValidationContext.value]
    exact h
  exact printable_value hvalue hkeys

/-! ### Valid mutations print -/

theorem printable_nat {n : Nat} (h : n ≤ maxSafeJsonInteger) : Printable (.number n) := by
  apply printable_number
  rw [Int.natAbs_natCast]
  exact h

theorem printable_u32 (n : UInt32) : Printable (.number n.toNat) := by
  have hn := n.toNat_lt
  apply printable_nat
  rw [maxSafeJsonInteger]
  omega

theorem OpaqueHash.printable (hash : OpaqueHash) : Printable hash.toJson := by
  cases hash with
  | u64 value =>
      apply printable_object
      · show ["encoding", "value"].Pairwise (· < ·)
        decide
      · simp only [List.forall_mem_cons, printable_string, true_and]
        exact List.forall_mem_nil _
  | bytes value =>
      apply printable_object
      · show ["encoding", "value"].Pairwise (· < ·)
        decide
      · simp only [List.forall_mem_cons, printable_string, true_and]
        exact List.forall_mem_nil _

theorem printable_hashes (hashes : List OpaqueHash) :
    Printable (.array (hashes.map OpaqueHash.toJson)) :=
  printable_array (List.forall_mem_map.mpr fun hash _ => hash.printable)

theorem CacheGroup.printable (group : CacheGroup) : Printable group.toJson := by
  cases group with
  | index value =>
      apply printable_object
      · show ["kind", "value"].Pairwise (· < ·)
        decide
      · simp only [List.forall_mem_cons, printable_string, printable_u32, true_and]
        exact List.forall_mem_nil _
  | unspecified =>
      apply printable_object
      · exact List.pairwise_singleton _ _
      · exact List.forall_mem_singleton.mpr (printable_string _)

theorem StorageMedium.printable (medium : StorageMedium) : Printable medium.toJson := by
  cases medium with
  | named value =>
      apply printable_object
      · show ["kind", "value"].Pairwise (· < ·)
        decide
      · simp only [List.forall_mem_cons, printable_string, true_and]
        exact List.forall_mem_nil _
  | unspecified =>
      apply printable_object
      · exact List.pairwise_singleton _ _
      · exact List.forall_mem_singleton.mpr (printable_string _)

theorem Lineage.printable (lineage : Lineage) : Printable lineage.toJson := by
  cases lineage with
  | chain parent =>
      apply printable_object
      · show ["kind", "parent_of_first"].Pairwise (· < ·)
        decide
      · simp only [List.forall_mem_cons, printable_string, parent.printable, true_and]
        exact List.forall_mem_nil _
  | opaque_ =>
      apply printable_object
      · exact List.pairwise_singleton _ _
      · exact List.forall_mem_singleton.mpr (printable_string _)

theorem TokenEvidence.printable (evidence : TokenEvidence) : Printable evidence.toJson := by
  cases evidence with
  | keyedDigest algorithm keyId value =>
      apply printable_object
      · show ["algorithm", "key_id", "kind", "value"].Pairwise (· < ·)
        decide
      · simp only [List.forall_mem_cons, KeyedDigestAlgorithm.toJson, Sha256Digest.toJson,
          printable_string, true_and]
        exact List.forall_mem_nil _
  | unkeyedDigest algorithm value =>
      apply printable_object
      · show ["algorithm", "kind", "value"].Pairwise (· < ·)
        decide
      · simp only [List.forall_mem_cons, UnkeyedDigestAlgorithm.toJson, Sha256Digest.toJson,
          printable_string, true_and]
        exact List.forall_mem_nil _
  | tokenIds values =>
      have hids : Printable (.array (values.map fun value => .number value.toNat)) :=
        printable_array (List.forall_mem_map.mpr fun value _ => printable_u32 value)
      apply printable_object
      · show ["kind", "values"].Pairwise (· < ·)
        decide
      · simp only [List.forall_mem_cons, printable_string, hids, true_and]
        exact List.forall_mem_nil _

/-- A record whose fields print. -/
theorem printable_ofFields {fields : List (String × Option Json)}
    (hkeys : (fields.map Prod.fst).Pairwise (· < ·))
    (h : ∀ field ∈ fields, ∀ value ∈ field.2, Printable value) : Printable (.ofFields fields) :=
  printable_object (hkeys.sublist Json.keys_present_sublist)
    fun member hmember => h _ (Json.mem_present.mp hmember) member.2 rfl

/-- A valid mutation in key order prints. -/
theorem Mutation.printable {c c' : ValidationContext} {mutation : Mutation}
    (hvalid : c.validateMutation mutation = .ok c') (hordered : mutation.Ordered) :
    Printable mutation.toJson := by
  have hobjects : ∀ members ∈ mutation.objects, Printable (objectJson members) := by
    intro members hmembers
    obtain ⟨before, after, hobject⟩ := ValidationContext.validateMutation_objects hvalid members
      hmembers
    exact printable_objectJson hobject (hordered members hmembers)
  cases mutation with
  | storeRun run =>
      obtain ⟨hmetadata, hblocks⟩ := List.forall_mem_cons.mp hobjects
      have hcount : ∀ count ∈ run.tokenCount, count.toNat ≤ maxSafeJsonInteger :=
        fun count hsome => ValidationContext.validateMutation_tokenCount hvalid hsome
      apply printable_ofFields
      · rw [StoreRun.keys_fields]
        decide
      · simp only [StoreRun.fields, List.forall_mem_cons, Option.forall_mem_map, Option.mem_some_iff,
          forall_eq', CacheGroup.printable, StorageMedium.printable, printable_hashes,
          printable_string, Lineage.printable, TokenEvidence.printable, printable_u32, hmetadata,
          implies_true, true_and]
        refine ⟨fun objects hsome => ?_, fun count hsome => printable_nat (hcount count hsome),
          List.forall_mem_nil _⟩
        rw [Option.mem_def.mp hsome] at hblocks
        exact printable_array (List.forall_mem_map.mpr hblocks)
  | remove hashes group medium metadata =>
      apply printable_object
      · show ["group", "hashes", "medium", "metadata", "op"].Pairwise (· < ·)
        decide
      · simp only [List.forall_mem_cons, CacheGroup.printable, StorageMedium.printable,
          printable_hashes, printable_string, hobjects metadata List.mem_cons_self, true_and]
        exact List.forall_mem_nil _
  | clear metadata =>
      apply printable_object
      · show ["metadata", "op"].Pairwise (· < ·)
        decide
      · simp only [List.forall_mem_cons, printable_string, hobjects metadata List.mem_cons_self,
          true_and]
        exact List.forall_mem_nil _

/-- The mutations of a valid envelope print. -/
theorem printable_mutations {envelope : EventEnvelope} {limits : Limits}
    (hvalid : (Record.envelope envelope).validate limits = .ok ())
    (hordered : ∀ mutation ∈ envelope.mutations, mutation.Ordered) :
    Printable (mutationsJson envelope.mutations) := by
  obtain ⟨c, hrecord, -⟩ := bind_eq_ok.mp hvalid
  obtain ⟨c₁, -, h⟩ := bind_eq_ok.mp hrecord
  obtain ⟨c₂, -, h⟩ := bind_eq_ok.mp h
  obtain ⟨⟨⟩, -, h⟩ := bind_eq_ok.mp h
  obtain ⟨c₃, hfold, -⟩ := bind_eq_ok.mp h
  have hall : ∀ mutation ∈ envelope.mutations, ∃ before after : ValidationContext,
      before.validateMutation mutation = .ok after :=
    foldlM_forall (fun hstep => ⟨_, _, hstep⟩) hfold
  refine printable_array (List.forall_mem_map.mpr fun mutation hmutation => ?_)
  obtain ⟨before, after, hstep⟩ := hall mutation hmutation
  exact mutation.printable hstep (hordered mutation hmutation)

/-! ### The bounded writer -/

namespace HashWriter

/-- Bytes within the ceiling are hashed. -/
theorem write_of_le {w : HashWriter} {bytes : List UInt8} (hmaximum : w.maximum < 2 ^ 64)
    (h : w.written + bytes.length ≤ w.maximum) : w.write bytes =
      (true, { w with hashed := w.hashed ++ bytes, written := w.written + bytes.length }) := by
  have hadd : checkedAdd w.written bytes.length = some (w.written + bytes.length) :=
    checkedAdd_eq_some.mpr ⟨rfl, by omega⟩
  rw [write, hadd]
  exact if_neg (Nat.not_lt.mpr h)

/-- Bytes beyond the ceiling are refused. -/
theorem write_of_gt {w : HashWriter} {bytes : List UInt8}
    (h : w.maximum < w.written + bytes.length) :
    ∃ failure, w.write bytes = (false, { w with failure := some failure }) := by
  rw [write]
  cases hadd : checkedAdd w.written bytes.length with
  | none => exact ⟨_, rfl⟩
  | some observed =>
      obtain ⟨hsum, -⟩ := checkedAdd_eq_some.mp hadd
      have hgt : observed > w.maximum := hsum ▸ h
      exact ⟨_, if_pos hgt⟩

theorem writeAll_cons_true {w w₁ : HashWriter} {bytes : List UInt8} {rest : List (List UInt8)}
    (h : w.write bytes = (true, w₁)) : w.writeAll (bytes :: rest) = w₁.writeAll rest := by
  rw [writeAll, h]

theorem writeAll_cons_false {w w₁ : HashWriter} {bytes : List UInt8} {rest : List (List UInt8)}
    (h : w.write bytes = (false, w₁)) : w.writeAll (bytes :: rest) = (false, w₁) := by
  rw [writeAll, h]

/-- All writes together are within the ceiling. -/
theorem writeAll_of_le {chunks : List (List UInt8)} : ∀ {w : HashWriter}, w.maximum < 2 ^ 64 →
    w.written + chunks.flatten.length ≤ w.maximum → w.writeAll chunks =
      (true, { w with
        hashed := w.hashed ++ chunks.flatten, written := w.written + chunks.flatten.length }) := by
  induction chunks with
  | nil =>
      intro w _ _
      rw [List.flatten_nil, List.append_nil]
      rfl
  | cons bytes rest ih =>
      intro w hmaximum h
      rw [List.flatten_cons, List.length_append] at h
      have hwrite := @write_of_le w bytes hmaximum (by omega)
      rw [writeAll_cons_true hwrite, List.flatten_cons, List.length_append, ← List.append_assoc,
        ← Nat.add_assoc]
      apply @ih ⟨w.hashed ++ bytes, w.maximum, w.written + bytes.length, w.failure⟩ hmaximum
      show w.written + bytes.length + rest.flatten.length ≤ w.maximum
      omega

/-- All writes together pass the ceiling: one of them is refused. -/
theorem writeAll_of_gt {chunks : List (List UInt8)} : ∀ {w : HashWriter}, w.maximum < 2 ^ 64 →
    w.written ≤ w.maximum → w.maximum < w.written + chunks.flatten.length →
      ∃ w' failure, w.writeAll chunks = (false, w') ∧ w'.failure = some failure := by
  induction chunks with
  | nil =>
      intro w _ hle hgt
      rw [List.flatten_nil, List.length_nil] at hgt
      omega
  | cons bytes rest ih =>
      intro w hmaximum hle hgt
      rw [List.flatten_cons, List.length_append] at hgt
      by_cases hfit : w.written + bytes.length ≤ w.maximum
      · rw [writeAll_cons_true (write_of_le hmaximum hfit)]
        apply @ih ⟨w.hashed ++ bytes, w.maximum, w.written + bytes.length, w.failure⟩ hmaximum hfit
        show w.maximum < w.written + bytes.length + rest.flatten.length
        omega
      · obtain ⟨failure, hwrite⟩ := write_of_gt (Nat.not_le.mp hfit)
        exact ⟨_, failure, writeAll_cons_false hwrite, rfl⟩

end HashWriter

/-- An accepted list is fingerprinted exactly when its text fits. -/
theorem Canonical.value_iff {canon : Canonical} {mutations : List Mutation} {maximum : Nat}
    (hmaximum : maximum < 2 ^ 64) (haccepts : canon.accepts mutations = true)
    {computed : Computed} : canon.value mutations maximum = .ok computed ↔
      (canon.text mutations).length ≤ maximum ∧
        computed = ⟨canon.fingerprint mutations, (canon.text mutations).length⟩ := by
  by_cases hfit : (canon.text mutations).length ≤ maximum
  · have hrun := @HashWriter.writeAll_of_le (canon.writes mutations) (.new maximum) hmaximum
      ((Nat.zero_add _).trans_le hfit)
    have hvalue : canon.value mutations maximum =
        .ok ⟨canon.fingerprint mutations, (canon.text mutations).length⟩ := by
      rw [value, hrun]
      simp [HashWriter.new, HashWriter.finish, haccepts, fingerprint, text]
    rw [hvalue, Except.ok.injEq]
    exact ⟨fun h => ⟨hfit, h.symm⟩, fun h => h.2.symm⟩
  · obtain ⟨w', failure, hrun, hfailure⟩ := @HashWriter.writeAll_of_gt (canon.writes mutations)
      (.new maximum) hmaximum (Nat.zero_le _) (by
        show maximum < 0 + (canon.text mutations).length
        omega)
    have hvalue : canon.value mutations maximum = .error failure := by
      rw [value, hrun]
      simp [hfailure]
    rw [hvalue]
    exact iff_of_false (fun h => by cases h) fun h => hfit h.1

/-! ### Canonicalizers -/

/-- `serde_json_canonicalizer` at the tree of a value: the writes it makes and
whether it accepts the tree. -/
structure Canonicalizer where
  writes : Json → List (List UInt8)
  accepts : Json → Bool

namespace Canonicalizer

/-- The text of a tree. -/
def text (printer : Canonicalizer) (tree : Json) : List UInt8 := (printer.writes tree).flatten

/-- The libraries a fingerprint rests on. -/
def canonical (printer : Canonicalizer) (sha256 : List UInt8 → Vector UInt8 32) : Canonical where
  writes := fun mutations => printer.writes (mutationsJson mutations)
  accepts := fun mutations => printer.accepts (mutationsJson mutations)
  sha256 := sha256

/-- What RFC 8785 says about two trees: they are accepted, and distinct trees
have distinct texts, if keys are in order and integers are safe. -/
structure Exact (printer : Canonicalizer) (tree tree' : Json) : Prop where
  accepts : Printable tree → printer.accepts tree = true
  accepts' : Printable tree' → printer.accepts tree' = true
  distinct : Printable tree → Printable tree' → printer.text tree = printer.text tree' →
    tree = tree'

end Canonicalizer

/-- Fingerprints identify exactly the mutation lists of valid envelopes. -/
theorem fingerprints_identify_mutations (printer : Canonicalizer)
    (sha256 : List UInt8 → Vector UInt8 32) (e e' : EventEnvelope) (limits limits' : Limits)
    (hvalid : (Record.envelope e).validate limits = .ok ())
    (hvalid' : (Record.envelope e').validate limits' = .ok ())
    (hordered : ∀ mutation ∈ e.mutations, mutation.Ordered)
    (hordered' : ∀ mutation ∈ e'.mutations, mutation.Ordered)
    (hprinter : printer.Exact (mutationsJson e.mutations) (mutationsJson e'.mutations))
    (hsha : sha256 (printer.text (mutationsJson e.mutations)) =
      sha256 (printer.text (mutationsJson e'.mutations)) →
        printer.text (mutationsJson e.mutations) = printer.text (mutationsJson e'.mutations)) :
    (∀ maximum : UInt64,
      ((∃ computed, (printer.canonical sha256).envelope e maximum.toNat = .ok computed) ↔
        (printer.text (mutationsJson e.mutations)).length ≤ maximum.toNat) ∧
      (∀ computed, (printer.canonical sha256).envelope e maximum.toNat = .ok computed →
        computed.canonicalBytes = (printer.text (mutationsJson e.mutations)).length ∧
        computed.fingerprint.bytes = sha256 (printer.text (mutationsJson e.mutations)) ∧
        ((HashWriter.new maximum.toNat).writeAll
          (printer.writes (mutationsJson e.mutations))).2.hashed =
            printer.text (mutationsJson e.mutations)) ∧
      ∀ split : Canonicalizer,
        split.text (mutationsJson e.mutations) = printer.text (mutationsJson e.mutations) →
        split.accepts (mutationsJson e.mutations) = true →
          ∀ computed, (split.canonical sha256).envelope e maximum.toNat = .ok computed ↔
            (printer.canonical sha256).envelope e maximum.toNat = .ok computed) ∧
    (printer.text (mutationsJson e.mutations) = printer.text (mutationsJson e'.mutations) ↔
      e.mutations = e'.mutations) ∧
    ∀ maximum maximum' computed computed',
      (printer.canonical sha256).envelope e maximum = .ok computed →
      (printer.canonical sha256).envelope e' maximum' = .ok computed' →
        (computed.fingerprint = computed'.fingerprint ↔ e.mutations = e'.mutations) := by
  have hprint := printable_mutations hvalid hordered
  have hprint' := printable_mutations hvalid' hordered'
  have hiff : ∀ (maximum : UInt64) (computed : Computed), _ := fun maximum computed =>
    @Canonical.value_iff (printer.canonical sha256) e.mutations maximum.toNat maximum.toNat_lt
      (hprinter.accepts hprint) computed
  have htext : printer.text (mutationsJson e.mutations) =
      printer.text (mutationsJson e'.mutations) ↔ e.mutations = e'.mutations := by
    constructor
    · exact fun h => mutationsJson_injective (hprinter.distinct hprint hprint' h)
    · intro h
      rw [h]
  refine ⟨fun maximum => ⟨?_, fun computed h => ?_, fun split hsplit haccepts computed => ?_⟩,
    htext, fun maximum maximum' computed computed' h h' => ?_⟩
  · constructor
    · rintro ⟨computed, h⟩
      exact ((hiff maximum computed).mp h).1
    · exact fun h => ⟨_, (hiff maximum _).mpr ⟨h, rfl⟩⟩
  · obtain ⟨hfit, rfl⟩ := (hiff maximum computed).mp h
    refine ⟨rfl, rfl, ?_⟩
    have hrun := @HashWriter.writeAll_of_le (printer.writes (mutationsJson e.mutations))
      (.new maximum.toNat) maximum.toNat_lt ((Nat.zero_add _).trans_le hfit)
    rw [hrun]
    exact List.nil_append _
  · have hother := @Canonical.value_iff (split.canonical sha256) e.mutations maximum.toNat
      maximum.toNat_lt haccepts computed
    have hsame : (split.canonical sha256).text e.mutations =
        (printer.canonical sha256).text e.mutations := hsplit
    refine hother.trans (Iff.trans ?_ (hiff maximum computed).symm)
    rw [Canonical.fingerprint, Canonical.fingerprint, hsame]
    exact Iff.rfl
  · obtain ⟨hfingerprint, -, -⟩ := Canonical.value_ok h
    obtain ⟨hfingerprint', -, -⟩ := Canonical.value_ok h'
    rw [hfingerprint, hfingerprint', ← htext]
    constructor
    · exact fun heq => hsha (SemanticFingerprint.mk.inj heq)
    · exact fun heq => congrArg (fun bytes => SemanticFingerprint.mk (sha256 bytes)) heq

namespace Sample

mutual

/-- The text of a tree without characters that are escaped. -/
def compact : Json → String
  | .null => "null"
  | .bool value => toString value
  | .number value => toString value
  | .string value => "\"" ++ value ++ "\""
  | .array items => "[" ++ ",".intercalate (compactItems items) ++ "]"
  | .object members => "\x7b" ++ ",".intercalate (compactMembers members) ++ "\x7d"

/-- The items of an array. -/
def compactItems : List Json → List String
  | [] => []
  | item :: items => compact item :: compactItems items

/-- The members of an object. -/
def compactMembers : List (String × Json) → List String
  | [] => []
  | member :: members =>
      ("\"" ++ member.1 ++ "\":" ++ compact member.2) :: compactMembers members

end

/-- A canonicalizer for such trees. -/
def printer : Canonicalizer where
  writes := fun tree => [utf8 (compact tree)]
  accepts := fun _ => true

/-- Two stores of different hashes. -/
theorem fingerprints_identify_mutations_sample :
    (∃ computed, (printer.canonical sha256).envelope (envelope "first" 0 [store 1]) 139 =
      .ok computed) ∧
    (¬ ∃ computed, (printer.canonical sha256).envelope (envelope "first" 0 [store 1]) 138 =
      .ok computed) ∧
    [store 1] ≠ [store 2] := by
  have hstore : ∀ hash : UInt64, ∀ mutation ∈ [store hash], mutation.Ordered := by
    intro hash mutation hmutation
    obtain rfl := List.mem_singleton.mp hmutation
    refine List.forall_mem_singleton.mpr ?_
    exact Json.every_object.mpr ⟨List.Pairwise.nil, List.forall_mem_nil _⟩
  have htexts : printer.text (mutationsJson [store 1]) ≠ printer.text (mutationsJson [store 2]) := by
    decide +kernel
  have h := fingerprints_identify_mutations printer sha256 (envelope "first" 0 [store 1])
    (envelope "second" 7 [store 2]) forgetful forgetful (by decide +kernel) (by decide +kernel)
    (hstore 1) (hstore 2)
    ⟨fun _ => rfl, fun _ => rfl, fun _ _ heq => absurd heq htexts⟩
    (fun heq => absurd heq (by decide +kernel))
  refine ⟨(h.1 139).1.mpr ?_, fun hfit => absurd ((h.1 138).1.mp hfit) ?_, fun heq => ?_⟩
  · decide +kernel
  · decide +kernel
  · exact htexts (h.2.1.mpr heq)

end Sample

end KvCrucible
