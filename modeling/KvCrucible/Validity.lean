/-
KvCrucible/Validity.lean

Which records are valid (`Record::validate` in `ir.rs`).

Validation threads counters through a record and compares them with their
ceilings at every step.  What it accepts is said here without any state: each
part of the record meets its own requirements, and three totals over the whole
record are within their ceilings (`Record.Valid`).  Every function of
validation spends what its own part of the record supplies
(`spends_validateRecord`).

A counter of the source saturates, so that a ceiling at the largest `usize` is
never exceeded (`Affords`).
-/
import KvCrucible.Basis.Budget
import KvCrucible.TypedBudgets

namespace KvCrucible

open Basis

/-! ### Valid parts -/

section Parts

variable (limits : Limits)

/-- A saturating total is within a ceiling. -/
def Affords (ceiling : UInt64) (total : Nat) : Prop :=
  total ≤ ceiling.toNat ∨ ceiling.toNat = 2 ^ 64 - 1

/-- An identity string. -/
structure Identity (value : String) : Prop where
  nonempty : value ≠ ""
  identityBytes : len value ≤ limits.maxIdentityBytes.toNat
  stringBytes : len value ≤ limits.maxStringBytes.toNat

/-- An inert object. -/
def InertFits (members : IrObject) : Prop := ∀ supply ∈ objectSupplies members, supply.Fits limits

/-- A valid opaque hash. -/
def OpaqueHash.Valid : OpaqueHash → Prop
  | .u64 _ => True
  | .bytes value =>
      value.asBytes.length ≠ 0 ∧ value.asBytes.length ≤ limits.maxOpaqueHashBytes.toNat

/-- The hashes of one mutation. -/
structure ValidHashes (hashes : List OpaqueHash) : Prop where
  nonempty : hashes ≠ []
  count : hashes.length ≤ limits.maxHashesPerMutation.toNat
  each : ∀ hash ∈ hashes, hash.Valid limits

/-- A valid lineage. -/
def Lineage.Valid : Lineage → Prop
  | .chain parentOfFirst => parentOfFirst.Valid limits
  | .opaque_ => True

/-- A valid medium. -/
def StorageMedium.Valid : StorageMedium → Prop
  | .named value => Identity limits value
  | .unspecified => True

/-- Token evidence beside a declared token count. -/
def TokenEvidence.Valid (tokenCount : Option UInt64) : TokenEvidence → Prop
  | .keyedDigest _ keyId _ => Identity limits keyId
  | .unkeyedDigest _ _ => True
  | .tokenIds values => values.length ≤ limits.maxTokenIdsPerMutation.toNat ∧
      ∀ declared ∈ tokenCount, declared.toNat = values.length

/-- A valid store. -/
structure StoreRun.Valid (run : StoreRun) : Prop where
  hashes : ValidHashes limits run.hashes
  lineage : ∀ lineage ∈ run.lineage, lineage.Valid limits
  tokenCount : ∀ count ∈ run.tokenCount,
    count.toNat ≤ maxSafeJsonInteger ∧ count ≤ limits.maxTokenCount
  tokenEvidence : ∀ evidence ∈ run.tokenEvidence, evidence.Valid limits run.tokenCount
  blockSize : ∀ size ∈ run.blockSize, size ≠ 0 ∧ size ≤ limits.maxBlockSize
  medium : run.medium.Valid limits
  blockMetadata : ∀ objects ∈ run.blockMetadata,
    objects.length = run.hashes.length ∧ ∀ object ∈ objects, InertFits limits object
  metadata : InertFits limits run.metadata

/-- A valid mutation. -/
def Mutation.Valid : Mutation → Prop
  | .storeRun run => run.Valid limits
  | .remove hashes _ medium metadata =>
      ValidHashes limits hashes ∧ medium.Valid limits ∧ InertFits limits metadata
  | .clear metadata => InertFits limits metadata

/-- A valid fault action. -/
def FaultAction.Meets : FaultAction → Prop
  | .drop target => Identity limits target.envelopeId
  | .duplicate target copies =>
      Identity limits target.envelopeId ∧ copies ≠ 0 ∧ copies ≤ limits.maxDuplicateCopies
  | .moveBefore target anchor =>
      Identity limits target.envelopeId ∧ Identity limits anchor.envelopeId ∧ target ≠ anchor

/-- The requirements of the parts of a record. -/
def Record.Meets : Record → Prop
  | .traceHeader header => header.format = traceFormatVersion ∧
      Identity limits header.traceId ∧ Identity limits header.createdBy ∧
      InertFits limits header.extensions
  | .stream s => Identity limits s.streamId ∧ Identity limits s.engine ∧
      Identity limits s.engineVersion ∧ Identity limits s.engineInstance ∧
      Identity limits s.publisher ∧ Identity limits s.epoch ∧
      s.workerMetadata.length ≤ limits.maxWorkerMetadata.toNat ∧
      (∀ worker ∈ s.workerMetadata, Identity limits worker) ∧ InertFits limits s.extensions
  | .envelope e => Identity limits e.envelopeId ∧ Identity limits e.streamId ∧
      e.mutations.length ≤ limits.maxMutationsPerEnvelope.toNat ∧
      (∀ mutation ∈ e.mutations, mutation.Valid limits) ∧ InertFits limits e.extensions
  | .faultSchedule schedule => Identity limits schedule.scheduleId ∧
      schedule.actions.length ≤ limits.maxFaultActions.toNat ∧
      (∀ action ∈ schedule.actions, action.Meets limits) ∧ InertFits limits schedule.extensions

/-- The hashes of a mutation. -/
def Mutation.hashCount : Mutation → Nat
  | .storeRun run => run.hashes.length
  | .remove hashes _ _ _ => hashes.length
  | .clear _ => 0

/-- The hashes of a record. -/
def Record.hashCount : Record → Nat
  | .envelope e => (e.mutations.map Mutation.hashCount).sum
  | _ => 0

/-- A valid record. -/
structure Record.Valid (record : Record) : Prop where
  meets : record.Meets limits
  stringBytes : Affords limits.maxTotalStringBytes (record.supplies.map Supply.bytes).sum
  jsonValues : Affords limits.maxValues (record.supplies.map Supply.values).sum
  envelopeHashes : Affords limits.maxHashesPerEnvelope record.hashCount

end Parts

/-! ### The budget of validation -/

/-- String bytes, inert values and hashes. -/
abbrev Cost := Nat × Nat × Nat

/-- The cost of supplies. -/
def costOf (supplies : List Supply) : Cost :=
  ((supplies.map Supply.bytes).sum, (supplies.map Supply.values).sum, 0)

/-- The cost of the hashes of one mutation. -/
def hashCost (count : Nat) : Cost := (0, 0, count)

/-- Counters within their ceilings. -/
structure Affordable (limits : Limits) (c : ValidationContext) : Prop where
  limits_eq : c.limits = limits
  stringBytes : c.stringBytes ≤ limits.maxTotalStringBytes.toNat
  jsonValues : c.jsonValues ≤ limits.maxValues.toNat
  envelopeHashes : c.envelopeHashes ≤ limits.maxHashesPerEnvelope.toNat

/-- A cost that was spent. -/
def ValidationContext.spend (cost : Cost) (c : ValidationContext) : ValidationContext where
  limits := c.limits
  stringBytes := saturatingAdd c.stringBytes cost.1
  jsonValues := saturatingAdd c.jsonValues cost.2.1
  envelopeHashes := saturatingAdd c.envelopeHashes cost.2.2

theorem saturatingAdd_zero {a : Nat} {ceiling : UInt64} (h : a ≤ ceiling.toNat) :
    saturatingAdd a 0 = a := by
  have hlt := ceiling.toNat_lt
  unfold saturatingAdd
  omega

theorem saturatingAdd_le_of_add {a b b' limit : Nat} (h : saturatingAdd a (b + b') ≤ limit) :
    saturatingAdd a b ≤ limit :=
  (saturatingAdd_le (Nat.le_add_right b b')).trans h

/-- The budget of validation. -/
def budget (limits : Limits) : Budget ValidationContext Cost where
  spend := ValidationContext.spend
  Within := Affordable limits
  spend_zero c h := by
    obtain ⟨cl, cs, cj, ce⟩ := c
    show ValidationContext.mk cl (saturatingAdd cs 0) (saturatingAdd cj 0) (saturatingAdd ce 0) = _
    rw [saturatingAdd_zero h.stringBytes, saturatingAdd_zero h.jsonValues,
      saturatingAdd_zero h.envelopeHashes]
  spend_add a b c := by
    unfold ValidationContext.spend
    simp only [saturatingAdd_add, Prod.fst_add, Prod.snd_add]
  within_of_add a b c h :=
    { limits_eq := h.limits_eq
      stringBytes := saturatingAdd_le_of_add h.stringBytes
      jsonValues := saturatingAdd_le_of_add h.jsonValues
      envelopeHashes := saturatingAdd_le_of_add h.envelopeHashes }

theorem costOf_append (supplies supplies' : List Supply) :
    costOf (supplies ++ supplies') = costOf supplies + costOf supplies' := by
  simp [costOf]

theorem costOf_text (value : String) (supplies : List Supply) :
    costOf (.text value :: supplies) = (len value, 0, 0) + costOf supplies := by
  simp [costOf, Supply.bytes, Supply.values]

theorem hashCost_sum (counts : List Nat) : (counts.map hashCost).sum = hashCost counts.sum := by
  induction counts with
  | nil => rfl
  | cons count counts ih =>
      rw [List.map_cons, List.sum_cons, ih, List.sum_cons]
      rfl

theorem costOf_flatMap {α : Type} (xs : List α) (supplies : α → List Supply) :
    costOf (xs.flatMap supplies) = (xs.map fun x => costOf (supplies x)).sum := by
  induction xs with
  | nil => rfl
  | cons x xs ih => rw [List.flatMap_cons, costOf_append, ih, List.map_cons, List.sum_cons]

section Spending

variable {limits : Limits} {c : ValidationContext}

/-! ### Counters -/

theorem spend_strings (h : Affordable limits c) (added : Nat) : c.spend (added, 0, 0) =
    { c with stringBytes := saturatingAdd c.stringBytes added } := by
  unfold ValidationContext.spend
  rw [saturatingAdd_zero h.jsonValues, saturatingAdd_zero h.envelopeHashes]

theorem spend_values (h : Affordable limits c) (added : Nat) : c.spend (0, added, 0) =
    { c with jsonValues := saturatingAdd c.jsonValues added } := by
  unfold ValidationContext.spend
  rw [saturatingAdd_zero h.stringBytes, saturatingAdd_zero h.envelopeHashes]

theorem spend_hashes (h : Affordable limits c) (added : Nat) : c.spend (hashCost added) =
    { c with envelopeHashes := saturatingAdd c.envelopeHashes added } := by
  unfold ValidationContext.spend hashCost
  rw [saturatingAdd_zero h.stringBytes, saturatingAdd_zero h.jsonValues]

theorem spends_addStringBytes (added : Nat) :
    Spends (budget limits) (fun c => c.addStringBytes added) True (added, 0, 0) := by
  intro c h c'
  show c.addStringBytes added = .ok c' ↔
    True ∧ Affordable limits (c.spend (added, 0, 0)) ∧ c' = c.spend (added, 0, 0)
  rw [spend_strings h, ValidationContext.addStringBytes, bind_eq_ok]
  simp only [rejectIf_eq_ok, pure_eq_ok, Nat.not_lt, h.limits_eq]
  constructor
  · rintro ⟨_, hle, rfl⟩
    exact ⟨trivial, ⟨rfl, hle, h.jsonValues, h.envelopeHashes⟩, rfl⟩
  · rintro ⟨-, hwithin, rfl⟩
    exact ⟨(), hwithin.stringBytes, rfl⟩

theorem spends_jsonValueCount (added : Nat) :
    Spends (budget limits) (fun c => c.jsonValueCount added) True (0, added, 0) := by
  intro c h c'
  show c.jsonValueCount added = .ok c' ↔
    True ∧ Affordable limits (c.spend (0, added, 0)) ∧ c' = c.spend (0, added, 0)
  rw [spend_values h, ValidationContext.jsonValueCount, bind_eq_ok]
  simp only [rejectIf_eq_ok, pure_eq_ok, Nat.not_lt, h.limits_eq]
  constructor
  · rintro ⟨_, hle, rfl⟩
    exact ⟨trivial, ⟨rfl, h.stringBytes, hle, h.envelopeHashes⟩, rfl⟩
  · rintro ⟨-, hwithin, rfl⟩
    exact ⟨(), hwithin.jsonValues, rfl⟩

/-! ### Strings -/

theorem spends_string (value : String) : Spends (budget limits) (fun c => c.string value)
    (len value ≤ limits.maxStringBytes.toNat) (len value, 0, 0) := by
  unfold ValidationContext.string
  apply Spends.cast
  · apply Spends.guard
    · intro c h
      rw [h.limits_eq]
      exact Nat.not_le.symm
    · exact spends_addStringBytes (len value)
  · exact iff_of_eq (and_true _)
  · rfl

theorem spends_identity (field value : String) : Spends (budget limits)
    (fun c => c.identity field value) (Identity limits value) (len value, 0, 0) := by
  unfold ValidationContext.identity
  apply Spends.cast
  · apply Spends.guard
    · intro c _
      exact (not_not (a := value.isEmpty = true)).symm
    · apply Spends.guard
      · intro c h
        rw [h.limits_eq]
        exact Nat.not_le.symm
      · exact spends_addStringBytes (len value)
  · rw [Nat.le_min, String.isEmpty_iff]
    exact ⟨fun h => ⟨h.1, h.2.1.1, h.2.1.2⟩,
      fun h => ⟨h.nonempty, ⟨h.identityBytes, h.stringBytes⟩, trivial⟩⟩
  · rfl

/-! ### InertFits values -/

section

variable {check : ValidationContext → Except ValidationError ValidationContext} {need : Prop}
  {cost : Cost} (h : Spends (budget limits) check need cost)

include h

theorem spends_depth (depth : Nat) : Spends (budget limits)
    (fun c => c.depth depth >>= fun _ => check c) (depth ≤ limits.maxDepth.toNat ∧ need) cost := by
  unfold ValidationContext.depth
  apply Spends.guard
  · intro c hc
    rw [hc.limits_eq]
    exact Nat.not_le.symm
  · exact h

theorem spends_items (field : String) (actual : Nat) (ceiling : Limits → UInt64) :
    Spends (budget limits)
      (fun c => ValidationContext.items field actual (ceiling c.limits).toNat >>= fun _ => check c)
      (actual ≤ (ceiling limits).toNat ∧ need) cost := by
  unfold ValidationContext.items
  apply Spends.guard
  · intro c hc
    rw [hc.limits_eq]
    exact Nat.not_le.symm
  · exact h

/-- What most inert values begin with. -/
theorem spends_enter (depth : Nat) : Spends (budget limits)
    (fun c => c.jsonValueCount 1 >>= fun c => c.depth depth >>= fun _ => check c)
    (depth ≤ limits.maxDepth.toNat ∧ need) ((0, 1, 0) + cost) := by
  apply ((spends_jsonValueCount 1).bind (spends_depth h depth)).cast
  · exact iff_of_eq (true_and _)
  · rfl

end

theorem spends_arrayItems {values : List IrValue} (depth : Nat)
    (hvalues : ∀ value ∈ values, ∀ depth, Spends (budget limits) (fun c => c.value value depth)
      (∀ supply ∈ value.supplies depth, supply.Fits limits) (costOf (value.supplies depth))) :
    Spends (budget limits) (fun c => c.arrayItems values depth)
      (∀ supply ∈ suppliesOfItems (depth + 1) values, supply.Fits limits)
      (costOf (suppliesOfItems (depth + 1) values)) := by
  induction values with
  | nil =>
      apply spends_ok.cast
      · exact ⟨fun _ => List.forall_mem_nil _, fun _ => trivial⟩
      · rfl
  | cons value values ih =>
      obtain ⟨hvalue, hvalues⟩ := List.forall_mem_cons.mp hvalues
      apply ((hvalue (depth + 1)).bind (ih hvalues)).cast
      · exact List.forall_mem_append.symm
      · exact (costOf_append _ _).symm

theorem spends_objectMembers {members : List (String × IrValue)} (depth : Nat)
    (hmembers : ∀ member ∈ members, ∀ depth, Spends (budget limits)
      (fun c => c.value member.2 depth) (∀ supply ∈ member.2.supplies depth, supply.Fits limits)
      (costOf (member.2.supplies depth))) :
    Spends (budget limits) (fun c => c.objectMembers members depth)
      (∀ supply ∈ suppliesOfMembers (depth + 1) members, supply.Fits limits)
      (costOf (suppliesOfMembers (depth + 1) members)) := by
  induction members with
  | nil =>
      apply spends_ok.cast
      · exact ⟨fun _ => List.forall_mem_nil _, fun _ => trivial⟩
      · rfl
  | cons member members ih =>
      obtain ⟨hmember, hmembers⟩ := List.forall_mem_cons.mp hmembers
      apply ((spends_string member.1).bind ((hmember (depth + 1)).bind (ih hmembers))).cast
      · rw [suppliesOfMembers, List.forall_mem_cons, List.forall_mem_append]
        rfl
      · show _ = costOf ([.text member.1] ++ (_ ++ _))
        rw [costOf_append, costOf_append]
        rfl

/-- An inert value spends its supplies. -/
theorem spends_value (value : IrValue) : ∀ depth, Spends (budget limits)
    (fun c => c.value value depth) (∀ supply ∈ value.supplies depth, supply.Fits limits)
    (costOf (value.supplies depth)) := by
  induction value using IrValue.inductionOn with
  | null =>
      intro depth
      apply (spends_enter spends_ok depth).cast
      · simp [IrValue.supplies, Supply.Fits]
      · rfl
  | bool b =>
      intro depth
      apply (spends_enter spends_ok depth).cast
      · simp [IrValue.supplies, Supply.Fits]
      · rfl
  | string s =>
      intro depth
      apply (spends_enter (spends_string s) depth).cast
      · simp [IrValue.supplies, Supply.Fits]
      · simp [costOf, IrValue.supplies, Supply.bytes, Supply.values]
  | integer n =>
      intro depth
      apply (spends_enter (Spends.guard (fun c _ => Nat.not_le.symm) spends_ok) depth).cast
      · simp [IrValue.supplies, Supply.Fits]
      · rfl
  | array values ih =>
      intro depth
      have hitems := spends_items (spends_arrayItems depth ih) "array_items" values.length
        Limits.maxArrayItems
      apply (spends_enter hitems depth).cast
      · rw [IrValue.supplies, List.forall_mem_cons, Supply.Fits, ← and_assoc]
        simp
      · exact (costOf_append [.node (.array values) depth] _).symm
  | object members ih =>
      intro depth
      have hmembers := spends_items (spends_depth (spends_objectMembers depth ih) depth)
        "object_members" members.length Limits.maxObjectMembers
      apply ((spends_jsonValueCount 1).bind hmembers).cast
      · rw [IrValue.supplies, List.forall_mem_cons, Supply.Fits]
        simp only [IrValue.object.injEq, forall_eq', reduceCtorEq, false_imp_iff, forall_const,
          and_true, true_and]
        rw [← and_assoc, and_comm (a := members.length ≤ limits.maxObjectMembers.toNat)]
      · exact (costOf_append [.node (.object members) depth] _).symm

theorem spends_object (members : IrObject) : Spends (budget limits) (fun c => c.object members 1)
    (InertFits limits members) (costOf (objectSupplies members)) := by
  have hvalue := @spends_value limits (.object members) 1
  unfold ValidationContext.value at hvalue
  exact hvalue

/-! ### Hashes -/

theorem hash_eq_ok (h : Affordable limits c) {hash : OpaqueHash} :
    c.hash hash = .ok () ↔ hash.Valid limits := by
  cases hash with
  | u64 value => exact ⟨fun _ => trivial, fun _ => rfl⟩
  | bytes value =>
      show rejectIf _ _ = _ ↔ _
      rw [rejectIf_eq_ok, h.limits_eq, not_or, Nat.not_lt]
      rfl

theorem forM_hash_eq_ok (h : Affordable limits c) {hashes : List OpaqueHash} :
    hashes.forM c.hash = .ok () ↔ ∀ hash ∈ hashes, hash.Valid limits := by
  rw [forM_eq_ok]
  exact forall₂_congr fun hash _ => hash_eq_ok h

theorem spends_hashes (operation : String) (hashes : List OpaqueHash) : Spends (budget limits)
    (fun c => c.hashes operation hashes) (ValidHashes limits hashes) (hashCost hashes.length) := by
  -- the last part counts the hashes and looks at each of them
  have hcount : Spends (budget limits) (fun c => do
      let c := { c with envelopeHashes := saturatingAdd c.envelopeHashes hashes.length }
      rejectIf (c.envelopeHashes > c.limits.maxHashesPerEnvelope.toNat)
        (ValidationError.tooManyEnvelopeHashes c.limits.maxHashesPerEnvelope.toNat c.envelopeHashes)
      hashes.forM c.hash
      return c) (∀ hash ∈ hashes, hash.Valid limits) (hashCost hashes.length) := by
    intro c h c'
    have hspend : (budget limits).spend (hashCost hashes.length) c =
        { c with envelopeHashes := saturatingAdd c.envelopeHashes hashes.length } :=
      spend_hashes h hashes.length
    rw [hspend]
    simp only [bind_eq_ok, rejectIf_eq_ok, pure_eq_ok, Nat.not_lt]
    constructor
    · rintro ⟨_, hle, _, hforM, rfl⟩
      rw [h.limits_eq] at hle
      have hwithin : Affordable limits
          { c with envelopeHashes := saturatingAdd c.envelopeHashes hashes.length } :=
        ⟨h.limits_eq, h.stringBytes, h.jsonValues, hle⟩
      exact ⟨(forM_hash_eq_ok hwithin).mp hforM, hwithin, rfl⟩
    · rintro ⟨hvalid, hwithin, rfl⟩
      refine ⟨(), ?_, (), (forM_hash_eq_ok hwithin).mpr hvalid, rfl⟩
      rw [h.limits_eq]
      exact hwithin.envelopeHashes
  unfold ValidationContext.hashes
  apply Spends.cast
  · apply Spends.guard
    · intro c _
      exact (not_not (a := hashes.isEmpty = true)).symm
    · exact spends_items hcount "hashes" hashes.length Limits.maxHashesPerMutation
  · rw [List.isEmpty_iff]
    exact ⟨fun h => ⟨h.1, h.2.1, h.2.2⟩, fun h => ⟨h.nonempty, h.count, h.each⟩⟩
  · rfl

/-! ### Mutations -/

theorem lineage_eq_ok (h : Affordable limits c) {lineage : Option Lineage} :
    c.lineage lineage = .ok () ↔ ∀ value ∈ lineage, value.Valid limits := by
  cases lineage with
  | none => simp [ValidationContext.lineage]
  | some value =>
      cases value with
      | chain parentOfFirst =>
          show c.hash parentOfFirst = _ ↔ _
          rw [hash_eq_ok h]
          simp [Lineage.Valid]
      | opaque_ => simp [ValidationContext.lineage, Lineage.Valid]

theorem spends_medium (medium : StorageMedium) : Spends (budget limits) (fun c => c.medium medium)
    (medium.Valid limits) (costOf medium.supplies) := by
  cases medium with
  | named value => exact spends_identity "medium" value
  | unspecified => exact spends_ok

theorem tokenCountMatches_eq_ok {values : List UInt32} {tokenCount : Option UInt64} :
    ValidationContext.tokenCountMatches values tokenCount = .ok () ↔
      ∀ declared ∈ tokenCount, declared.toNat = values.length := by
  cases tokenCount with
  | none => simp [ValidationContext.tokenCountMatches]
  | some declared => simp [ValidationContext.tokenCountMatches]

theorem spends_tokenEvidence (tokenCount : Option UInt64) (evidence : Option TokenEvidence) :
    Spends (budget limits) (fun c => c.tokenEvidence tokenCount evidence)
      (∀ value ∈ evidence, value.Valid limits tokenCount) (costOf (evidenceSupplies evidence)) := by
  cases evidence with
  | none =>
      apply spends_ok.cast
      · simp
      · rfl
  | some value =>
      cases value with
      | keyedDigest algorithm keyId digest =>
          apply (spends_identity "key_id" keyId).cast
          · simp [TokenEvidence.Valid]
          · rfl
      | unkeyedDigest algorithm digest =>
          apply spends_ok.cast
          · simp [TokenEvidence.Valid]
          · rfl
      | tokenIds values =>
          apply (spends_items (Spends.after (fun c _ => tokenCountMatches_eq_ok) spends_ok)
            "token_ids" values.length Limits.maxTokenIdsPerMutation).cast
          · simp [TokenEvidence.Valid]
          · rfl

theorem tokenCount_eq_ok (h : Affordable limits c) {tokenCount : Option UInt64} :
    c.tokenCount tokenCount = .ok () ↔
      ∀ count ∈ tokenCount, count.toNat ≤ maxSafeJsonInteger ∧ count ≤ limits.maxTokenCount := by
  cases tokenCount with
  | none => simp [ValidationContext.tokenCount]
  | some count => simp [ValidationContext.tokenCount, bind_eq_ok, h.limits_eq]

theorem blockSize_eq_ok (h : Affordable limits c) {blockSize : Option UInt32} :
    c.blockSize blockSize = .ok () ↔ ∀ size ∈ blockSize, size ≠ 0 ∧ size ≤ limits.maxBlockSize := by
  cases blockSize with
  | none => simp [ValidationContext.blockSize]
  | some size => simp [ValidationContext.blockSize, h.limits_eq]

theorem spends_blockMetadata (hashes : List OpaqueHash) (objects : Option (List IrObject)) :
    Spends (budget limits) (fun c => c.blockMetadata hashes objects)
      (∀ values ∈ objects, values.length = hashes.length ∧ ∀ value ∈ values, InertFits limits value)
      (costOf ((objects.getD []).flatMap objectSupplies)) := by
  cases objects with
  | none =>
      apply spends_ok.cast
      · simp
      · rfl
  | some objects =>
      apply (Spends.guard (fun c _ => (not_not (a := objects.length = hashes.length)).symm.not)
        (spends_foldlM fun object _ => spends_object object)).cast
      · simp
      · exact (costOf_flatMap _ _).symm

theorem spends_validateMutation (mutation : Mutation) : Spends (budget limits)
    (fun c => c.validateMutation mutation) (mutation.Valid limits)
    (costOf mutation.supplies + hashCost mutation.hashCount) := by
  cases mutation with
  | storeRun run =>
      have hchecks := (spends_hashes "store_run" run.hashes).bind <|
        Spends.after (fun c hc => @lineage_eq_ok limits c hc run.lineage) <|
        Spends.after (fun c hc => @tokenCount_eq_ok limits c hc run.tokenCount) <|
        (spends_tokenEvidence run.tokenCount run.tokenEvidence).bind <|
        Spends.after (fun c hc => @blockSize_eq_ok limits c hc run.blockSize) <|
        (spends_medium run.medium).bind <|
        (spends_blockMetadata run.hashes run.blockMetadata).bind (spends_object run.metadata)
      apply hchecks.cast
      · exact ⟨fun ⟨hashes, lineage, tokenCount, tokenEvidence, blockSize, medium, blockMetadata,
          metadata⟩ => ⟨hashes, lineage, tokenCount, tokenEvidence, blockSize, medium,
          blockMetadata, metadata⟩, fun h => ⟨h.hashes, h.lineage, h.tokenCount, h.tokenEvidence,
          h.blockSize, h.medium, h.blockMetadata, h.metadata⟩⟩
      · rw [Mutation.supplies, costOf_append, costOf_append, costOf_append, Mutation.hashCount]
        abel
  | remove hashes group medium metadata =>
      apply ((spends_hashes "remove" hashes).bind
        ((spends_medium medium).bind (spends_object metadata))).cast
      · rfl
      · rw [Mutation.supplies, costOf_append, Mutation.hashCount]
        abel
  | clear metadata =>
      apply (spends_object metadata).cast
      · rfl
      · exact (add_zero _).symm

/-! ### Records -/

theorem spends_deliveryRef (delivery : DeliveryRef) : Spends (budget limits)
    (fun c => c.deliveryRef delivery) (Identity limits delivery.envelopeId)
    (costOf [.text delivery.envelopeId]) :=
  spends_identity "envelope_id" delivery.envelopeId

theorem spends_validateAction (action : FaultAction) : Spends (budget limits)
    (fun c => c.validateAction action) (action.Meets limits) (costOf action.supplies) := by
  cases action with
  | drop target => exact spends_deliveryRef target
  | duplicate target copies =>
      have hcopies : ∀ c, Affordable limits c →
          (copies = 0 ∨ copies > c.limits.maxDuplicateCopies ↔
            ¬ (copies ≠ 0 ∧ copies ≤ limits.maxDuplicateCopies)) := by
        intro c hc
        rw [hc.limits_eq, not_and_or, not_not, UInt16.not_le]
      apply ((spends_deliveryRef target).bind (Spends.guard hcopies spends_ok)).cast
      · simp [FaultAction.Meets]
      · rfl
  | moveBefore target anchor =>
      apply ((spends_deliveryRef target).bind ((spends_deliveryRef anchor).bind
        (Spends.guard (fun c _ => (not_not (a := target = anchor)).symm) spends_ok))).cast
      · simp [FaultAction.Meets]
      · rfl

theorem spends_mutations (mutations : List Mutation) : Spends (budget limits)
    (fun c => mutations.foldlM ValidationContext.validateMutation c)
    (∀ mutation ∈ mutations, mutation.Valid limits)
    (costOf (mutations.flatMap Mutation.supplies) +
      hashCost (mutations.map Mutation.hashCount).sum) := by
  apply (spends_foldlM fun mutation _ => spends_validateMutation mutation).cast
  · rfl
  · rw [List.sum_map_add, costOf_flatMap, ← hashCost_sum, List.map_map]
    rfl

/-- Validation spends the supplies and the hashes of the record. -/
theorem spends_validateRecord (record : Record) : Spends (budget limits)
    (fun c => c.validateRecord record) (record.Meets limits)
    (costOf record.supplies + hashCost record.hashCount) := by
  cases record with
  | traceHeader header =>
      have hchecks : Spends (budget limits) _ _ _ :=
        (spends_identity "trace_id" header.traceId).bind <|
        (spends_identity "created_by" header.createdBy).bind (spends_object header.extensions)
      apply (@Spends.guard ValidationError _ _ _ (budget limits) _ _ _ _ _ _
        (fun _ => .unsupportedFormat) (fun c _ => Iff.rfl) hchecks).cast
      · rfl
      · rw [Record.supplies, costOf_text, costOf_text]
        rfl
  | stream s =>
      have hworkers := spends_foldlM fun worker (_ : worker ∈ s.workerMetadata) =>
        @spends_identity limits "worker_metadata" worker
      have hchecks : Spends (budget limits) _ _ _ :=
        (spends_identity "stream_id" s.streamId).bind <|
        (spends_identity "engine" s.engine).bind <|
        (spends_identity "engine_version" s.engineVersion).bind <|
        (spends_identity "engine_instance" s.engineInstance).bind <|
        (spends_identity "publisher" s.publisher).bind <|
        (spends_identity "epoch" s.epoch).bind <|
        spends_items (hworkers.bind (spends_object s.extensions)) "worker_metadata"
          s.workerMetadata.length Limits.maxWorkerMetadata
      apply hchecks.cast
      · rfl
      · rw [Record.supplies, costOf_text, costOf_text, costOf_text, costOf_text, costOf_text,
          costOf_text, costOf_append, costOf_flatMap]
        rfl
  | envelope e =>
      have hchecks : Spends (budget limits) _ _ _ :=
        (spends_identity "envelope_id" e.envelopeId).bind <|
        (spends_identity "stream_id" e.streamId).bind <|
        spends_items ((spends_mutations e.mutations).bind (spends_object e.extensions)) "mutations"
          e.mutations.length Limits.maxMutationsPerEnvelope
      apply hchecks.cast
      · rfl
      · rw [Record.supplies, costOf_text, costOf_text, costOf_append, Record.hashCount]
        abel
  | faultSchedule schedule =>
      have hactions := spends_foldlM fun action (_ : action ∈ schedule.actions) =>
        @spends_validateAction limits action
      have hchecks : Spends (budget limits) _ _ _ :=
        (spends_identity "schedule_id" schedule.scheduleId).bind <|
        spends_items (hactions.bind (spends_object schedule.extensions)) "fault_actions"
          schedule.actions.length Limits.maxFaultActions
      apply hchecks.cast
      · rfl
      · rw [Record.supplies, costOf_text, costOf_append, costOf_flatMap]
        rfl

end Spending

/-! ### Valid records -/

theorem affords_iff {ceiling : UInt64} {total : Nat} :
    Affords ceiling total ↔ saturatingAdd 0 total ≤ ceiling.toNat := by
  have hlt := ceiling.toNat_lt
  unfold Affords saturatingAdd
  omega

theorem Record.validate_eq_ok {record : Record} {limits : Limits} :
    record.validate limits = .ok () ↔ record.Valid limits := by
  have hnew : Affordable limits (ValidationContext.new limits) :=
    ⟨rfl, Nat.zero_le _, Nat.zero_le _, Nat.zero_le _⟩
  have hspends := @spends_validateRecord limits record (ValidationContext.new limits) hnew
  have hcost : costOf record.supplies + hashCost record.hashCount =
      ((record.supplies.map Supply.bytes).sum, (record.supplies.map Supply.values).sum,
        record.hashCount) := by
    simp [costOf, hashCost]
  rw [hcost] at hspends
  have hvalidate : record.validate limits = .ok () ↔
      ∃ c, (ValidationContext.new limits).validateRecord record = .ok c := by
    unfold Record.validate
    rw [bind_eq_ok]
    exact ⟨fun ⟨c, hc, _⟩ => ⟨c, hc⟩, fun ⟨c, hc⟩ => ⟨c, hc, rfl⟩⟩
  rw [hvalidate]
  constructor
  · rintro ⟨c, hc⟩
    obtain ⟨hmeets, hwithin, -⟩ := (hspends c).mp hc
    exact ⟨hmeets, affords_iff.mpr hwithin.stringBytes, affords_iff.mpr hwithin.jsonValues,
      affords_iff.mpr hwithin.envelopeHashes⟩
  · intro h
    have hwithin : Affordable limits ((ValidationContext.new limits).spend
        ((record.supplies.map Supply.bytes).sum, (record.supplies.map Supply.values).sum,
          record.hashCount)) :=
      ⟨rfl, affords_iff.mp h.stringBytes, affords_iff.mp h.jsonValues,
        affords_iff.mp h.envelopeHashes⟩
    exact ⟨_, (hspends _).mpr ⟨h.meets, hwithin, rfl⟩⟩

/-- Validation accepts exactly the valid records. -/
theorem Record.validate_eq_ok_iff (record : Record) (limits : Limits) :
    record.validate limits = .ok () ↔ record.Valid limits :=
  Record.validate_eq_ok

end KvCrucible
