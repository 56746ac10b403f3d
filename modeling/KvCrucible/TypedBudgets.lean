/-
KvCrucible/TypedBudgets.lean

The budgets of the codec dominate those of record validation.

Validation walks a typed record and counts its strings, keys and inert values
against the same ceilings that the decoder has counted the raw tree against.
`supplies` lists what validation will count, in its order; `Room` says that
what is left of it fits under the ceilings.  Every function of validation uses
up its own supply and fails for other reasons only (`safe_validateRecord`).

Of the conversion into a record nothing is used but that it invents nothing:
each string, integer and inert value of the record is drawn from one of its own
in the raw tree, at no smaller depth (`Record.DrawnFrom`).
-/
import KvCrucible.Basis.Safe
import KvCrucible.Line

namespace KvCrucible

open Basis

/-- The errors of validation that the codec has ruled out. -/
def JsonBudget : ValidationError → Prop
  | .jsonLimitExceeded _ _ _ => True
  | .unsafeJsonInteger => True
  | .tooManyItems field _ _ => field = "object_members" ∨ field = "array_items"
  | _ => False

/-! ### What validation counts -/

/-- A string or key, or an inert value with its depth. -/
inductive Supply where
  | text (value : String)
  | node (value : IrValue) (depth : Nat)

/-- The string bytes of a supply. -/
def Supply.bytes : Supply → Nat
  | .text value => len value
  | .node _ _ => 0

/-- The inert values of a supply. -/
def Supply.values : Supply → Nat
  | .text _ => 0
  | .node _ _ => 1

mutual

/-- What `value` counts. -/
def IrValue.supplies (depth : Nat) : IrValue → List Supply
  | .string value => [.node (.string value) depth, .text value]
  | .array values => .node (.array values) depth :: suppliesOfItems (depth + 1) values
  | .object members => .node (.object members) depth :: suppliesOfMembers (depth + 1) members
  | .null => [.node .null depth]
  | .bool value => [.node (.bool value) depth]
  | .integer value => [.node (.integer value) depth]

/-- What the loop over array items counts. -/
def suppliesOfItems (depth : Nat) : List IrValue → List Supply
  | [] => []
  | child :: rest => child.supplies depth ++ suppliesOfItems depth rest

/-- What the loop over members counts. -/
def suppliesOfMembers (depth : Nat) : List (String × IrValue) → List Supply
  | [] => []
  | member :: rest => .text member.1 :: (member.2.supplies depth ++ suppliesOfMembers depth rest)

end

/-- What `object` counts at depth one. -/
def objectSupplies (members : IrObject) : List Supply := (IrValue.object members).supplies 1

/-- What `medium` counts. -/
def StorageMedium.supplies : StorageMedium → List Supply
  | .named value => [.text value]
  | .unspecified => []

/-- What `token_evidence` counts. -/
def evidenceSupplies : Option TokenEvidence → List Supply
  | some (.keyedDigest _ keyId _) => [.text keyId]
  | _ => []

/-- What `validate_mutation` counts. -/
def Mutation.supplies : Mutation → List Supply
  | .storeRun run => evidenceSupplies run.tokenEvidence ++ run.medium.supplies ++
      (run.blockMetadata.getD []).flatMap objectSupplies ++ objectSupplies run.metadata
  | .remove _ _ medium metadata => medium.supplies ++ objectSupplies metadata
  | .clear metadata => objectSupplies metadata

/-- What one action of `validate_schedule` counts. -/
def FaultAction.supplies : FaultAction → List Supply
  | .drop target => [.text target.envelopeId]
  | .duplicate target _ => [.text target.envelopeId]
  | .moveBefore target anchor => [.text target.envelopeId, .text anchor.envelopeId]

/-- What `Record::validate` counts. -/
def Record.supplies : Record → List Supply
  | .traceHeader header =>
      .text header.traceId :: .text header.createdBy :: objectSupplies header.extensions
  | .stream s => .text s.streamId :: .text s.engine :: .text s.engineVersion ::
      .text s.engineInstance :: .text s.publisher :: .text s.epoch ::
      (s.workerMetadata.flatMap (fun worker => [.text worker]) ++ objectSupplies s.extensions)
  | .envelope e => .text e.envelopeId :: .text e.streamId ::
      (e.mutations.flatMap Mutation.supplies ++ objectSupplies e.extensions)
  | .faultSchedule schedule => .text schedule.scheduleId ::
      (schedule.actions.flatMap FaultAction.supplies ++ objectSupplies schedule.extensions)

/-- The declared token count of a mutation. -/
def Mutation.tokenCounts : Mutation → List UInt64
  | .storeRun run => run.tokenCount.toList
  | _ => []

/-- The declared token counts of a record. -/
def Record.tokenCounts : Record → List UInt64
  | .envelope e => e.mutations.flatMap Mutation.tokenCounts
  | _ => []

/-! ### Room under the ceilings -/

/-- What the ceilings say about one supply. -/
def Supply.Fits (limits : Limits) : Supply → Prop
  | .text value => len value ≤ limits.maxStringBytes.toNat
  | .node value depth => depth ≤ limits.maxDepth.toNat ∧
      (∀ members, value = .object members → members.length ≤ limits.maxObjectMembers.toNat) ∧
      (∀ values, value = .array values → values.length ≤ limits.maxArrayItems.toNat) ∧
      (∀ number, value = .integer number → number.toInt.natAbs ≤ maxSafeJsonInteger)

/-- There is room for what is left to be counted. -/
structure Room (limits : Limits) (c : ValidationContext) (supplies : List Supply) : Prop where
  limits_eq : c.limits = limits
  strings : saturatingAdd c.stringBytes (supplies.map Supply.bytes).sum ≤
    limits.maxTotalStringBytes.toNat
  values : saturatingAdd c.jsonValues (supplies.map Supply.values).sum ≤ limits.maxValues.toNat
  fits : ∀ supply ∈ supplies, supply.Fits limits

section Validation

variable {limits : Limits} {c : ValidationContext} {rest : List Supply}

/-- Counting the bytes of a string. -/
theorem safe_addStringBytes {value : String} (h : Room limits c (.text value :: rest)) :
    Safe JsonBudget (fun c => Room limits c rest) (c.addStringBytes (len value)) := by
  have hstrings := h.strings
  rw [List.map_cons, List.sum_cons, Supply.bytes, ← saturatingAdd_add] at hstrings
  have hle : saturatingAdd c.stringBytes (len value) ≤ c.limits.maxTotalStringBytes.toNat := by
    rw [h.limits_eq]
    exact Nat.le_trans (by unfold saturatingAdd; omega) hstrings
  unfold ValidationContext.addStringBytes
  refine (safe_pass (Nat.not_lt.mpr hle)).bind fun _ _ => safe_ok ?_
  exact
    { limits_eq := h.limits_eq
      strings := hstrings
      values := by simpa [Supply.values] using h.values
      fits := fun supply hmem => h.fits supply (List.mem_cons_of_mem _ hmem) }

/-- Counting an inert value. -/
theorem safe_jsonValueCount {value : IrValue} {depth : Nat}
    (h : Room limits c (.node value depth :: rest)) :
    Safe JsonBudget (fun c => Room limits c rest) (c.jsonValueCount 1) := by
  have hvalues := h.values
  rw [List.map_cons, List.sum_cons, Supply.values, ← saturatingAdd_add] at hvalues
  have hle : saturatingAdd c.jsonValues 1 ≤ c.limits.maxValues.toNat := by
    rw [h.limits_eq]
    exact Nat.le_trans (by unfold saturatingAdd; omega) hvalues
  unfold ValidationContext.jsonValueCount
  refine (safe_pass (Nat.not_lt.mpr hle)).bind fun _ _ => safe_ok ?_
  exact
    { limits_eq := h.limits_eq
      strings := by simpa [Supply.bytes] using h.strings
      values := hvalues
      fits := fun supply hmem => h.fits supply (List.mem_cons_of_mem _ hmem) }

theorem safe_depth {depth : Nat} (hlimits : c.limits = limits)
    (hdepth : depth ≤ limits.maxDepth.toNat) :
    Safe JsonBudget (fun _ => True) (c.depth depth) := by
  rw [← hlimits] at hdepth
  unfold ValidationContext.depth
  exact safe_pass (Nat.not_lt.mpr hdepth)

/-- A number of items within its ceiling. -/
theorem safe_items_le {field : String} {actual limit : Nat} (h : actual ≤ limit) :
    Safe JsonBudget (fun _ => True) (ValidationContext.items field actual limit) := by
  unfold ValidationContext.items
  exact safe_pass (Nat.not_lt.mpr h)

/-- A number of items that the codec does not count. -/
theorem safe_items {field : String} {actual limit : Nat} (hmembers : field ≠ "object_members")
    (hitems : field ≠ "array_items") :
    Safe JsonBudget (fun _ => True) (ValidationContext.items field actual limit) := by
  unfold ValidationContext.items
  have hother : ¬ JsonBudget (.tooManyItems field limit actual) := not_or.mpr ⟨hmembers, hitems⟩
  exact Safe.mono (safe_rejectIf fun _ => hother) fun _ _ => trivial

theorem safe_string {value : String} (h : Room limits c (.text value :: rest)) :
    Safe JsonBudget (fun c => Room limits c rest) (c.string value) := by
  have hle : len value ≤ c.limits.maxStringBytes.toNat := by
    rw [h.limits_eq]
    exact h.fits _ List.mem_cons_self
  unfold ValidationContext.string
  exact (safe_pass (Nat.not_lt.mpr hle)).bind fun _ _ => safe_addStringBytes h

theorem safe_identity {field value : String} (h : Room limits c (.text value :: rest)) :
    Safe JsonBudget (fun c => Room limits c rest) (c.identity field value) := by
  unfold ValidationContext.identity
  refine (safe_rejectIf fun _ => id).bind fun _ _ => ?_
  exact (safe_rejectIf fun _ => id).bind fun _ _ => safe_addStringBytes h

/-- A loop of validation uses up the supplies of its elements. -/
theorem safe_each {α : Type} {as : List α} {xs : α → List Supply}
    {f : ValidationContext → α → Except ValidationError ValidationContext}
    (h : Room limits c (as.flatMap xs ++ rest)) (hstep : ∀ a ∈ as, ∀ c rest,
      Room limits c (xs a ++ rest) → Safe JsonBudget (fun c => Room limits c rest) (f c a)) :
    Safe JsonBudget (fun c => Room limits c rest) (as.foldlM f c) :=
  safe_foldlM h hstep

/-! ### Inert values -/

/-- What is left after a node is counted, together with what its ceilings say. -/
theorem Room.node {value : IrValue} {depth : Nat} (h : Room limits c (.node value depth :: rest)) :
    (Supply.node value depth).Fits limits := h.fits _ List.mem_cons_self

/-- A value without children. -/
theorem safe_leaf {value : IrValue} {depth : Nat} (h : Room limits c (.node value depth :: rest)) :
    Safe JsonBudget (fun c => Room limits c rest) (do
      let c ← c.jsonValueCount 1
      c.depth depth
      return c) := by
  refine (safe_jsonValueCount h).bind fun c' h' => ?_
  exact (safe_depth h'.limits_eq h.node.1).bind fun _ _ => h'

theorem safe_arrayItems {values : List IrValue} {depth : Nat}
    (hvalues : ∀ child ∈ values, ∀ {c : ValidationContext} {depth : Nat} {rest : List Supply},
      Room limits c (child.supplies depth ++ rest) →
        Safe JsonBudget (fun c => Room limits c rest) (c.value child depth)) :
    ∀ {c : ValidationContext}, Room limits c (suppliesOfItems (depth + 1) values ++ rest) →
      Safe JsonBudget (fun c => Room limits c rest) (c.arrayItems values depth) := by
  induction values with
  | nil =>
      intro c h
      rw [ValidationContext.arrayItems]
      exact h
  | cons child values ih =>
      intro c h
      obtain ⟨hchild, hvalues⟩ := List.forall_mem_cons.mp hvalues
      rw [suppliesOfItems, List.append_assoc] at h
      rw [ValidationContext.arrayItems]
      exact (hchild h).bind fun c' h' => ih hvalues h'

theorem safe_objectMembers {members : List (String × IrValue)} {depth : Nat}
    (hmembers : ∀ member ∈ members, ∀ {c : ValidationContext} {depth : Nat} {rest : List Supply},
      Room limits c (member.2.supplies depth ++ rest) →
        Safe JsonBudget (fun c => Room limits c rest) (c.value member.2 depth)) :
    ∀ {c : ValidationContext}, Room limits c (suppliesOfMembers (depth + 1) members ++ rest) →
      Safe JsonBudget (fun c => Room limits c rest) (c.objectMembers members depth) := by
  induction members with
  | nil =>
      intro c h
      rw [ValidationContext.objectMembers]
      exact h
  | cons member members ih =>
      intro c h
      obtain ⟨key, child⟩ := member
      obtain ⟨hmember, hmembers⟩ := List.forall_mem_cons.mp hmembers
      rw [suppliesOfMembers, List.cons_append, List.append_assoc] at h
      rw [ValidationContext.objectMembers]
      refine (safe_string h).bind fun c' h' => ?_
      exact (hmember h').bind fun c'' h'' => ih hmembers h''

/-- A value uses up its supply. -/
theorem safe_value (value : IrValue) : ∀ {c : ValidationContext} {depth : Nat} {rest : List Supply},
    Room limits c (value.supplies depth ++ rest) →
      Safe JsonBudget (fun c => Room limits c rest) (c.value value depth) := by
  induction value using IrValue.inductionOn with
  | null =>
      intro c depth rest h
      rw [ValidationContext.value]
      exact safe_leaf h
  | bool b =>
      intro c depth rest h
      rw [ValidationContext.value]
      exact safe_leaf h
  | integer number =>
      intro c depth rest h
      rw [ValidationContext.value]
      refine (safe_jsonValueCount h).bind fun c' h' => ?_
      refine (safe_depth h'.limits_eq h.node.1).bind fun _ _ => ?_
      exact (safe_pass (Nat.not_lt.mpr (h.node.2.2.2 number rfl))).bind fun _ _ => safe_ok h'
  | string s =>
      intro c depth rest h
      rw [ValidationContext.value]
      refine (safe_jsonValueCount h).bind fun c' h' => ?_
      exact (safe_depth h'.limits_eq h.node.1).bind fun _ _ => safe_string h'
  | array values ih =>
      intro c depth rest h
      rw [IrValue.supplies, List.cons_append] at h
      rw [ValidationContext.value]
      refine (safe_jsonValueCount h).bind fun c' h' => ?_
      refine (safe_depth h'.limits_eq h.node.1).bind fun _ _ => ?_
      have hle := h.node.2.2.1 values rfl
      rw [← h'.limits_eq] at hle
      exact (safe_items_le hle).bind fun _ _ => safe_arrayItems ih h'
  | object members ih =>
      intro c depth rest h
      rw [IrValue.supplies, List.cons_append] at h
      rw [ValidationContext.value]
      refine (safe_jsonValueCount h).bind fun c' h' => ?_
      have hle := h.node.2.1 members rfl
      rw [← h'.limits_eq] at hle
      refine (safe_items_le hle).bind fun _ _ => ?_
      exact (safe_depth h'.limits_eq h.node.1).bind fun _ _ => safe_objectMembers ih h'

theorem safe_object {members : IrObject} (h : Room limits c (objectSupplies members ++ rest)) :
    Safe JsonBudget (fun c => Room limits c rest) (c.object members 1) := by
  have heq : c.object members 1 = c.value (.object members) 1 := by
    rw [ValidationContext.value]
    rfl
  rw [heq]
  exact safe_value _ h

/-! ### Mutations -/

theorem safe_hash (hash : OpaqueHash) : Safe JsonBudget (fun _ => True) (c.hash hash) := by
  cases hash with
  | u64 value => exact trivial
  | bytes value => exact Safe.mono (safe_rejectIf fun _ => id) fun _ _ => trivial

theorem safe_hashes {operation : String} {hashes : List OpaqueHash} (h : Room limits c rest) :
    Safe JsonBudget (fun c => Room limits c rest) (c.hashes operation hashes) := by
  unfold ValidationContext.hashes
  refine Safe.bind (safe_rejectIf fun _ => id) fun _ _ => ?_
  refine (safe_items (by decide) (by decide)).bind fun _ _ => ?_
  refine Safe.bind (safe_rejectIf fun _ => id) fun _ _ => ?_
  refine (safe_forM fun hash _ => safe_hash hash).bind fun _ _ => safe_ok ?_
  exact ⟨h.limits_eq, h.strings, h.values, h.fits⟩

theorem safe_lineage (lineage : Option Lineage) :
    Safe JsonBudget (fun _ => True) (c.lineage lineage) := by
  rcases lineage with _ | _ | _
  · exact trivial
  · exact safe_hash _
  · exact trivial

theorem safe_tokenCount {tokenCount : Option UInt64}
    (h : ∀ count ∈ tokenCount.toList, count.toNat ≤ maxSafeJsonInteger) :
    Safe JsonBudget (fun _ => True) (c.tokenCount tokenCount) := by
  cases tokenCount with
  | none => exact trivial
  | some count =>
      have hsafe := h count (List.mem_singleton_self count)
      refine (safe_pass (Nat.not_lt.mpr hsafe)).bind fun _ _ => ?_
      exact Safe.mono (safe_rejectIf fun _ => id) fun _ _ => trivial

theorem safe_blockSize (blockSize : Option UInt32) :
    Safe JsonBudget (fun _ => True) (c.blockSize blockSize) := by
  cases blockSize with
  | none => exact trivial
  | some size => exact Safe.mono (safe_rejectIf fun _ => id) fun _ _ => trivial

theorem safe_tokenCountMatches {values : List UInt32} (tokenCount : Option UInt64) :
    Safe JsonBudget (fun _ => True) (ValidationContext.tokenCountMatches values tokenCount) := by
  cases tokenCount with
  | none => exact trivial
  | some declared => exact Safe.mono (safe_rejectIf fun _ => id) fun _ _ => trivial

theorem safe_tokenEvidence {tokenCount : Option UInt64} {evidence : Option TokenEvidence}
    (h : Room limits c (evidenceSupplies evidence ++ rest)) :
    Safe JsonBudget (fun c => Room limits c rest) (c.tokenEvidence tokenCount evidence) := by
  rcases evidence with _ | _ | _ | _
  · exact h
  · exact safe_identity h
  · exact h
  · refine (safe_items (by decide) (by decide)).bind fun _ _ => ?_
    exact (safe_tokenCountMatches tokenCount).bind fun _ _ => safe_ok h

theorem safe_medium {medium : StorageMedium} (h : Room limits c (medium.supplies ++ rest)) :
    Safe JsonBudget (fun c => Room limits c rest) (c.medium medium) := by
  cases medium with
  | named value => exact safe_identity h
  | unspecified => exact h

theorem safe_blockMetadata {hashes : List OpaqueHash} {objects : Option (List IrObject)}
    (h : Room limits c ((objects.getD []).flatMap objectSupplies ++ rest)) :
    Safe JsonBudget (fun c => Room limits c rest) (c.blockMetadata hashes objects) := by
  cases objects with
  | none => exact h
  | some objects =>
      refine Safe.bind (safe_rejectIf fun _ => id) fun _ _ => ?_
      exact safe_each h fun object _ c rest h => safe_object h

/-- A mutation uses up its supply. -/
theorem safe_validateMutation {mutation : Mutation}
    (hcounts : ∀ count ∈ mutation.tokenCounts, count.toNat ≤ maxSafeJsonInteger)
    (h : Room limits c (mutation.supplies ++ rest)) :
    Safe JsonBudget (fun c => Room limits c rest) (c.validateMutation mutation) := by
  cases mutation with
  | storeRun run =>
      rw [Mutation.supplies, List.append_assoc, List.append_assoc, List.append_assoc] at h
      refine (safe_hashes h).bind fun c h => ?_
      refine (safe_lineage run.lineage).bind fun _ _ => ?_
      refine (safe_tokenCount hcounts).bind fun _ _ => ?_
      refine (safe_tokenEvidence h).bind fun c h => ?_
      refine (safe_blockSize run.blockSize).bind fun _ _ => ?_
      refine (safe_medium h).bind fun c h => ?_
      exact (safe_blockMetadata h).bind fun c h => safe_object h
  | remove hashes group medium metadata =>
      rw [Mutation.supplies, List.append_assoc] at h
      refine (safe_hashes h).bind fun c h => ?_
      exact (safe_medium h).bind fun c h => safe_object h
  | clear metadata => exact safe_object h

/-! ### Records -/

theorem safe_validateAction {action : FaultAction} (h : Room limits c (action.supplies ++ rest)) :
    Safe JsonBudget (fun c => Room limits c rest) (c.validateAction action) := by
  cases action with
  | drop target => exact safe_identity h
  | duplicate target copies =>
      refine Safe.bind (safe_identity h) fun c h => ?_
      exact Safe.bind (safe_rejectIf fun _ => id) fun _ _ => safe_ok h
  | moveBefore target anchor =>
      refine Safe.bind (safe_identity h) fun c h => ?_
      refine Safe.bind (safe_identity h) fun c h => ?_
      exact Safe.bind (safe_rejectIf fun _ => id) fun _ _ => safe_ok h

/-- A record uses up its supply. -/
theorem safe_validateRecord {record : Record}
    (hcounts : ∀ count ∈ record.tokenCounts, count.toNat ≤ maxSafeJsonInteger)
    (h : Room limits c (record.supplies ++ rest)) :
    Safe JsonBudget (fun c => Room limits c rest) (c.validateRecord record) := by
  cases record with
  | traceHeader header =>
      refine Safe.bind (safe_rejectIf fun _ => id) fun _ _ => ?_
      refine (safe_identity h).bind fun c h => ?_
      exact (safe_identity h).bind fun c h => safe_object h
  | stream s =>
      simp only [Record.supplies, List.cons_append, List.append_assoc] at h
      refine (safe_identity h).bind fun c h => ?_
      refine (safe_identity h).bind fun c h => ?_
      refine (safe_identity h).bind fun c h => ?_
      refine (safe_identity h).bind fun c h => ?_
      refine (safe_identity h).bind fun c h => ?_
      refine (safe_identity h).bind fun c h => ?_
      refine (safe_items (by decide) (by decide)).bind fun _ _ => ?_
      refine (safe_each h fun worker _ c rest h => safe_identity h).bind fun c h => ?_
      exact safe_object h
  | envelope e =>
      simp only [Record.supplies, List.cons_append, List.append_assoc] at h
      refine (safe_identity h).bind fun c h => ?_
      refine (safe_identity h).bind fun c h => ?_
      refine (safe_items (by decide) (by decide)).bind fun _ _ => ?_
      have hmutation : ∀ mutation ∈ e.mutations, ∀ count ∈ mutation.tokenCounts,
          count.toNat ≤ maxSafeJsonInteger := fun mutation hmem count hcount =>
        hcounts count (List.mem_flatMap.mpr ⟨mutation, hmem, hcount⟩)
      refine (safe_each h fun mutation hmem c rest h =>
        safe_validateMutation (hmutation mutation hmem) h).bind fun c h => ?_
      exact safe_object h
  | faultSchedule schedule =>
      simp only [Record.supplies, List.cons_append, List.append_assoc] at h
      refine (safe_identity h).bind fun c h => ?_
      refine (safe_items (by decide) (by decide)).bind fun _ _ => ?_
      refine (safe_each h fun action _ c rest h => safe_validateAction h).bind fun c h => ?_
      exact safe_object h

end Validation

/-! ### What the decoder has counted -/

/-- A decoded tree is within the ceilings. -/
structure DecodedFits (limits : Limits) (json : Json) : Prop where
  nodes : ∀ node ∈ json.nodes 1, NodeFits limits node
  integers : ∀ node ∈ json.nodes 1, ∀ number, node.1 = .number number →
    number.natAbs ≤ maxSafeJsonInteger
  values : saturatingAdd 0 json.valueCount ≤ limits.maxValues.toNat
  strings : saturatingAdd 0 json.stringBytes ≤ limits.maxTotalStringBytes.toNat

theorem mem_treesOfItems {items : List Reading} : ∀ {trees : List Json},
    treesOfItems items = some trees → ∀ tree ∈ trees, ∃ item ∈ items, item.tree = some tree := by
  induction items with
  | nil =>
      rintro trees htrees
      obtain rfl := Option.some.inj htrees
      exact List.forall_mem_nil _
  | cons item items ih =>
      rintro trees htrees
      obtain ⟨tree, htree, htrees⟩ := Option.bind_eq_some_iff.mp htrees
      obtain ⟨rest, hrest, rfl⟩ := Option.map_eq_some_iff.mp htrees
      refine List.forall_mem_cons.mpr ⟨⟨item, List.mem_cons_self, htree⟩, fun other hother => ?_⟩
      obtain ⟨reading, hmem, hreading⟩ := ih hrest other hother
      exact ⟨reading, List.mem_cons_of_mem _ hmem, hreading⟩

theorem mem_treesOfMembers {members : List (String × Reading)} : ∀ {trees : List (String × Json)},
    treesOfMembers members = some trees →
      ∀ member ∈ trees, ∃ reading ∈ members, reading.2.tree = some member.2 := by
  induction members with
  | nil =>
      rintro trees htrees
      obtain rfl := Option.some.inj htrees
      exact List.forall_mem_nil _
  | cons member members ih =>
      rintro trees htrees
      obtain ⟨tree, htree, htrees⟩ := Option.bind_eq_some_iff.mp htrees
      obtain ⟨rest, hrest, rfl⟩ := Option.map_eq_some_iff.mp htrees
      refine List.forall_mem_cons.mpr ⟨⟨member, List.mem_cons_self, htree⟩, fun other hother => ?_⟩
      obtain ⟨reading, hmem, hreading⟩ := ih hrest other hother
      exact ⟨reading, List.mem_cons_of_mem _ hmem, hreading⟩

/-- The visitors let no unsafe integer through. -/
theorem integers_of_reading (reading : Reading) : ∀ {tree : Json} {depth : Nat},
    reading.tree = some tree → ∀ node ∈ tree.nodes depth, ∀ number, node.1 = .number number →
      number.natAbs ≤ maxSafeJsonInteger := by
  induction reading using Reading.inductionOn with
  | null =>
      rintro tree depth htree node hnode number hnumber
      obtain rfl := Option.some.inj htree
      obtain rfl := List.mem_singleton.mp hnode
      cases hnumber
  | bool b =>
      rintro tree depth htree node hnode number hnumber
      obtain rfl := Option.some.inj htree
      obtain rfl := List.mem_singleton.mp hnode
      cases hnumber
  | u64 n =>
      rintro tree depth htree node hnode number hnumber
      obtain ⟨hsafe, rfl⟩ := ite_eq_some htree
      obtain rfl := List.mem_singleton.mp hnode
      obtain rfl := Json.number.inj hnumber
      exact hsafe
  | i64 n =>
      rintro tree depth htree node hnode number hnumber
      obtain ⟨hsafe, rfl⟩ := ite_eq_some htree
      obtain rfl := List.mem_singleton.mp hnode
      obtain rfl := Json.number.inj hnumber
      exact hsafe
  | f64 negativeZero =>
      rintro tree depth htree node hnode number hnumber
      obtain ⟨-, rfl⟩ := ite_eq_some htree
      obtain rfl := List.mem_singleton.mp hnode
      obtain rfl := Json.number.inj hnumber
      exact Nat.zero_le _
  | string s =>
      rintro tree depth htree node hnode number hnumber
      obtain rfl := Option.some.inj htree
      obtain rfl := List.mem_singleton.mp hnode
      cases hnumber
  | array items closed ih =>
      rintro tree depth htree
      rw [Reading.tree] at htree
      cases closed with
      | false => cases htree
      | true =>
          obtain ⟨trees, htrees, rfl⟩ := Option.map_eq_some_iff.mp htree
          rw [Json.nodes, Json.nodesOfItems_eq]
          refine List.forall_mem_cons.mpr ⟨fun number hnumber => Json.noConfusion hnumber, ?_⟩
          rintro node hnode number hnumber
          obtain ⟨child, hchild, hnode⟩ := List.mem_flatMap.mp hnode
          obtain ⟨item, hitem, hread⟩ := mem_treesOfItems htrees child hchild
          exact ih item hitem hread node hnode number hnumber
  | object members closing ih =>
      rintro tree depth htree
      rw [Reading.tree] at htree
      by_cases hclosing : closing = .closed
      · rw [if_pos hclosing] at htree
        obtain ⟨trees, htrees, rfl⟩ := Option.map_eq_some_iff.mp htree
        rw [Json.nodes, Json.nodesOfMembers_eq]
        refine List.forall_mem_cons.mpr ⟨fun number hnumber => Json.noConfusion hnumber, ?_⟩
        rintro node hnode number hnumber
        obtain ⟨child, hchild, hnode⟩ := List.mem_flatMap.mp hnode
        obtain ⟨member, hmember, hread⟩ := mem_treesOfMembers htrees child hchild
        exact ih member hmember hread node hnode number hnumber
      · rw [if_neg hclosing] at htree
        cases htree
  | broken =>
      rintro tree depth htree
      cases htree

/-- What the decoder accepts is within the ceilings. -/
theorem decodedFits {reader : Reader} {text : List UInt8} {limits : Limits} {json : Json}
    (hdepth : limits.maxDepth.toNat ≤ maxJsonDepth) (h : decodeValue reader text limits = .ok json) :
    DecodedFits limits json := by
  have hmax : limits.maxDepth.toNat < 2 ^ 64 - 1 := Nat.lt_of_le_of_lt hdepth (by decide)
  obtain ⟨_, -, h⟩ := bind_eq_ok.mp h
  obtain ⟨⟨json', s⟩, hseed, h⟩ := bind_eq_ok.mp h
  obtain ⟨_, -, h⟩ := bind_eq_ok.mp h
  obtain rfl := pure_eq_ok.mp h
  obtain ⟨tree, htree, rfl, rfl, hfits, hwithin⟩ :=
    (visits hmax _ within_new).mp (mapError_eq_ok.mp hseed)
  have hdistinct : tree.DistinctKeys := fun node hnode => (hfits node hnode).keys
  -- The nodes of the sorted value are the sorted nodes of the tree.
  have hnodes : ∀ node ∈ tree.sorted.nodes 1,
      ∃ raw ∈ tree.nodes 1, node = (raw.1.sorted, raw.2) := by
    intro node hnode
    obtain ⟨raw, hraw, rfl⟩ := List.mem_map.mp ((Json.nodes_sorted hdistinct).subset hnode)
    exact ⟨raw, hraw, rfl⟩
  refine ⟨?_, ?_, ?_, ?_⟩
  · intro node hnode
    obtain ⟨raw, hraw, rfl⟩ := hnodes node hnode
    have hraw := hfits raw hraw
    have hkeys := Json.keys_sorted hraw.keys
    exact
      { depth := hraw.depth
        text := fun s hs => hraw.text s ((Json.texts_sorted hraw.keys).subset hs)
        items := by
          rw [Json.itemCount_sorted]
          exact hraw.items
        members := by
          rw [hkeys.length_eq]
          exact hraw.members
        keys := hkeys.nodup_iff.mpr hraw.keys }
  · intro node hnode number hnumber
    obtain ⟨raw, hraw, rfl⟩ := hnodes node hnode
    have hraw' : raw.1 = .number number := by
      obtain ⟨value, depth⟩ := raw
      cases value with
      | number n => exact hnumber
      | null => cases hnumber
      | bool b => cases hnumber
      | string s => cases hnumber
      | array items => cases hnumber
      | object members => cases hnumber
    exact integers_of_reading _ htree raw hraw number hraw'
  · rw [Json.valueCount_sorted hdistinct]
    exact hwithin.values
  · rw [Json.stringBytes_sorted hdistinct]
    exact hwithin.strings

/-! ### Records drawn from a tree -/

/-- The text of a supply. -/
def Supply.text? : Supply → Option String
  | .text value => some value
  | .node _ _ => none

/-- The inert value of a supply, with its depth. -/
def Supply.node? : Supply → Option (IrValue × Nat)
  | .text _ => none
  | .node value depth => some (value, depth)

/-- An inert value made from a raw one, as far as one level shows. -/
inductive SameShape : IrValue → Json → Prop
  | null : SameShape .null .null
  | bool (value : Bool) : SameShape (.bool value) (.bool value)
  | integer (value : Int64) : SameShape (.integer value) (.number value.toInt)
  | string (value : String) : SameShape (.string value) (.string value)
  | array {values : List IrValue} {items : List Json} (h : values.length = items.length) :
      SameShape (.array values) (.array items)
  | object {members : List (String × IrValue)} {raw : List (String × Json)}
      (h : members.length = raw.length) : SameShape (.object members) (.object raw)

/-- An inert value drawn from a raw value at no smaller depth. -/
structure Drawn (typed : IrValue × Nat) (raw : Json × Nat) : Prop where
  depth : typed.2 ≤ raw.2
  shape : SameShape typed.1 raw.1

/-- Each string, integer and inert value of a record comes from one of its own
in the raw tree. -/
structure Record.DrawnFrom (record : Record) (json : Json) : Prop where
  texts : (record.supplies.filterMap Supply.text?).Subperm
    ((json.nodes 1).flatMap fun node => node.1.texts)
  nodes : ∃ raw : List (Json × Nat), raw.Subperm (json.nodes 1) ∧
    List.Forall₂ Drawn (record.supplies.filterMap Supply.node?) raw
  tokenCounts : ∀ count ∈ record.tokenCounts, ∃ node ∈ json.nodes 1,
    node.1 = .number count.toNat

theorem sum_bytes (supplies : List Supply) : (supplies.map Supply.bytes).sum =
    ((supplies.filterMap Supply.text?).map String.utf8ByteSize).sum := by
  induction supplies with
  | nil => rfl
  | cons supply supplies ih =>
      cases supply with
      | text value =>
          rw [List.map_cons, List.sum_cons, ih, List.filterMap_cons]
          rfl
      | node value depth =>
          rw [List.map_cons, List.sum_cons, ih, List.filterMap_cons]
          exact Nat.zero_add _

theorem sum_values (supplies : List Supply) : (supplies.map Supply.values).sum =
    (supplies.filterMap Supply.node?).length := by
  induction supplies with
  | nil => rfl
  | cons supply supplies ih =>
      cases supply with
      | text value =>
          rw [List.map_cons, List.sum_cons, ih, List.filterMap_cons]
          exact Nat.zero_add _
      | node value depth =>
          rw [List.map_cons, List.sum_cons, ih, List.filterMap_cons]
          exact Nat.add_comm 1 _

theorem sum_le_of_subperm {xs ys : List String} (h : xs.Subperm ys) :
    (xs.map String.utf8ByteSize).sum ≤ (ys.map String.utf8ByteSize).sum := by
  obtain ⟨zs, hperm, hsub⟩ := h
  rw [← (hperm.map _).sum_eq]
  exact (hsub.map _).sum_le_sum fun _ _ => Nat.zero_le _

theorem exists_of_forall₂ {α β : Type*} {R : α → β → Prop} {xs : List α} {ys : List β}
    (h : List.Forall₂ R xs ys) {x : α} (hx : x ∈ xs) : ∃ y ∈ ys, R x y := by
  induction h with
  | nil => cases hx
  | cons hxy _ ih =>
      rcases List.mem_cons.mp hx with rfl | hx
      · exact ⟨_, List.mem_cons_self, hxy⟩
      · obtain ⟨y, hy, hR⟩ := ih hx
        exact ⟨y, List.mem_cons_of_mem _ hy, hR⟩

/-- A value drawn from one within the ceilings is within them. -/
theorem Drawn.fits {limits : Limits} {json : Json} {typed : IrValue × Nat} {raw : Json × Nat}
    (h : Drawn typed raw) (hjson : DecodedFits limits json) (hraw : raw ∈ json.nodes 1) :
    (Supply.node typed.1 typed.2).Fits limits := by
  have hfits := hjson.nodes raw hraw
  obtain ⟨hdepth, hshape⟩ := h
  refine ⟨hdepth.trans hfits.depth, ?_, ?_, ?_⟩
  · rintro members hmembers
    rw [hmembers] at hshape
    have hle := hfits.members
    generalize raw.1 = value at hshape hle
    cases hshape with
    | object h =>
        rw [Json.keys, List.length_map] at hle
        rw [h]
        exact hle
  · rintro values hvalues
    rw [hvalues] at hshape
    have hle := hfits.items
    generalize raw.1 = value at hshape hle
    cases hshape with
    | array h =>
        rw [h]
        exact hle
  · rintro number hnumber
    rw [hnumber] at hshape
    have hsafe := hjson.integers raw hraw
    generalize raw.1 = value at hshape hsafe
    cases hshape with
    | integer => exact hsafe _ rfl

theorem saturatingAdd_le {a b b' : Nat} (h : b ≤ b') : saturatingAdd a b ≤ saturatingAdd a b' := by
  unfold saturatingAdd
  omega

/-- There is room for a record that is drawn from a decoded tree. -/
theorem room_of_drawn {limits : Limits} {json : Json} {record : Record}
    (hjson : DecodedFits limits json) (h : record.DrawnFrom json) :
    Room limits (.new limits) record.supplies := by
  obtain ⟨raw, hraw, hdrawn⟩ := h.nodes
  refine ⟨rfl, ?_, ?_, ?_⟩
  · rw [sum_bytes]
    exact (saturatingAdd_le (sum_le_of_subperm h.texts)).trans hjson.strings
  · rw [sum_values, hdrawn.length_eq]
    exact (saturatingAdd_le hraw.length_le).trans hjson.values
  · intro supply hsupply
    cases supply with
    | text value =>
        have hmem : value ∈ record.supplies.filterMap Supply.text? :=
          List.mem_filterMap.mpr ⟨_, hsupply, rfl⟩
        obtain ⟨node, hnode, htext⟩ := List.mem_flatMap.mp (h.texts.subset hmem)
        exact (hjson.nodes node hnode).text value htext
    | node value depth =>
        have hmem : (value, depth) ∈ record.supplies.filterMap Supply.node? :=
          List.mem_filterMap.mpr ⟨_, hsupply, rfl⟩
        obtain ⟨node, hnode, hdrawn⟩ := exists_of_forall₂ hdrawn hmem
        exact hdrawn.fits hjson (hraw.subset hnode)

/-- Validation after decoding, under the same limits. -/
theorem validate_not_jsonBudget {limits : Limits} {json : Json} {record : Record}
    {error : ValidationError} (hjson : DecodedFits limits json) (h : record.DrawnFrom json)
    (herror : record.validate limits = .error error) : ¬ JsonBudget error := by
  have hcounts : ∀ count ∈ record.tokenCounts, count.toNat ≤ maxSafeJsonInteger := by
    intro count hcount
    obtain ⟨node, hnode, hnumber⟩ := h.tokenCounts count hcount
    exact hjson.integers node hnode _ hnumber
  have hroom := room_of_drawn hjson h
  rw [← List.append_nil record.supplies] at hroom
  have hsafe := safe_validateRecord hcounts hroom
  exact Safe.not_bad (hsafe.bind fun _ _ => @safe_ok _ _ JsonBudget (fun _ => True) _ trivial) herror

/-- A line that the decoder and the conversion accept is never refused by
validation, under the same limits, for a string, a value, a depth, an integer or
an item count of its JSON. -/
theorem codec_budgets_dominate {reader : Reader} {convert : Json → Option Record}
    {limits : Limits} (hconvert : ∀ json record, convert json = some record → record.DrawnFrom json)
    (input : List UInt8) (error : ValidationError)
    (h : decodeLine reader convert input limits = .error (.validation error)) :
    ¬ JsonBudget error := by
  obtain ⟨hdepth, payload, json, record, hvalue, hrecord, herror⟩ := decodeLine_validation h
  exact validate_not_jsonBudget (decodedFits hdepth hvalue) (hconvert json record hrecord) herror

namespace Sample

/-- A header line of another format. -/
def headerLine : List UInt8 :=
  utf8 ("\x7b\"kind\":\"trace_header\",\"format\":\"other\",\"trace_id\":\"trace\"," ++
    "\"redaction\":\"omitted\",\"created_by\":\"test\",\"extensions\":\x7b\x7d\x7d")

/-- A parser of that line. -/
def headerReader : Reader where
  read _ := ⟨.object [("kind", .string "trace_header"), ("format", .string "other"),
    ("trace_id", .string "trace"), ("redaction", .string "omitted"), ("created_by", .string "test"),
    ("extensions", .object [] .closed)] .closed, (1, 1), none⟩
  decode _ := none

/-- What the line says, as a map keeps it. -/
def headerValue : Json := .object [("created_by", .string "test"), ("extensions", .object []),
  ("format", .string "other"), ("kind", .string "trace_header"), ("redaction", .string "omitted"),
  ("trace_id", .string "trace")]

/-- The header of the line. -/
def otherHeader : TraceHeader := ⟨"other", "trace", .omitted, "test", []⟩

/-- The conversion of headers without extensions. -/
def convert : Json → Option Record
  | .object [(k₁, .string createdBy), (k₂, .object []), (k₃, .string format), (k₄, .string kind),
      (k₅, .string redaction), (k₆, .string traceId)] =>
      if [k₁, k₂, k₃, k₄, k₅, k₆] =
          ["created_by", "extensions", "format", "kind", "redaction", "trace_id"] ∧
          kind = "trace_header" ∧ redaction = "omitted" then
        some (.traceHeader ⟨format, traceId, .omitted, createdBy, []⟩)
      else none
  | _ => none

/-- The conversion draws both strings and the extensions from the tree. -/
theorem convert_drawn (json : Json) (record : Record) (h : convert json = some record) :
    record.DrawnFrom json := by
  unfold convert at h
  split at h
  · rename_i k₁ createdBy k₂ k₃ format k₄ kind k₅ redaction k₆ traceId
    obtain ⟨-, rfl⟩ := ite_eq_some h
    refine ⟨?_, ⟨[(.object [], 2)], ?_, ?_⟩, List.forall_mem_nil _⟩
    · show [traceId, createdBy].Subperm
        [k₁, k₂, k₃, k₄, k₅, k₆, createdBy, format, kind, redaction, traceId]
      have hsub : [createdBy, traceId].Sublist [createdBy, format, kind, redaction, traceId] :=
        .cons_cons _ (.cons _ (.cons _ (.cons _ (.refl _))))
      exact ⟨_, .swap _ _ _, .trans hsub (List.sublist_append_right [k₁, k₂, k₃, k₄, k₅, k₆] _)⟩
    · refine List.singleton_subperm_iff.mpr (List.mem_cons_of_mem _ ?_)
      rw [Json.nodesOfMembers_eq]
      exact List.mem_flatMap.mpr ⟨(k₂, .object []), by simp, List.mem_singleton_self _⟩
    · exact .cons ⟨Nat.le_succ 1, .object rfl⟩ .nil
  · cases h

end Sample

/-- The law at a header that decodes and is not valid. -/
theorem codec_budgets_dominate_header :
    decodeLine Sample.headerReader Sample.convert Sample.headerLine Limits.default =
        .error (.validation .unsupportedFormat) ∧ ¬ JsonBudget .unsupportedFormat := by
  have hscan : classifyNumbers Sample.headerLine = .ok () :=
    classifyFrom_of_no_number (by decide +kernel)
  have hline : decodeLine Sample.headerReader Sample.convert Sample.headerLine Limits.default =
      .error (.validation .unsupportedFormat) := by
    have hlimit : enforceLineLimit (payloadLength Sample.headerLine)
        Limits.default.maxLineBytes.toNat = .ok () := rejectIf_neg (by decide +kernel)
    have hterminator : withoutTerminator Sample.headerLine = Sample.headerLine := by decide +kernel
    have hpayload : splitPayload Sample.headerLine = .ok Sample.headerLine := by
      unfold splitPayload
      rw [hterminator]
      exact bind_ok (rejectIf_neg (by decide +kernel))
        (bind_ok (rejectIf_neg (by decide +kernel)) rfl)
    have hvalue : decodeValue Sample.headerReader Sample.headerLine Limits.default =
        .ok Sample.headerValue := by
      unfold decodeValue
      rw [hscan]
      rfl
    have hrecord : Sample.convert Sample.headerValue = some (.traceHeader Sample.otherHeader) := by
      unfold Sample.convert Sample.headerValue
      exact if_pos (by decide)
    exact decodeLine_of_invalid (rejectIf_neg (by decide)) hlimit hpayload (by decide +kernel)
      (isUtf8_utf8 _) hvalue hrecord rfl
  exact ⟨hline, codec_budgets_dominate Sample.convert_drawn _ _ hline⟩

end KvCrucible
