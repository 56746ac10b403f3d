/-
KvCrucible/RecordJson.lean

The JSON form of whole records (the `Serialize` side of `ir.rs`), with the
members of objects in key order.

A record is the object of its fields with the tag `kind` among them.  The
tree of a valid record prints exactly (`Record.printable`): its keys are
distinct and in order, and its integers are safe.
-/
import KvCrucible.Identity

namespace KvCrucible

open Basis

/-! ### Labels -/

/-- `RedactionMode::serialize`. -/
def RedactionMode.toJson : RedactionMode → Json
  | .omitted => .string "omitted"
  | .keyedDigests => .string "keyed_digests"
  | .unkeyedLinkable => .string "unkeyed_linkable"
  | .containsTokenIds => .string "contains_token_ids"

/-- `Origin::serialize`. -/
def Origin.toJson : Origin → Json
  | .live => .string "live"
  | .replay => .string "replay"

/-- `Baseline::serialize`. -/
def Baseline.toJson : Baseline → Json
  | .emptyAtEngineStart => .object [("kind", .string "empty_at_engine_start")]
  | .unknownAtAttach => .object [("kind", .string "unknown_at_attach")]

/-- `DecimalU64::serialize`. -/
def DecimalU64.toJson (value : DecimalU64) : Json := .string value.toString

/-! ### Fault actions -/

/-- `DeliveryRef::serialize`. -/
def DeliveryRef.toJson (delivery : DeliveryRef) : Json := .object [
  ("envelope_id", .string delivery.envelopeId), ("occurrence", .number delivery.occurrence.toNat)]

/-- `FaultAction::serialize`. -/
def FaultAction.toJson : FaultAction → Json
  | .drop target => .object [("action", .string "drop"), ("target", target.toJson)]
  | .duplicate target copies => .object [("action", .string "duplicate"),
      ("copies", .number copies.toNat), ("target", target.toJson)]
  | .moveBefore target anchor => .object [("action", .string "move_before"),
      ("anchor", anchor.toJson), ("target", target.toJson)]

/-! ### Records -/

/-- The fields of a header. -/
def TraceHeader.fields (header : TraceHeader) : List (String × Option Json) :=
  [("created_by", some (.string header.createdBy)),
    ("extensions", some (objectJson header.extensions)),
    ("format", some (.string header.format)),
    ("kind", some (.string "trace_header")),
    ("redaction", some header.redaction.toJson),
    ("trace_id", some (.string header.traceId))]

/-- The worker labels, which are left out when there are none. -/
def workerMetadataJson (workers : List String) : Option Json :=
  if workers.isEmpty then none else some (.array (workers.map .string))

/-- The fields of a stream declaration. -/
def StreamDeclaration.fields (stream : StreamDeclaration) : List (String × Option Json) :=
  [("baseline", some stream.baseline.toJson),
    ("data_parallel_rank", some (.number stream.dataParallelRank.toNat)),
    ("engine", some (.string stream.engine)),
    ("engine_instance", some (.string stream.engineInstance)),
    ("engine_version", some (.string stream.engineVersion)),
    ("epoch", some (.string stream.epoch)),
    ("extensions", some (objectJson stream.extensions)),
    ("initial_cursor", some stream.initialCursor.toJson),
    ("kind", some (.string "stream")),
    ("publisher", some (.string stream.publisher)),
    ("stream_id", some (.string stream.streamId)),
    ("worker_metadata", workerMetadataJson stream.workerMetadata)]

/-- The fields of an envelope. -/
def EventEnvelope.fields (envelope : EventEnvelope) : List (String × Option Json) :=
  [("cursor", some envelope.cursor.toJson),
    ("envelope_id", some (.string envelope.envelopeId)),
    ("extensions", some (objectJson envelope.extensions)),
    ("kind", some (.string "envelope")),
    ("mutations", some (mutationsJson envelope.mutations)),
    ("origin", some envelope.origin.toJson),
    ("stream_id", some (.string envelope.streamId))]

/-- The fields of a schedule. -/
def FaultSchedule.fields (schedule : FaultSchedule) : List (String × Option Json) :=
  [("actions", some (.array (schedule.actions.map FaultAction.toJson))),
    ("extensions", some (objectJson schedule.extensions)),
    ("kind", some (.string "fault_schedule")),
    ("schedule_id", some (.string schedule.scheduleId))]

/-- The fields of a record, its tag included. -/
def Record.fields : Record → List (String × Option Json)
  | .traceHeader header => header.fields
  | .stream declaration => declaration.fields
  | .envelope source => source.fields
  | .faultSchedule schedule => schedule.fields

/-- `Record::serialize`. -/
def Record.toJson (record : Record) : Json := .ofFields record.fields

/-! ### Records in key order -/

/-- The `extensions` of a record. -/
def Record.extensions : Record → IrObject
  | .traceHeader header => header.extensions
  | .stream declaration => declaration.extensions
  | .envelope source => source.extensions
  | .faultSchedule schedule => schedule.extensions

/-- The mutations of a record. -/
def Record.mutations : Record → List Mutation
  | .envelope source => source.mutations
  | _ => []

/-- The entries of every map of a record stand in key order: what a
`BTreeMap` guarantees. -/
structure Record.Ordered (record : Record) : Prop where
  extensions : (objectJson record.extensions).Every fun node => node.keys.Pairwise (· < ·)
  mutations : ∀ mutation ∈ record.mutations, mutation.Ordered

theorem Record.keys_fields (record : Record) : (record.fields.map Prod.fst).Pairwise (· < ·) := by
  cases record with
  | traceHeader header =>
      show ["created_by", "extensions", "format", "kind", "redaction", "trace_id"].Pairwise (· < ·)
      decide
  | stream declaration =>
      show ["baseline", "data_parallel_rank", "engine", "engine_instance", "engine_version", "epoch",
        "extensions", "initial_cursor", "kind", "publisher", "stream_id",
        "worker_metadata"].Pairwise (· < ·)
      decide
  | envelope source =>
      show ["cursor", "envelope_id", "extensions", "kind", "mutations", "origin",
        "stream_id"].Pairwise (· < ·)
      decide
  | faultSchedule schedule =>
      show ["actions", "extensions", "kind", "schedule_id"].Pairwise (· < ·)
      decide

/-! ### Valid records print -/

theorem printable_u16 (n : UInt16) : Printable (.number n.toNat) := by
  have hn := n.toNat_lt
  apply printable_nat
  rw [maxSafeJsonInteger]
  omega

theorem RedactionMode.printable (redaction : RedactionMode) : Printable redaction.toJson := by
  cases redaction <;> exact printable_string _

theorem Origin.printable (origin : Origin) : Printable origin.toJson := by
  cases origin <;> exact printable_string _

theorem Baseline.printable (baseline : Baseline) : Printable baseline.toJson := by
  cases baseline with
  | emptyAtEngineStart =>
      exact printable_object (List.pairwise_singleton _ _)
        (List.forall_mem_singleton.mpr (printable_string _))
  | unknownAtAttach =>
      exact printable_object (List.pairwise_singleton _ _)
        (List.forall_mem_singleton.mpr (printable_string _))

theorem DecimalU64.printable (value : DecimalU64) : Printable value.toJson := printable_string _

theorem DeliveryRef.printable (delivery : DeliveryRef) : Printable delivery.toJson := by
  apply printable_object
  · show ["envelope_id", "occurrence"].Pairwise (· < ·)
    decide
  · simp only [List.forall_mem_cons, printable_string, printable_u16, true_and]
    exact List.forall_mem_nil _

theorem FaultAction.printable (action : FaultAction) : Printable action.toJson := by
  cases action with
  | drop target =>
      apply printable_object
      · show ["action", "target"].Pairwise (· < ·)
        decide
      · simp only [List.forall_mem_cons, printable_string, target.printable, true_and]
        exact List.forall_mem_nil _
  | duplicate target copies =>
      apply printable_object
      · show ["action", "copies", "target"].Pairwise (· < ·)
        decide
      · simp only [List.forall_mem_cons, printable_string, printable_u16, target.printable, true_and]
        exact List.forall_mem_nil _
  | moveBefore target anchor =>
      apply printable_object
      · show ["action", "anchor", "target"].Pairwise (· < ·)
        decide
      · simp only [List.forall_mem_cons, printable_string, target.printable, anchor.printable,
          true_and]
        exact List.forall_mem_nil _

theorem printable_workerMetadata (workers : List String) :
    ∀ value ∈ workerMetadataJson workers, Printable value := by
  intro value hvalue
  unfold workerMetadataJson at hvalue
  by_cases hempty : workers.isEmpty = true
  · rw [if_pos hempty] at hvalue
    cases hvalue
  · rw [if_neg hempty] at hvalue
    obtain rfl := Option.some.inj hvalue
    exact printable_array (List.forall_mem_map.mpr fun worker _ => printable_string worker)

/-- The extensions are what validation checks last. -/
theorem ValidationContext.validateRecord_extensions {c c' : ValidationContext} {record : Record}
    (h : c.validateRecord record = .ok c') :
    ∃ before : ValidationContext, before.object record.extensions 1 = .ok c' := by
  cases record with
  | traceHeader header =>
      obtain ⟨⟨⟩, -, h⟩ := bind_eq_ok.mp h
      obtain ⟨c₁, -, h⟩ := bind_eq_ok.mp h
      obtain ⟨c₂, -, h⟩ := bind_eq_ok.mp h
      exact ⟨c₂, h⟩
  | stream declaration =>
      obtain ⟨c₁, -, h⟩ := bind_eq_ok.mp h
      obtain ⟨c₂, -, h⟩ := bind_eq_ok.mp h
      obtain ⟨c₃, -, h⟩ := bind_eq_ok.mp h
      obtain ⟨c₄, -, h⟩ := bind_eq_ok.mp h
      obtain ⟨c₅, -, h⟩ := bind_eq_ok.mp h
      obtain ⟨c₆, -, h⟩ := bind_eq_ok.mp h
      obtain ⟨⟨⟩, -, h⟩ := bind_eq_ok.mp h
      obtain ⟨c₇, -, h⟩ := bind_eq_ok.mp h
      exact ⟨c₇, h⟩
  | envelope source =>
      obtain ⟨c₁, -, h⟩ := bind_eq_ok.mp h
      obtain ⟨c₂, -, h⟩ := bind_eq_ok.mp h
      obtain ⟨⟨⟩, -, h⟩ := bind_eq_ok.mp h
      obtain ⟨c₃, -, h⟩ := bind_eq_ok.mp h
      exact ⟨c₃, h⟩
  | faultSchedule schedule =>
      obtain ⟨c₁, -, h⟩ := bind_eq_ok.mp h
      obtain ⟨⟨⟩, -, h⟩ := bind_eq_ok.mp h
      obtain ⟨c₂, -, h⟩ := bind_eq_ok.mp h
      exact ⟨c₂, h⟩

/-- The tree of a valid record in key order prints. -/
theorem Record.printable {record : Record} {limits : Limits}
    (hvalid : record.validate limits = .ok ()) (hordered : record.Ordered) :
    Printable record.toJson := by
  obtain ⟨c, hrecord, -⟩ := bind_eq_ok.mp hvalid
  obtain ⟨before, hobject⟩ := ValidationContext.validateRecord_extensions hrecord
  have hextensions := printable_objectJson hobject hordered.extensions
  refine printable_ofFields record.keys_fields ?_
  cases record with
  | traceHeader header =>
      have hextensions : Printable (objectJson header.extensions) := hextensions
      simp only [fields, TraceHeader.fields, List.forall_mem_cons, Option.mem_some_iff, forall_eq',
        printable_string, RedactionMode.printable, hextensions, true_and]
      exact List.forall_mem_nil _
  | stream declaration =>
      have hextensions : Printable (objectJson declaration.extensions) := hextensions
      simp only [fields, StreamDeclaration.fields, List.forall_mem_cons, Option.mem_some_iff,
        forall_eq', printable_string, printable_u32, Baseline.printable, DecimalU64.printable,
        hextensions, true_and]
      exact ⟨printable_workerMetadata declaration.workerMetadata, List.forall_mem_nil _⟩
  | envelope source =>
      have hextensions : Printable (objectJson source.extensions) := hextensions
      have hmutations := printable_mutations hvalid hordered.mutations
      simp only [fields, EventEnvelope.fields, List.forall_mem_cons, Option.mem_some_iff, forall_eq',
        printable_string, DecimalU64.printable, Origin.printable, hextensions, hmutations, true_and]
      exact List.forall_mem_nil _
  | faultSchedule schedule =>
      have hextensions : Printable (objectJson schedule.extensions) := hextensions
      have hactions : Printable (.array (schedule.actions.map FaultAction.toJson)) :=
        printable_array (List.forall_mem_map.mpr fun action _ => action.printable)
      simp only [fields, FaultSchedule.fields, List.forall_mem_cons, Option.mem_some_iff, forall_eq',
        printable_string, hextensions, hactions, true_and]
      exact List.forall_mem_nil _

end KvCrucible
