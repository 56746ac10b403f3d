/-
KvCrucible/Grammar.lean

How far the record grammar is closed.

The schema gives every place in the tree of a line a shape.  A line is closed
when each place has the form of its shape: a struct or a struct variant is an
object with its tag and its fields and nothing else, a unit variant an object
with the tag alone, a label a string, a list a sequence, and inert data is an
object.  The tag is a scalar, as inside a record it may be the index of the
variant.

The derived readers take more than that, in three ways: a sequence in place of
a struct or an enum, any member beside the tag of a unit variant, and an object
in place of a label.  There is no fourth: a line that is decoded is closed
exactly when it is regular, that is, when it uses none of the three
(`decoded_closed_iff`).

The fields of a struct are looked for in the members of an object.  What stands
inside a sequence in place of a struct has no place of its own, and the
sequence itself is neither closed nor regular.
-/
import KvCrucible.RoundTrip

namespace KvCrucible

open Basis Basis.JsonText

/-! ### Shapes -/

/-- What the schema asks of a place. -/
inductive Shape where
  | fields (required optional : List String)
  | unit (tag : String)
  /-- An enum whose tag selects no variant. -/
  | unknown
  | items
  | label
  | scalar
  | free

def isObject : Json → Bool
  | .object _ => true
  | _ => false

def isSequence : Json → Bool
  | .array _ => true
  | _ => false

def sequence : Json → List Json
  | .array items => items
  | _ => []

def isLabel : Json → Bool
  | .string _ => true
  | _ => false

def isScalar : Json → Bool
  | .array _ => false
  | .object _ => false
  | _ => true

/-- The form the format gives a place. -/
def Shape.Closed (json : Json) : Shape → Prop
  | .fields required optional => isObject json = true ∧ (∀ name ∈ required, name ∈ json.keys) ∧
      ∀ name ∈ json.keys, name ∈ required ++ optional
  | .unit tag => isObject json = true ∧ tag ∈ json.keys ∧ ∀ name ∈ json.keys, name = tag
  | .unknown => False
  | .items => isSequence json = true
  | .label => isLabel json = true
  | .scalar => isScalar json = true
  | .free => isObject json = true

/-- A place that uses none of the three ways around the format. -/
def Shape.Regular (json : Json) : Shape → Prop
  | .fields _ _ => isSequence json = false
  | .unit tag => isSequence json = false ∧ ∀ name ∈ json.keys, name = tag
  | .label => isObject json = false
  | _ => True

instance (json : Json) : ∀ shape : Shape, Decidable (shape.Closed json)
  | .fields required optional => inferInstanceAs (Decidable (isObject json = true ∧
      (∀ name ∈ required, name ∈ json.keys) ∧ ∀ name ∈ json.keys, name ∈ required ++ optional))
  | .unit tag => inferInstanceAs (Decidable (isObject json = true ∧ tag ∈ json.keys ∧
      ∀ name ∈ json.keys, name = tag))
  | .unknown => inferInstanceAs (Decidable False)
  | .items => inferInstanceAs (Decidable (isSequence json = true))
  | .label => inferInstanceAs (Decidable (isLabel json = true))
  | .scalar => inferInstanceAs (Decidable (isScalar json = true))
  | .free => inferInstanceAs (Decidable (isObject json = true))

instance (json : Json) : ∀ shape : Shape, Decidable (shape.Regular json)
  | .fields _ _ => inferInstanceAs (Decidable (isSequence json = false))
  | .unit tag => inferInstanceAs (Decidable (isSequence json = false ∧
      ∀ name ∈ json.keys, name = tag))
  | .label => inferInstanceAs (Decidable (isObject json = false))
  | .unknown => inferInstanceAs (Decidable True)
  | .items => inferInstanceAs (Decidable True)
  | .scalar => inferInstanceAs (Decidable True)
  | .free => inferInstanceAs (Decidable True)

/-! ### Grammars -/

/-- The places in a value. -/
abbrev Grammar := Json → List (Shape × Json)

namespace Grammar

/-- A scalar. -/
def leaf : Grammar := fun json => [(.scalar, json)]

/-- An enum of labels. -/
def label : Grammar := fun json => [(.label, json)]

/-- Inert data. -/
def free : Grammar := fun json => [(.free, json)]

/-- A unit variant. -/
def unit (tag : String) : Grammar := fun json => [(.unit tag, json)]

/-- A list. -/
def listOf (grammar : Grammar) : Grammar := fun json =>
  (.items, json) :: (sequence json).flatMap grammar

/-- A struct. -/
def struct (required optional : List (String × Grammar)) : Grammar := fun json =>
  (.fields (required.map Prod.fst) (optional.map Prod.fst), json) ::
    (required ++ optional).flatMap fun field => (json.member? field.1).elim [] field.2

/-- A struct variant, whose tag stands among the members. -/
def variant (tag : String) (required optional : List (String × Grammar)) : Grammar :=
  struct ((tag, leaf) :: required) optional

/-- An internally tagged enum. -/
def tagged (tag : String) (variants : List (String × Grammar)) : Grammar := fun json =>
  ((splitTag tag json).bind fun content => variantOf variants content.1).elim [(.unknown, json)]
    fun grammar => grammar json

end Grammar

open Grammar

/-! ### The format -/

def OpaqueHash.grammar : Grammar := tagged "encoding" [
  ("u64", variant "encoding" [("value", leaf)] []),
  ("bytes", variant "encoding" [("value", leaf)] [])]

def Baseline.grammar : Grammar := tagged "kind" [
  ("empty_at_engine_start", unit "kind"),
  ("unknown_at_attach", unit "kind")]

def CacheGroup.grammar : Grammar := tagged "kind" [
  ("index", variant "kind" [("value", leaf)] []),
  ("unspecified", unit "kind")]

def StorageMedium.grammar : Grammar := tagged "kind" [
  ("named", variant "kind" [("value", leaf)] []),
  ("unspecified", unit "kind")]

def Lineage.grammar : Grammar := tagged "kind" [
  ("chain", variant "kind" [("parent_of_first", OpaqueHash.grammar)] []),
  ("opaque", unit "kind")]

def TokenEvidence.grammar : Grammar := tagged "kind" [
  ("keyed_digest", variant "kind" [("algorithm", label), ("key_id", leaf), ("value", leaf)] []),
  ("unkeyed_digest", variant "kind" [("algorithm", label), ("value", leaf)] []),
  ("token_ids", variant "kind" [("values", listOf leaf)] [])]

def StoreRun.grammar : Grammar := variant "op"
  [("hashes", listOf OpaqueHash.grammar), ("group", CacheGroup.grammar),
    ("medium", StorageMedium.grammar), ("metadata", free)]
  [("lineage", Lineage.grammar), ("token_count", leaf), ("token_evidence", TokenEvidence.grammar),
    ("block_size", leaf), ("block_metadata", listOf free)]

def Mutation.grammar : Grammar := tagged "op" [
  ("store_run", StoreRun.grammar),
  ("remove", variant "op" [("hashes", listOf OpaqueHash.grammar), ("group", CacheGroup.grammar),
    ("medium", StorageMedium.grammar), ("metadata", free)] []),
  ("clear", variant "op" [("metadata", free)] [])]

def DeliveryRef.grammar : Grammar := struct [("envelope_id", leaf), ("occurrence", leaf)] []

def FaultAction.grammar : Grammar := tagged "action" [
  ("drop", variant "action" [("target", DeliveryRef.grammar)] []),
  ("duplicate", variant "action" [("target", DeliveryRef.grammar), ("copies", leaf)] []),
  ("move_before", variant "action" [("target", DeliveryRef.grammar),
    ("anchor", DeliveryRef.grammar)] [])]

/-- The fields of a record stand beside the tag that selects it. -/
def TraceHeader.grammar : Grammar := variant "kind"
  [("format", leaf), ("trace_id", leaf), ("redaction", label), ("created_by", leaf),
    ("extensions", free)] []

def StreamDeclaration.grammar : Grammar := variant "kind"
  [("stream_id", leaf), ("engine", leaf), ("engine_version", leaf), ("engine_instance", leaf),
    ("publisher", leaf), ("data_parallel_rank", leaf), ("epoch", leaf), ("initial_cursor", leaf),
    ("baseline", Baseline.grammar), ("extensions", free)]
  [("worker_metadata", listOf leaf)]

def EventEnvelope.grammar : Grammar := variant "kind"
  [("envelope_id", leaf), ("stream_id", leaf), ("cursor", leaf), ("origin", label),
    ("mutations", listOf Mutation.grammar), ("extensions", free)] []

def FaultSchedule.grammar : Grammar := variant "kind"
  [("schedule_id", leaf), ("actions", listOf FaultAction.grammar), ("extensions", free)] []

def Record.grammars : List (String × Grammar) := [("trace_header", TraceHeader.grammar),
  ("stream", StreamDeclaration.grammar), ("envelope", EventEnvelope.grammar),
  ("fault_schedule", FaultSchedule.grammar)]

def Record.grammar : Grammar := tagged "kind" Record.grammars

/-- Every place of a line has the form of the format.  Members the schema does not
name are in inert data then, and nowhere else. -/
def ClosedLine (json : Json) : Prop :=
  ∀ place ∈ Record.grammar json, place.1.Closed place.2

/-- No place of a line goes around it. -/
def RegularLine (json : Json) : Prop :=
  ∀ place ∈ Record.grammar json, place.1.Regular place.2

instance (json : Json) : Decidable (ClosedLine json) :=
  inferInstanceAs (Decidable (∀ place ∈ Record.grammar json, place.1.Closed place.2))

instance (json : Json) : Decidable (RegularLine json) :=
  inferInstanceAs (Decidable (∀ place ∈ Record.grammar json, place.1.Regular place.2))

/-! ### What readers settle -/

/-- A place is closed exactly when it is regular. -/
def Settled (place : Shape × Json) : Prop :=
  place.1.Closed place.2 ↔ place.1.Regular place.2

section Readers

variable {α β : Type} {read : Json → Option α} {grammar : Grammar}

/-- In what is read all places are settled. -/
def SettledBy (read : Json → Option α) (grammar : Grammar) : Prop :=
  ∀ ⦃json : Json⦄ ⦃a : α⦄, read json = some a → ∀ place ∈ grammar json, Settled place

/-- The same for the variant of an enum, which reads what is left beside the
tag. -/
def VariantSettledBy (tag : String) (read : Json → Option α) (grammar : Grammar) : Prop :=
  ∀ ⦃json value content : Json⦄ ⦃a : α⦄, splitTag tag json = some (value, content) →
    isScalar value = true → read content = some a → ∀ place ∈ grammar json, Settled place

/-- A reader of scalars. -/
theorem settled_leaf (h : ∀ json a, read json = some a → isScalar json = true) :
    SettledBy read leaf :=
  fun json a hread => List.forall_mem_singleton.mpr (iff_of_true (h json a hread) trivial)

theorem SettledBy.bind {f : α → Option β} (h : SettledBy read grammar) :
    SettledBy (fun json => (read json).bind f) grammar := by
  intro json b hread
  obtain ⟨a, ha, -⟩ := Option.bind_eq_some_iff.mp hread
  exact h ha

theorem SettledBy.map {f : α → β} (h : SettledBy read grammar) :
    SettledBy (fun json => (read json).map f) grammar := by
  intro json b hread
  obtain ⟨a, ha, -⟩ := Option.map_eq_some_iff.mp hread
  exact h ha

/-- A label is a string, if it is not an object. -/
theorem settled_label {variants : List (String × α)} : SettledBy (unitEnum variants) label := by
  intro json a h
  refine List.forall_mem_singleton.mpr ?_
  cases json with
  | string value => exact iff_of_true rfl rfl
  | object members =>
      -- read when its one member is a label and holds null
      exact iff_of_false Bool.false_ne_true fun h => Bool.false_ne_true h.symm
  | null => cases h
  | bool _ => cases h
  | number _ => cases h
  | array _ => cases h

/-- Inert data is an object. -/
theorem settled_free : SettledBy readObject free := by
  intro json members h
  refine List.forall_mem_singleton.mpr ?_
  cases json with
  | object members => exact iff_of_true rfl trivial
  | null => cases h
  | bool _ => cases h
  | number _ => cases h
  | string _ => cases h
  | array _ => cases h

/-- The items of a list are read one by one. -/
theorem read_item {items : List Json} : ∀ {as : List α}, readVec read (.array items) = some as →
    ∀ item ∈ items, ∃ a, read item = some a := by
  induction items with
  | nil => exact fun _ => List.forall_mem_nil _
  | cons item items ih =>
      intro as h
      rw [readVec, List.mapM_cons] at h
      obtain ⟨a, hitem, h⟩ := Option.bind_eq_some_iff.mp h
      obtain ⟨rest, hrest, -⟩ := Option.bind_eq_some_iff.mp h
      exact List.forall_mem_cons.mpr ⟨⟨a, hitem⟩, ih hrest⟩

theorem settled_listOf (hread : SettledBy read grammar) :
    SettledBy (readVec read) (listOf grammar) := by
  intro json as h
  cases json with
  | array items =>
      refine List.forall_mem_cons.mpr ⟨iff_of_true rfl trivial, fun place hplace => ?_⟩
      obtain ⟨item, hitem, hplace⟩ := List.mem_flatMap.mp hplace
      obtain ⟨a, ha⟩ := read_item h item hitem
      exact hread ha place hplace
  | null => cases h
  | bool _ => cases h
  | number _ => cases h
  | string _ => cases h
  | object _ => cases h

/-! ### Structs -/

theorem mem_keys_of_lookup {name : String} {value : Json} {members : List (String × Json)}
    (h : members.lookup name = some value) : name ∈ members.map Prod.fst := by
  obtain ⟨before, after, rfl, -⟩ := List.lookup_eq_some_iff.mp h
  exact List.mem_map_of_mem (List.mem_append_right before List.mem_cons_self)

variable {get : String → Option Json} {name tag : String} {names : List String}
  {required optional : List (String × Grammar)} {json value content : Json}

/-- What a field holds, if anything, is settled. -/
def FieldSettled (get : String → Option Json) (field : String × Grammar) : Prop :=
  ∀ value, get field.1 = some value → ∀ place ∈ field.2 value, Settled place

/-- A field that is there, and what it holds is settled. -/
def FieldFilled (get : String → Option Json) (field : String × Grammar) : Prop :=
  get field.1 ≠ none ∧ FieldSettled get field

theorem filled_required {a : α} (h : KvCrucible.required get name read = some a)
    (hread : SettledBy read grammar) : FieldFilled get (name, grammar) := by
  obtain ⟨value, hget, hvalue⟩ := Option.bind_eq_some_iff.mp h
  refine ⟨fun hnone => (by cases hnone.symm.trans hget), fun value' hvalue' => ?_⟩
  obtain rfl := Option.some.inj (hget.symm.trans hvalue')
  exact hread hvalue

theorem settled_present {a : Option α} (h : present get name read = some a)
    (hread : SettledBy read grammar) : FieldSettled get (name, grammar) := by
  intro value hvalue
  rw [present, show get name = some value from hvalue] at h
  obtain ⟨a, ha, -⟩ := Option.map_eq_some_iff.mp h
  exact hread ha

theorem settled_orEmpty {read : Json → Option (List α)} {as : List α}
    (h : orEmpty get name read = some as) (hread : SettledBy read grammar) :
    FieldSettled get (name, grammar) := by
  intro value hvalue
  rw [orEmpty, show get name = some value from hvalue] at h
  exact hread h

/-- The places of a struct are the struct itself and those of its fields. -/
theorem settled_struct (hplace : Settled (.fields (required.map Prod.fst) (optional.map Prod.fst),
      json))
    (hrequired : ∀ field ∈ required, FieldSettled json.member? field)
    (hoptional : ∀ field ∈ optional, FieldSettled json.member? field) :
    ∀ place ∈ struct required optional json, Settled place := by
  refine List.forall_mem_cons.mpr ⟨hplace, fun place hmem => ?_⟩
  obtain ⟨field, hfield, hmem⟩ := List.mem_flatMap.mp hmem
  have hsettled : FieldSettled json.member? field :=
    (List.mem_append.mp hfield).elim (hrequired field) (hoptional field)
  cases hvalue : json.member? field.1 with
  | none =>
      rw [hvalue] at hmem
      cases hmem
  | some value =>
      rw [hvalue] at hmem
      exact hsettled value hvalue place hmem

/-- A sequence in place of a struct. -/
theorem settled_sequence (items : List Json) :
    ∀ place ∈ struct required optional (.array items), Settled place :=
  settled_struct (iff_of_false (fun h => Bool.false_ne_true h.1) fun h => Bool.false_ne_true h.symm)
    (fun _ _ _ h => by cases h) fun _ _ _ h => by cases h

/-- An object that has the fields and no other member. -/
theorem settled_members {members : List (String × Json)}
    (hknown : ∀ member ∈ members, member.1 ∈ (required ++ optional).map Prod.fst)
    (hrequired : ∀ field ∈ required, FieldFilled (Json.object members).member? field)
    (hoptional : ∀ field ∈ optional, FieldSettled (Json.object members).member? field) :
    ∀ place ∈ struct required optional (.object members), Settled place := by
  refine settled_struct (iff_of_true ⟨rfl, ?_, ?_⟩ rfl)
    (fun field hfield => (hrequired field hfield).2) hoptional
  · rw [List.forall_mem_map]
    intro field hfield
    obtain ⟨value, hvalue⟩ := Option.ne_none_iff_exists'.mp (hrequired field hfield).1
    exact mem_keys_of_lookup hvalue
  · rw [← List.map_append]
    exact List.forall_mem_map.mpr hknown

/-- A struct that is not in an enum. -/
theorem settled_fieldsOf (hget : fieldsOf names json = some get)
    (hnames : ∀ name ∈ names, name ∈ (required ++ optional).map Prod.fst)
    (hrequired : ∀ field ∈ required, FieldFilled get field)
    (hoptional : ∀ field ∈ optional, FieldSettled get field) :
    ∀ place ∈ struct required optional json, Settled place := by
  cases json with
  | object members =>
      obtain ⟨hmembers, rfl⟩ := ite_eq_some hget
      exact settled_members (fun member hmember => hnames _ (hmembers member hmember)) hrequired
        hoptional
  | array items => exact settled_sequence items
  | null => cases hget
  | bool _ => cases hget
  | number _ => cases hget
  | string _ => cases hget

/-! ### Enums -/

/-- The fields beside the tag are looked up as if it was not there. -/
theorem lookup_beside {members : List (String × Json)} (h : name ≠ tag) :
    (members.filter fun member => member.1 != tag).lookup name = members.lookup name := by
  induction members with
  | nil => rfl
  | cons member members ih =>
      obtain ⟨key, value⟩ := member
      by_cases hkey : key = tag
      · rw [List.filter_cons_of_neg (by simp [hkey]), ih, List.lookup_cons,
          beq_eq_false_iff_ne.mpr (hkey ▸ h)]
      · rw [List.filter_cons_of_pos (by simp [hkey]), List.lookup_cons, List.lookup_cons, ih]

/-- A struct variant. -/
theorem settled_variant (hsplit : splitTag tag json = some (value, content))
    (hvalue : isScalar value = true) (hget : fieldsOf names content = some get)
    (htag : ∀ field ∈ required ++ optional, field.1 ≠ tag)
    (hnames : ∀ name ∈ names, name ∈ (required ++ optional).map Prod.fst)
    (hrequired : ∀ field ∈ required, FieldFilled get field)
    (hoptional : ∀ field ∈ optional, FieldSettled get field) :
    ∀ place ∈ variant tag required optional json, Settled place := by
  cases json with
  | object members =>
      obtain ⟨_, htagged, heq⟩ := Option.map_eq_some_iff.mp hsplit
      obtain ⟨rfl, rfl⟩ := Prod.mk.inj heq
      obtain ⟨hmembers, rfl⟩ := ite_eq_some hget
      have hlookup : ∀ field ∈ required ++ optional,
          (members.filter fun member => member.1 != tag).lookup field.1 =
            members.lookup field.1 := fun field hfield => lookup_beside (htag field hfield)
      -- the reader sees the members without the tag, the format all of them
      refine settled_members ?_ ?_ ?_
      · intro member hmember
        by_cases hkey : member.1 = tag
        · exact hkey ▸ List.mem_cons_self
        · exact List.mem_cons_of_mem _ (hnames _
            (hmembers member (List.mem_filter.mpr ⟨hmember, by simp [hkey]⟩)))
      · refine List.forall_mem_cons.mpr ⟨⟨?_, fun value' hvalue' => ?_⟩, ?_⟩
        · exact fun hnone => by cases hnone.symm.trans htagged
        · obtain rfl := Option.some.inj (htagged.symm.trans hvalue')
          exact List.forall_mem_singleton.mpr (iff_of_true hvalue trivial)
        · intro field hfield
          have h := hrequired field hfield
          rwa [FieldFilled, FieldSettled, hlookup field (List.mem_append_left _ hfield)] at h
      · intro field hfield
        have h := hoptional field hfield
        rwa [FieldSettled, hlookup field (List.mem_append_right _ hfield)] at h
  | array items => exact settled_sequence items
  | null => cases hsplit
  | bool _ => cases hsplit
  | number _ => cases hsplit
  | string _ => cases hsplit

/-- A struct variant with one field. -/
theorem settled_field {f : β → α} {read : Json → Option β} (hname : name ≠ tag)
    (hread : SettledBy read grammar) :
    VariantSettledBy tag (fun json => (fieldsOf [name] json).bind fun get =>
      (KvCrucible.required get name read).bind fun b => some (f b))
      (variant tag [(name, grammar)] []) := by
  intro json value content a hsplit hvalue h
  obtain ⟨get, hget, h⟩ := Option.bind_eq_some_iff.mp h
  obtain ⟨b, hb, -⟩ := Option.bind_eq_some_iff.mp h
  exact settled_variant hsplit hvalue hget (List.forall_mem_singleton.mpr hname)
    (List.forall_mem_singleton.mpr List.mem_cons_self)
    (List.forall_mem_singleton.mpr (filled_required hb hread)) (List.forall_mem_nil _)

/-- A unit variant, which takes any members. -/
theorem settled_unit {a : α} : VariantSettledBy tag (unitVariant a) (unit tag) := by
  intro json value content a' hsplit _ _
  refine List.forall_mem_singleton.mpr ?_
  cases json with
  | object members =>
      obtain ⟨_, htagged, -⟩ := Option.map_eq_some_iff.mp hsplit
      have htag : tag ∈ (Json.object members).keys := mem_keys_of_lookup htagged
      -- other members decide both sides alike: the reader does not look at them
      exact ⟨fun h => ⟨rfl, h.2.2⟩, fun h => ⟨rfl, htag, h.2⟩⟩
  | array items =>
      exact iff_of_false (fun h => Bool.false_ne_true h.1)
        fun h => Bool.false_ne_true h.1.symm
  | null => cases hsplit
  | bool _ => cases hsplit
  | number _ => cases hsplit
  | string _ => cases hsplit

theorem VariantSettledBy.map {f : α → β} (h : VariantSettledBy tag read grammar) :
    VariantSettledBy tag (fun json => (read json).map f) grammar := by
  intro json value content b hsplit hvalue hb
  obtain ⟨a, ha, -⟩ := Option.map_eq_some_iff.mp hb
  exact h hsplit hvalue ha

/-- The variants of an enum and their grammars, label by label. -/
def VariantsSettled (tag : String) (readers : List (String × (Json → Option α)))
    (grammars : List (String × Grammar)) : Prop :=
  List.Forall₂ (fun reader grammar => reader.1 = grammar.1 ∧
    VariantSettledBy tag reader.2 grammar.2) readers grammars

/-- A tag that selects a variant selects its grammar. -/
theorem VariantsSettled.variantOf {readers : List (String × (Json → Option α))}
    {grammars : List (String × Grammar)} (h : VariantsSettled tag readers grammars)
    (hread : KvCrucible.variantOf readers value = some read) :
    ∃ grammar, KvCrucible.variantOf grammars value = some grammar ∧
      VariantSettledBy tag read grammar := by
  cases value with
  | string label =>
      change readers.lookup label = some read at hread
      show ∃ grammar, grammars.lookup label = some grammar ∧ _
      induction h with
      | nil => cases hread
      | @cons reader grammar readers grammars hvariant _ ih =>
          obtain ⟨hlabel, hsettled⟩ := hvariant
          rw [List.lookup_cons, hlabel] at hread
          rw [List.lookup_cons]
          cases hbeq : label == grammar.1 with
          | true =>
              rw [hbeq] at hread
              obtain rfl := Option.some.inj hread
              exact ⟨grammar.2, rfl, hsettled⟩
          | false =>
              rw [hbeq] at hread
              exact ih hread
  | number index =>
      rw [KvCrucible.variantOf, Option.ite_none_right_eq_some] at hread
      obtain ⟨hindex, hread⟩ := hread
      rw [List.getElem?_map, Option.map_eq_some_iff] at hread
      obtain ⟨reader, hreader, rfl⟩ := hread
      obtain ⟨hi, rfl⟩ := List.getElem?_eq_some_iff.mp hreader
      have hi' : index.toNat < grammars.length := h.length_eq ▸ hi
      refine ⟨grammars[index.toNat].2, ?_, (List.Forall₂.get h hi hi').2⟩
      rw [KvCrucible.variantOf, if_pos hindex, List.getElem?_map, List.getElem?_eq_getElem hi']
      rfl
  | null => cases hread
  | bool _ => cases hread
  | array _ => cases hread
  | object _ => cases hread

/-- A tag is a label or an index. -/
theorem isScalar_of_variantOf {variants : List (String × α)} {a : α}
    (h : variantOf variants value = some a) : isScalar value = true := by
  cases value with
  | string _ => rfl
  | number _ => rfl
  | null => rfl
  | bool _ => rfl
  | array _ => cases h
  | object _ => cases h

/-- An internally tagged enum. -/
theorem settled_tagged {readers : List (String × (Json → Option α))}
    {grammars : List (String × Grammar)} (h : VariantsSettled tag readers grammars) :
    SettledBy (taggedEnum tag readers) (tagged tag grammars) := by
  intro json a hread
  obtain ⟨⟨value, content⟩, hsplit, hread⟩ := Option.bind_eq_some_iff.mp hread
  obtain ⟨read, hvariant, hread⟩ := Option.bind_eq_some_iff.mp hread
  obtain ⟨grammar, hgrammar, hsettled⟩ := h.variantOf hvariant
  rw [tagged, hsplit, Option.bind_some, hgrammar]
  exact hsettled hsplit (isScalar_of_variantOf hvariant) hread

end Readers

/-! ### The readers of the format -/

theorem settled_string : SettledBy readString leaf := by
  refine settled_leaf fun json value h => ?_
  cases json with
  | string _ => rfl
  | null => rfl
  | bool _ => rfl
  | number _ => rfl
  | array _ => cases h
  | object _ => cases h

theorem settled_unsigned {bound : Nat} : SettledBy (readUnsigned bound) leaf := by
  refine settled_leaf fun json value h => ?_
  cases json with
  | number _ => rfl
  | null => rfl
  | bool _ => rfl
  | string _ => rfl
  | array _ => cases h
  | object _ => cases h

theorem settled_u16 : SettledBy readU16 leaf := settled_unsigned.map

theorem settled_u32 : SettledBy readU32 leaf := settled_unsigned.map

theorem settled_u64 : SettledBy readU64 leaf := settled_unsigned.map

theorem settled_decimal : SettledBy DecimalU64.fromContent leaf := settled_string.bind

theorem settled_base64 : SettledBy Base64Bytes.fromContent leaf := settled_string.bind

theorem settled_digest : SettledBy Sha256Digest.fromContent leaf := settled_string.bind

theorem settled_hash : SettledBy OpaqueHash.fromContent OpaqueHash.grammar :=
  settled_tagged (.cons ⟨rfl, settled_field (by decide) settled_decimal⟩
    (.cons ⟨rfl, settled_field (by decide) settled_base64⟩ .nil))

theorem settled_baseline : SettledBy Baseline.fromContent Baseline.grammar :=
  settled_tagged (.cons ⟨rfl, settled_unit⟩ (.cons ⟨rfl, settled_unit⟩ .nil))

theorem settled_group : SettledBy CacheGroup.fromContent CacheGroup.grammar :=
  settled_tagged (.cons ⟨rfl, settled_field (by decide) settled_u32⟩
    (.cons ⟨rfl, settled_unit⟩ .nil))

theorem settled_medium : SettledBy StorageMedium.fromContent StorageMedium.grammar :=
  settled_tagged (.cons ⟨rfl, settled_field (by decide) settled_string⟩
    (.cons ⟨rfl, settled_unit⟩ .nil))

theorem settled_lineage : SettledBy Lineage.fromContent Lineage.grammar :=
  settled_tagged (.cons ⟨rfl, settled_field (by decide) settled_hash⟩
    (.cons ⟨rfl, settled_unit⟩ .nil))

theorem settled_evidence : SettledBy TokenEvidence.fromContent TokenEvidence.grammar := by
  refine settled_tagged (.cons ⟨rfl, ?_⟩ (.cons ⟨rfl, ?_⟩
    (.cons ⟨rfl, settled_field (by decide) (settled_listOf settled_u32)⟩ .nil)))
  · intro json value content a hsplit hvalue h
    simp only [Option.bind_eq_bind, Option.bind_eq_some_iff] at h
    obtain ⟨get, hget, algorithm, halgorithm, keyId, hkeyId, digest, hdigest, -⟩ := h
    refine settled_variant hsplit hvalue hget (by decide) (by decide) ?_ (List.forall_mem_nil _)
    simp only [List.forall_mem_cons]
    exact ⟨filled_required halgorithm settled_label, filled_required hkeyId settled_string,
      filled_required hdigest settled_digest, List.forall_mem_nil _⟩
  · intro json value content a hsplit hvalue h
    simp only [Option.bind_eq_bind, Option.bind_eq_some_iff] at h
    obtain ⟨get, hget, algorithm, halgorithm, digest, hdigest, -⟩ := h
    refine settled_variant hsplit hvalue hget (by decide) (by decide) ?_ (List.forall_mem_nil _)
    simp only [List.forall_mem_cons]
    exact ⟨filled_required halgorithm settled_label, filled_required hdigest settled_digest,
      List.forall_mem_nil _⟩

theorem settled_storeRun : VariantSettledBy "op" StoreRun.fromContent StoreRun.grammar := by
  intro json value content run hsplit hvalue h
  obtain ⟨get, hget, h⟩ := Option.bind_eq_some_iff.mp h
  obtain ⟨hashes, hhashes, h⟩ := Option.bind_eq_some_iff.mp h
  obtain ⟨lineage, hlineage, h⟩ := Option.bind_eq_some_iff.mp h
  obtain ⟨count, hcount, h⟩ := Option.bind_eq_some_iff.mp h
  obtain ⟨evidence, hevidence, h⟩ := Option.bind_eq_some_iff.mp h
  obtain ⟨size, hsize, h⟩ := Option.bind_eq_some_iff.mp h
  obtain ⟨group, hgroup, h⟩ := Option.bind_eq_some_iff.mp h
  obtain ⟨medium, hmedium, h⟩ := Option.bind_eq_some_iff.mp h
  obtain ⟨blocks, hblocks, h⟩ := Option.bind_eq_some_iff.mp h
  obtain ⟨metadata, hmetadata, -⟩ := Option.bind_eq_some_iff.mp h
  refine settled_variant hsplit hvalue hget (by decide) (by decide) ?_ ?_
  · simp only [List.forall_mem_cons]
    exact ⟨filled_required hhashes (settled_listOf settled_hash), filled_required hgroup settled_group,
      filled_required hmedium settled_medium, filled_required hmetadata settled_free,
      List.forall_mem_nil _⟩
  · simp only [List.forall_mem_cons]
    exact ⟨settled_present hlineage settled_lineage, settled_present hcount settled_u64,
      settled_present hevidence settled_evidence, settled_present hsize settled_u32,
      settled_present hblocks (settled_listOf settled_free), List.forall_mem_nil _⟩

theorem settled_mutation : SettledBy Mutation.fromContent Mutation.grammar := by
  refine settled_tagged (.cons ⟨rfl, settled_storeRun.map⟩ (.cons ⟨rfl, ?_⟩
    (.cons ⟨rfl, settled_field (by decide) settled_free⟩ .nil)))
  intro json value content a hsplit hvalue h
  simp only [Option.bind_eq_bind, Option.bind_eq_some_iff] at h
  obtain ⟨get, hget, hashes, hhashes, group, hgroup, medium, hmedium, metadata, hmetadata, -⟩ := h
  refine settled_variant hsplit hvalue hget (by decide) (by decide) ?_ (List.forall_mem_nil _)
  simp only [List.forall_mem_cons]
  exact ⟨filled_required hhashes (settled_listOf settled_hash), filled_required hgroup settled_group,
    filled_required hmedium settled_medium, filled_required hmetadata settled_free,
    List.forall_mem_nil _⟩

theorem settled_delivery : SettledBy DeliveryRef.fromContent DeliveryRef.grammar := by
  intro json delivery h
  simp only [DeliveryRef.fromContent, Option.bind_eq_bind, Option.bind_eq_some_iff] at h
  obtain ⟨get, hget, envelopeId, henvelopeId, occurrence, hoccurrence, -⟩ := h
  refine settled_fieldsOf hget (by decide) ?_ (List.forall_mem_nil _)
  simp only [List.forall_mem_cons]
  exact ⟨filled_required henvelopeId settled_string, filled_required hoccurrence settled_u16,
    List.forall_mem_nil _⟩

theorem settled_action : SettledBy FaultAction.fromContent FaultAction.grammar := by
  refine settled_tagged (.cons ⟨rfl, settled_field (by decide) settled_delivery⟩
    (.cons ⟨rfl, ?_⟩ (.cons ⟨rfl, ?_⟩ .nil)))
  · intro json value content a hsplit hvalue h
    simp only [Option.bind_eq_bind, Option.bind_eq_some_iff] at h
    obtain ⟨get, hget, target, htarget, copies, hcopies, -⟩ := h
    refine settled_variant hsplit hvalue hget (by decide) (by decide) ?_ (List.forall_mem_nil _)
    simp only [List.forall_mem_cons]
    exact ⟨filled_required htarget settled_delivery, filled_required hcopies settled_u16,
      List.forall_mem_nil _⟩
  · intro json value content a hsplit hvalue h
    simp only [Option.bind_eq_bind, Option.bind_eq_some_iff] at h
    obtain ⟨get, hget, target, htarget, anchor, hanchor, -⟩ := h
    refine settled_variant hsplit hvalue hget (by decide) (by decide) ?_ (List.forall_mem_nil _)
    simp only [List.forall_mem_cons]
    exact ⟨filled_required htarget settled_delivery, filled_required hanchor settled_delivery,
      List.forall_mem_nil _⟩

theorem settled_header : VariantSettledBy "kind" TraceHeader.fromContent TraceHeader.grammar := by
  intro json value content header hsplit hvalue h
  simp only [TraceHeader.fromContent, Option.bind_eq_bind, Option.bind_eq_some_iff] at h
  obtain ⟨get, hget, format, hformat, traceId, htraceId, redaction, hredaction, createdBy,
    hcreatedBy, extensions, hextensions, -⟩ := h
  refine settled_variant hsplit hvalue hget (by decide) (by decide) ?_ (List.forall_mem_nil _)
  simp only [List.forall_mem_cons]
  exact ⟨filled_required hformat settled_string, filled_required htraceId settled_string,
    filled_required hredaction settled_label, filled_required hcreatedBy settled_string,
    filled_required hextensions settled_free, List.forall_mem_nil _⟩

theorem settled_stream :
    VariantSettledBy "kind" StreamDeclaration.fromContent StreamDeclaration.grammar := by
  intro json value content stream hsplit hvalue h
  obtain ⟨get, hget, h⟩ := Option.bind_eq_some_iff.mp h
  obtain ⟨streamId, hstreamId, h⟩ := Option.bind_eq_some_iff.mp h
  obtain ⟨engine, hengine, h⟩ := Option.bind_eq_some_iff.mp h
  obtain ⟨version, hversion, h⟩ := Option.bind_eq_some_iff.mp h
  obtain ⟨engineInstance, hinstance, h⟩ := Option.bind_eq_some_iff.mp h
  obtain ⟨publisher, hpublisher, h⟩ := Option.bind_eq_some_iff.mp h
  obtain ⟨rank, hrank, h⟩ := Option.bind_eq_some_iff.mp h
  obtain ⟨epoch, hepoch, h⟩ := Option.bind_eq_some_iff.mp h
  obtain ⟨cursor, hcursor, h⟩ := Option.bind_eq_some_iff.mp h
  obtain ⟨baseline, hbaseline, h⟩ := Option.bind_eq_some_iff.mp h
  obtain ⟨workers, hworkers, h⟩ := Option.bind_eq_some_iff.mp h
  obtain ⟨extensions, hextensions, -⟩ := Option.bind_eq_some_iff.mp h
  refine settled_variant hsplit hvalue hget (by decide) (by decide) ?_ ?_
  · simp only [List.forall_mem_cons]
    exact ⟨filled_required hstreamId settled_string, filled_required hengine settled_string,
      filled_required hversion settled_string, filled_required hinstance settled_string,
      filled_required hpublisher settled_string, filled_required hrank settled_u32,
      filled_required hepoch settled_string, filled_required hcursor settled_decimal,
      filled_required hbaseline settled_baseline, filled_required hextensions settled_free,
      List.forall_mem_nil _⟩
  · exact List.forall_mem_singleton.mpr (settled_orEmpty hworkers (settled_listOf settled_string))

theorem settled_envelope :
    VariantSettledBy "kind" EventEnvelope.fromContent EventEnvelope.grammar := by
  intro json value content envelope hsplit hvalue h
  simp only [EventEnvelope.fromContent, Option.bind_eq_bind, Option.bind_eq_some_iff] at h
  obtain ⟨get, hget, envelopeId, henvelopeId, streamId, hstreamId, cursor, hcursor, origin,
    horigin, mutations, hmutations, extensions, hextensions, -⟩ := h
  refine settled_variant hsplit hvalue hget (by decide) (by decide) ?_ (List.forall_mem_nil _)
  simp only [List.forall_mem_cons]
  exact ⟨filled_required henvelopeId settled_string, filled_required hstreamId settled_string,
    filled_required hcursor settled_decimal, filled_required horigin settled_label,
    filled_required hmutations (settled_listOf settled_mutation),
    filled_required hextensions settled_free, List.forall_mem_nil _⟩

theorem settled_schedule :
    VariantSettledBy "kind" FaultSchedule.fromContent FaultSchedule.grammar := by
  intro json value content schedule hsplit hvalue h
  simp only [FaultSchedule.fromContent, Option.bind_eq_bind, Option.bind_eq_some_iff] at h
  obtain ⟨get, hget, scheduleId, hscheduleId, actions, hactions, extensions, hextensions, -⟩ := h
  refine settled_variant hsplit hvalue hget (by decide) (by decide) ?_ (List.forall_mem_nil _)
  simp only [List.forall_mem_cons]
  exact ⟨filled_required hscheduleId settled_string,
    filled_required hactions (settled_listOf settled_action),
    filled_required hextensions settled_free, List.forall_mem_nil _⟩

/-- The readers of records, whose tag is a label. -/
theorem settled_record : SettledBy fromValue Record.grammar := by
  have hvariants : VariantsSettled "kind" Record.variants Record.grammars :=
    .cons ⟨rfl, settled_header.map⟩ (.cons ⟨rfl, settled_stream.map⟩
      (.cons ⟨rfl, settled_envelope.map⟩ (.cons ⟨rfl, settled_schedule.map⟩ .nil)))
  intro json record h
  obtain ⟨⟨value, content⟩, hsplit, h⟩ := Option.bind_eq_some_iff.mp h
  obtain ⟨read, hvariant, hread⟩ := Option.bind_eq_some_iff.mp h
  -- the tag of a record is a label, which is one way to select a variant
  have htag : variantOf Record.variants value = some read := by
    cases value with
    | string label => exact hvariant
    | null => cases hvariant
    | bool _ => cases hvariant
    | number _ => cases hvariant
    | array _ => cases hvariant
    | object _ => cases hvariant
  refine settled_tagged hvariants (a := record) ?_
  rw [taggedEnum, hsplit, Option.bind_some, htag, Option.bind_some]
  exact hread

/-! ### Lines -/

/-- A line that is decoded is closed, unless a sequence stands in place of a
struct or an enum, a member beside the tag of a unit variant, or an object in
place of a label. -/
theorem decoded_closed_iff {reader : Reader} {limits : Limits} {input : List UInt8}
    {record : ValidatedRecord} (h : decodeLine reader fromValue input limits = .ok record) :
    ∃ json, decodeValue reader (withoutTerminator input) limits = .ok json ∧
      fromValue json = some record.asRecord ∧ (ClosedLine json ↔ RegularLine json) := by
  obtain ⟨json, hvalue, hrecord⟩ := (decodeLine_eq_ok.mp h).value
  refine ⟨json, hvalue, hrecord, ?_⟩
  have hsettled := settled_record hrecord
  exact ⟨fun hclosed place hplace => (hsettled place hplace).mp (hclosed place hplace),
    fun hregular place hplace => (hsettled place hplace).mpr (hregular place hplace)⟩

/-! ### A member too many -/

namespace Sample

/-- A stream whose baseline has a member that the format does not know. -/
def strayStream : Json := .object [
  ("baseline", .object [("kind", .string "unknown_at_attach"), ("x", .number 1)]),
  ("data_parallel_rank", .number 0), ("engine", .string "engine"),
  ("engine_instance", .string "instance"), ("engine_version", .string "1"),
  ("epoch", .string "epoch"), ("extensions", .object []), ("initial_cursor", .string "0"),
  ("kind", .string "stream"), ("publisher", .string "publisher"), ("stream_id", .string "stream")]

/-- A parser of its line. -/
def strayReader : Reader := twoTexts strayStream strayStream

/-- The record it is decoded to. -/
def attachedStream : StreamDeclaration where
  streamId := "stream"
  engine := "engine"
  engineVersion := "1"
  engineInstance := "instance"
  publisher := "publisher"
  dataParallelRank := 0
  epoch := "epoch"
  initialCursor := ⟨0⟩
  baseline := .unknownAtAttach
  workerMetadata := []
  extensions := []

theorem stray_prints : Prints strayReader (printed strayStream) strayStream := by
  have hsorted : strayStream.sorted = strayStream := rfl
  refine hsorted ▸ twoTexts_prints (if_pos rfl) rfl ?_ ?_ ?_ ?_ ?_
  · unfold PlainTree Json.Every
    decide +kernel
  · unfold Json.DistinctKeys
    decide +kernel
  · decide +kernel
  · decide +kernel
  · decide +kernel

theorem strayStream_printable : Printable strayStream := by
  refine printable_object ?_ ?_
  · decide +kernel
  · simp only [List.forall_mem_cons]
    refine ⟨printable_object (by decide +kernel) ?_, printable_number (by decide), printable_string _,
      printable_string _, printable_string _, printable_string _,
      printable_object List.Pairwise.nil (List.forall_mem_nil _), printable_string _,
      printable_string _, printable_string _, printable_string _, List.forall_mem_nil _⟩
    exact List.forall_mem_cons.mpr ⟨printable_string _,
      List.forall_mem_singleton.mpr (printable_number (by decide))⟩

theorem attachedStream_valid : (Record.stream attachedStream).validate Limits.default = .ok () := by
  decide +kernel

theorem attachedStream_validated :
    ∃ limits, (Record.stream attachedStream).validate limits = .ok () :=
  ⟨Limits.default, attachedStream_valid⟩

end Sample

/-- The line of a stream is decoded although its baseline has a member that the
format does not know. -/
theorem unknown_member_decoded :
    Prints Sample.strayReader (printed Sample.strayStream) Sample.strayStream ∧
      decodeLine Sample.strayReader fromValue (printed Sample.strayStream ++ [10]) Limits.default =
        .ok ⟨.stream Sample.attachedStream, Sample.attachedStream_validated⟩ ∧
      decodeValue Sample.strayReader (printed Sample.strayStream) Limits.default =
        .ok Sample.strayStream ∧
      ¬ ClosedLine Sample.strayStream := by
  have hprint : Printable Sample.strayStream := Sample.strayStream_printable
  have hbudgets : WithinBudgets Limits.default Sample.strayStream := by
    constructor <;> decide +kernel
  have hrecord : fromValue Sample.strayStream = some (.stream Sample.attachedStream) := by
    rfl
  refine ⟨Sample.stray_prints, ?_, ?_, ?_⟩
  · exact decodeLine_printed Sample.stray_prints hprint hrecord (by decide)
      Sample.attachedStream_valid (by decide +kernel) hbudgets
  · exact (Sample.stray_prints.decodeValue_eq_ok hprint (by decide)).mpr ⟨hbudgets, rfl⟩
  · decide +kernel

/-- The line of the schedule is regular, and hence closed. -/
theorem decoded_closed_schedule :
    decodeValue (Sample.twoTexts Sample.declared Sample.inOrder) (printed Sample.inOrder)
        Limits.default = .ok Sample.inOrder ∧
      RegularLine Sample.inOrder ∧ ClosedLine Sample.inOrder := by
  have hpayload : withoutTerminator (printed Sample.inOrder ++ [10]) = printed Sample.inOrder := by
    decide +kernel
  have hprints : Prints (Sample.twoTexts Sample.declared Sample.inOrder) (printed Sample.inOrder)
      Sample.inOrder := by
    have htext : Sample.serde.canonical.text Sample.inOrder = printed Sample.inOrder := by
      simp [Sample.serde, Canonicalizer.text]
    exact htext ▸ Sample.serde_faithful.canonical_prints
  obtain ⟨json, hvalue, -, hiff⟩ := decoded_closed_iff
    (decodeLine_encoded Sample.schedule_ordered Sample.serde_faithful Sample.encodeLine_schedule)
  rw [hpayload] at hvalue
  obtain ⟨-, rfl⟩ := (hprints.decodeValue_eq_ok
    (Record.printable Sample.schedule_valid Sample.schedule_ordered) (by decide)).mp hvalue
  have hregular : RegularLine Sample.inOrder := by
    decide +kernel
  exact ⟨hvalue, hregular, hiff.mpr hregular⟩

end KvCrucible
