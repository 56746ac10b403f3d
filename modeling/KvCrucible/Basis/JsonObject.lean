/-
KvCrucible/Basis/JsonObject.lean

Objects that stand for records, and properties of all values of a tree.

A record lists its fields with an optional value each; the object has those
that are present.  A field is found again by its key (`member?_ofFields`), so
that a record with all keys distinct is determined by its object.
-/
import KvCrucible.Basis.JsonTree

namespace Basis

namespace Json

/-! ### Every value of a tree -/

/-- Every value of a tree has a property. -/
def Every (P : Json → Prop) (tree : Json) : Prop := ∀ node ∈ tree.nodes 1, P node.1

section Every

variable {P : Json → Prop}

theorem every_iff {tree : Json} (depth : Nat) :
    tree.Every P ↔ ∀ node ∈ tree.nodes depth, P node.1 := by
  have h : ∀ depth, (∀ node ∈ tree.nodes depth, P node.1) ↔ ∀ node ∈ tree.nodes 0, P node.1 := by
    intro depth
    have hadd := tree.nodes_add depth 0
    rw [Nat.zero_add] at hadd
    rw [hadd, List.forall_mem_map]
  rw [Every, h 1, h depth]

theorem every_array {items : List Json} :
    (Json.array items).Every P ↔ P (.array items) ∧ ∀ item ∈ items, item.Every P := by
  rw [Every, nodes, nodesOfItems_eq, List.forall_mem_cons, List.forall_mem_flatMap]
  simp only [every_iff 2]

theorem every_object {members : List (String × Json)} : (Json.object members).Every P ↔
    P (.object members) ∧ ∀ member ∈ members, member.2.Every P := by
  rw [Every, nodes, nodesOfMembers_eq, List.forall_mem_cons, List.forall_mem_flatMap]
  simp only [every_iff 2]

theorem every_string {value : String} : (Json.string value).Every P ↔ P (.string value) :=
  List.forall_mem_singleton

theorem IsScalar.every {tree : Json} (h : tree.IsScalar) : tree.Every P ↔ P tree := by
  rw [Every, h.nodes_eq]
  exact List.forall_mem_singleton

end Every

/-! ### Records -/

/-- The fields of a record that are present. -/
def present (fields : List (String × Option Json)) : List (String × Json) :=
  fields.filterMap fun field => field.2.map (field.1, ·)

/-- The object of a record. -/
def ofFields (fields : List (String × Option Json)) : Json := .object (present fields)

/-- The value of a member. -/
def member? (key : String) : Json → Option Json
  | .object members => members.lookup key
  | _ => none

section Fields

variable {fields : List (String × Option Json)} {key : String}

theorem present_cons_some {value : Json} :
    present ((key, some value) :: fields) = (key, value) :: present fields := rfl

theorem present_cons_none : present ((key, none) :: fields) = present fields := rfl

theorem mem_present {member : String × Json} :
    member ∈ present fields ↔ (member.1, some member.2) ∈ fields := by
  rw [present, List.mem_filterMap]
  constructor
  · rintro ⟨field, hfield, h⟩
    obtain ⟨value, hvalue, rfl⟩ := Option.map_eq_some_iff.mp h
    rw [← hvalue]
    exact hfield
  · exact fun h => ⟨_, h, rfl⟩

/-- The keys of an object are among those of its record, in the same order. -/
theorem keys_present_sublist :
    ((present fields).map Prod.fst).Sublist (fields.map Prod.fst) := by
  induction fields with
  | nil => exact List.Sublist.refl _
  | cons field fields ih =>
      obtain ⟨key, _ | value⟩ := field
      · exact ih.cons key
      · exact ih.cons_cons key

theorem lookup_present_of_notMem (h : key ∉ fields.map Prod.fst) :
    (present fields).lookup key = none := by
  rw [List.lookup_eq_none_iff]
  intro member hmember
  rw [bne_iff_ne]
  rintro rfl
  exact h (List.mem_map.mpr ⟨_, mem_present.mp hmember, rfl⟩)

/-- A field is found by its key. -/
theorem member?_ofFields (h : (fields.map Prod.fst).Nodup) :
    (ofFields fields).member? key = (fields.lookup key).join := by
  rw [ofFields, member?]
  induction fields with
  | nil => rfl
  | cons field fields ih =>
      obtain ⟨name, value⟩ := field
      obtain ⟨hname, hrest⟩ := List.nodup_cons.mp h
      by_cases hkey : key = name
      · subst hkey
        rw [List.lookup_cons_self]
        cases value with
        | none =>
            rw [present_cons_none, lookup_present_of_notMem hname]
            rfl
        | some value =>
            rw [present_cons_some, List.lookup_cons_self]
            rfl
      · have hbeq : (key == name) = false := beq_false_of_ne hkey
        rw [List.lookup_cons, hbeq]
        show List.lookup key (present ((name, value) :: fields)) = (List.lookup key fields).join
        rw [← ih hrest]
        cases value with
        | none => rw [present_cons_none]
        | some value =>
            rw [present_cons_some, List.lookup_cons, hbeq]

/-- The object determines the record. -/
theorem present_inj (h : (fields.map Prod.fst).Nodup) : ∀ {fields' : List (String × Option Json)},
    fields.map Prod.fst = fields'.map Prod.fst → present fields = present fields' →
      fields = fields' := by
  -- a key that is absent on one side can only come back further down
  have hlost : ∀ {name : String} {value : Json} {members : List (String × Json)}
      {rest : List (String × Option Json)}, name ∉ rest.map Prod.fst →
        (name, value) :: members ≠ present rest := by
    intro name value members rest hname heq
    have hmem : (name, value) ∈ present rest := heq ▸ List.mem_cons_self
    exact hname (List.mem_map.mpr ⟨_, mem_present.mp hmem, rfl⟩)
  induction fields with
  | nil =>
      intro fields' hkeys _
      exact (List.map_eq_nil_iff.mp hkeys.symm).symm
  | cons field rest ih =>
      intro fields' hkeys heq
      obtain ⟨name, value⟩ := field
      obtain ⟨hname, hrest⟩ := List.nodup_cons.mp h
      cases fields' with
      | nil => cases hkeys
      | cons field' rest' =>
          obtain ⟨name', value'⟩ := field'
          obtain ⟨rfl, hnames⟩ : name = name' ∧ rest.map Prod.fst = rest'.map Prod.fst :=
            List.cons.inj hkeys
          have hname' : name ∉ rest'.map Prod.fst := fun hmem => hname (hnames ▸ hmem)
          cases value with
          | none =>
              cases value' with
              | none => rw [ih hrest hnames heq]
              | some value' =>
                  rw [present_cons_none, present_cons_some] at heq
                  exact absurd heq.symm (hlost hname)
          | some value =>
              cases value' with
              | none =>
                  rw [present_cons_none, present_cons_some] at heq
                  exact absurd heq (hlost hname')
              | some value' =>
                  obtain ⟨hvalue, htail⟩ := List.cons.inj heq
                  rw [(Prod.mk.inj hvalue).2, ih hrest hnames htail]

end Fields

end Json

end Basis
