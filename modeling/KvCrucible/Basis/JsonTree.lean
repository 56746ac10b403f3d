/-
KvCrucible/Basis/JsonTree.lean

JSON values as trees.

An object lists its members.  In a document they stand in any order and may
repeat a key; `sorted` is the value as a map keeps it, with the members of
every object in key order.  `nodes` lists all values of a tree with their
depths, and whatever is counted or bounded in a tree is said about its nodes.

`Json.inductionOn` is the induction over a tree: the cases of the containers
have the statement for all their children.
-/
import Mathlib

namespace Basis

/-- A JSON value. -/
inductive Json where
  | null
  | bool (value : Bool)
  | number (value : Int)
  | string (value : String)
  | array (items : List Json)
  | object (members : List (String × Json))

namespace Json

/-- Induction over a tree. -/
theorem inductionOn {P : Json → Prop} (tree : Json) (null : P .null) (bool : ∀ b, P (.bool b))
    (number : ∀ n, P (.number n)) (string : ∀ s, P (.string s))
    (array : ∀ items, (∀ item ∈ items, P item) → P (.array items))
    (object : ∀ members, (∀ member ∈ members, P member.2) → P (.object members)) : P tree :=
  @Json.rec P (fun items => ∀ item ∈ items, P item) (fun members => ∀ member ∈ members, P member.2)
    (fun member => P member.2) null bool number string array object (List.forall_mem_nil _)
    (fun _ _ hitem hrest => List.forall_mem_cons.mpr ⟨hitem, hrest⟩) (List.forall_mem_nil _)
    (fun _ _ hmember hrest => List.forall_mem_cons.mpr ⟨hmember, hrest⟩) (fun _ _ hvalue => hvalue)
    tree

/-! ### Maps -/

section Members

variable {α : Type*}

/-- Insertion into a list of members in key order. -/
def insertMember (key : String) (value : α) : List (String × α) → List (String × α)
  | [] => [(key, value)]
  | member :: rest =>
      if key < member.1 then (key, value) :: member :: rest
      else if key = member.1 then (key, value) :: rest
      else member :: insertMember key value rest

variable {key : String} {value : α} {members : List (String × α)}

/-- A new key is added. -/
theorem insertMember_perm (h : key ∉ members.map Prod.fst) :
    (insertMember key value members).Perm ((key, value) :: members) := by
  induction members with
  | nil => rfl
  | cons member rest ih =>
      rw [List.map_cons, List.mem_cons, not_or] at h
      obtain ⟨hne, hrest⟩ := h
      rw [insertMember]
      by_cases hlt : key < member.1
      · rw [if_pos hlt]
      · rw [if_neg hlt, if_neg hne]
        exact ((ih hrest).cons member).trans (List.Perm.swap _ _ _)

theorem mem_keys_insertMember {k : String} :
    k ∈ (insertMember key value members).map Prod.fst ↔ k = key ∨ k ∈ members.map Prod.fst := by
  induction members with
  | nil => simp [insertMember]
  | cons member rest ih =>
      rw [insertMember]
      by_cases hlt : key < member.1
      · simp [hlt]
      · rw [if_neg hlt]
        by_cases heq : key = member.1
        · simp [heq]
        · rw [if_neg heq, List.map_cons, List.mem_cons, ih, List.map_cons, List.mem_cons]
          tauto

end Members

mutual

/-- The value as a map keeps it: the members of every object in key order. -/
def sorted : Json → Json
  | .array items => .array (sortedItems items)
  | .object members => .object (sortedMembers [] members)
  | .null => .null
  | .bool value => .bool value
  | .number value => .number value
  | .string value => .string value

/-- The items of an array, each sorted. -/
def sortedItems : List Json → List Json
  | [] => []
  | item :: rest => item.sorted :: sortedItems rest

/-- The members of an object, inserted one after another. -/
def sortedMembers (entries : List (String × Json)) : List (String × Json) → List (String × Json)
  | [] => entries
  | member :: rest => sortedMembers (insertMember member.1 member.2.sorted entries) rest

end

/-! ### Nodes -/

mutual

/-- The values of a tree with their depths, from `depth` on. -/
def nodes (depth : Nat) : Json → List (Json × Nat)
  | .array items => (.array items, depth) :: nodesOfItems (depth + 1) items
  | .object members => (.object members, depth) :: nodesOfMembers (depth + 1) members
  | .null => [(.null, depth)]
  | .bool value => [(.bool value, depth)]
  | .number value => [(.number value, depth)]
  | .string value => [(.string value, depth)]

/-- The values below an array. -/
def nodesOfItems (depth : Nat) : List Json → List (Json × Nat)
  | [] => []
  | item :: rest => item.nodes depth ++ nodesOfItems depth rest

/-- The values below an object. -/
def nodesOfMembers (depth : Nat) : List (String × Json) → List (Json × Nat)
  | [] => []
  | member :: rest => member.2.nodes depth ++ nodesOfMembers depth rest

end

/-- The strings a node holds itself: its value or its keys. -/
def texts : Json → List String
  | .string value => [value]
  | .object members => members.map Prod.fst
  | _ => []

/-- The number of items of a node. -/
def itemCount : Json → Nat
  | .array items => items.length
  | _ => 0

/-- The keys of a node. -/
def keys : Json → List String
  | .object members => members.map Prod.fst
  | _ => []

/-- How many values a list of nodes has. -/
def valueCount (tree : Json) : Nat := (tree.nodes 1).length

/-- The bytes of all strings and keys of a list of nodes. -/
def textBytes (nodes : List (Json × Nat)) : Nat :=
  ((nodes.flatMap fun node => node.1.texts).map String.utf8ByteSize).sum

/-- The bytes of all strings and keys of a tree. -/
def stringBytes (tree : Json) : Nat := textBytes (tree.nodes 1)

theorem textBytes_append (xs ys : List (Json × Nat)) :
    textBytes (xs ++ ys) = textBytes xs + textBytes ys := by
  simp [textBytes]

theorem textBytes_cons (node : Json × Nat) (nodes : List (Json × Nat)) :
    textBytes (node :: nodes) = (node.1.texts.map String.utf8ByteSize).sum + textBytes nodes := by
  simp [textBytes]

theorem nodesOfItems_eq (depth : Nat) (items : List Json) :
    nodesOfItems depth items = items.flatMap fun item => item.nodes depth := by
  induction items with
  | nil => rfl
  | cons item items ih => rw [nodesOfItems, ih, List.flatMap_cons]

theorem nodesOfMembers_eq (depth : Nat) (members : List (String × Json)) :
    nodesOfMembers depth members = members.flatMap fun member => member.2.nodes depth := by
  induction members with
  | nil => rfl
  | cons member members ih => rw [nodesOfMembers, ih, List.flatMap_cons]

/-- The nodes of a tree further down are further down. -/
theorem nodes_add (tree : Json) (k : Nat) : ∀ depth,
    tree.nodes (depth + k) = (tree.nodes depth).map fun node => (node.1, node.2 + k) := by
  induction tree using inductionOn with
  | null => exact fun _ => rfl
  | bool b => exact fun _ => rfl
  | number n => exact fun _ => rfl
  | string s => exact fun _ => rfl
  | array items ih =>
      intro depth
      rw [nodes, nodes, nodesOfItems_eq, nodesOfItems_eq, List.map_cons, List.map_flatMap]
      congr 1
      refine List.flatMap_congr fun item hitem => ?_
      rw [← ih item hitem, Nat.add_right_comm]
  | object members ih =>
      intro depth
      rw [nodes, nodes, nodesOfMembers_eq, nodesOfMembers_eq, List.map_cons, List.map_flatMap]
      congr 1
      refine List.flatMap_congr fun member hmember => ?_
      rw [← ih member hmember, Nat.add_right_comm]

theorem length_nodes (tree : Json) (depth : Nat) : (tree.nodes depth).length = tree.valueCount := by
  have h : ∀ depth, (tree.nodes depth).length = (tree.nodes 0).length := by
    intro depth
    have hadd := tree.nodes_add depth 0
    rw [Nat.zero_add] at hadd
    rw [hadd, List.length_map]
  rw [valueCount, h depth, h 1]

theorem textBytes_nodes (tree : Json) (depth : Nat) :
    textBytes (tree.nodes depth) = tree.stringBytes := by
  have h : ∀ depth, textBytes (tree.nodes depth) = textBytes (tree.nodes 0) := by
    intro depth
    have hadd := tree.nodes_add depth 0
    rw [Nat.zero_add] at hadd
    rw [hadd, textBytes, textBytes, List.flatMap_map]
  rw [stringBytes, h depth, h 1]

/-! ### Scalars -/

/-- A value without strings and children. -/
inductive IsScalar : Json → Prop
  | null : IsScalar .null
  | bool (value : Bool) : IsScalar (.bool value)
  | number (value : Int) : IsScalar (.number value)

theorem IsScalar.sorted_eq {tree : Json} (h : IsScalar tree) : tree.sorted = tree := by
  cases h <;> rfl

theorem IsScalar.nodes_eq {tree : Json} (h : IsScalar tree) (depth : Nat) :
    tree.nodes depth = [(tree, depth)] := by
  cases h <;> rfl

theorem IsScalar.valueCount_eq {tree : Json} (h : IsScalar tree) : tree.valueCount = 1 := by
  rw [valueCount, h.nodes_eq, List.length_singleton]

theorem IsScalar.stringBytes_eq {tree : Json} (h : IsScalar tree) : tree.stringBytes = 0 := by
  rw [stringBytes, h.nodes_eq]
  cases h <;> rfl

/-! ### Counting below a container -/

theorem valueCount_array (items : List Json) :
    (Json.array items).valueCount = 1 + (items.map valueCount).sum := by
  rw [valueCount, nodes, List.length_cons, nodesOfItems_eq, List.length_flatMap, Nat.add_comm]
  simp only [length_nodes]

theorem valueCount_object (members : List (String × Json)) : (Json.object members).valueCount =
    1 + (members.map fun member => member.2.valueCount).sum := by
  rw [valueCount, nodes, List.length_cons, nodesOfMembers_eq, List.length_flatMap, Nat.add_comm]
  simp only [length_nodes]

theorem textBytes_flatMap {α : Type*} (xs : List α) (f : α → List (Json × Nat)) :
    textBytes (xs.flatMap f) = (xs.map fun x => textBytes (f x)).sum := by
  induction xs with
  | nil => rfl
  | cons x xs ih => rw [List.flatMap_cons, textBytes_append, ih, List.map_cons, List.sum_cons]

theorem stringBytes_array (items : List Json) :
    (Json.array items).stringBytes = (items.map stringBytes).sum := by
  rw [stringBytes, nodes, textBytes_cons, nodesOfItems_eq, textBytes_flatMap]
  simp only [textBytes_nodes]
  exact Nat.zero_add _

theorem stringBytes_object (members : List (String × Json)) : (Json.object members).stringBytes =
    (members.map fun member => member.1.utf8ByteSize + member.2.stringBytes).sum := by
  rw [stringBytes, nodes, textBytes_cons, nodesOfMembers_eq, textBytes_flatMap]
  simp only [textBytes_nodes]
  rw [List.sum_map_add]
  show ((members.map Prod.fst).map String.utf8ByteSize).sum + _ = _
  rw [List.map_map]
  rfl

/-! ### Nodes of a sorted value -/

theorem sortedItems_eq (items : List Json) : sortedItems items = items.map sorted := by
  induction items with
  | nil => rfl
  | cons item items ih => rw [sortedItems, ih, List.map_cons]

/-- Distinct members are kept by insertion. -/
theorem sortedMembers_perm {members : List (String × Json)} :
    ∀ {entries : List (String × Json)}, (entries.map Prod.fst ++ members.map Prod.fst).Nodup →
      (sortedMembers entries members).Perm
        (entries ++ members.map fun member => (member.1, member.2.sorted)) := by
  induction members with
  | nil =>
      intro entries _
      rw [sortedMembers, List.map_nil, List.append_nil]
  | cons member members ih =>
      intro entries h
      rw [List.map_cons, List.nodup_middle] at h
      obtain ⟨hnew, hrest⟩ := List.nodup_cons.mp h
      have hfresh : member.1 ∉ entries.map Prod.fst :=
        fun hmem => hnew (List.mem_append_left _ hmem)
      have hperm := @insertMember_perm _ member.1 member.2.sorted entries hfresh
      have hkeys : ((insertMember member.1 member.2.sorted entries).map Prod.fst ++
          members.map Prod.fst).Nodup := by
        refine (List.Perm.nodup_iff ?_).mpr h
        exact (hperm.map Prod.fst).append_right _
      rw [sortedMembers, List.map_cons]
      refine (ih hkeys).trans ((hperm.append_right _).trans ?_)
      exact List.perm_middle.symm

/-- No object of a tree repeats a key. -/
def DistinctKeys (tree : Json) : Prop := ∀ node ∈ tree.nodes 1, node.1.keys.Nodup

theorem distinctKeys_iff {tree : Json} (depth : Nat) :
    tree.DistinctKeys ↔ ∀ node ∈ tree.nodes depth, node.1.keys.Nodup := by
  have h : ∀ depth, (∀ node ∈ tree.nodes depth, node.1.keys.Nodup) ↔
      ∀ node ∈ tree.nodes 0, node.1.keys.Nodup := by
    intro depth
    have hadd := tree.nodes_add depth 0
    rw [Nat.zero_add] at hadd
    rw [hadd, List.forall_mem_map]
  rw [DistinctKeys, h 1, h depth]

theorem DistinctKeys.item {items : List Json} (h : (Json.array items).DistinctKeys) {item : Json}
    (hitem : item ∈ items) : item.DistinctKeys := by
  rw [distinctKeys_iff 2]
  intro node hnode
  refine h node ?_
  rw [nodes, nodesOfItems_eq]
  exact List.mem_cons_of_mem _ (List.mem_flatMap.mpr ⟨item, hitem, hnode⟩)

theorem DistinctKeys.member {members : List (String × Json)}
    (h : (Json.object members).DistinctKeys) {member : String × Json} (hmember : member ∈ members) :
    member.2.DistinctKeys := by
  rw [distinctKeys_iff 2]
  intro node hnode
  refine h node ?_
  rw [nodes, nodesOfMembers_eq]
  exact List.mem_cons_of_mem _ (List.mem_flatMap.mpr ⟨member, hmember, hnode⟩)

theorem DistinctKeys.keys {tree : Json} (h : tree.DistinctKeys) : tree.keys.Nodup := by
  cases tree with
  | object members => exact h _ List.mem_cons_self
  | null => exact List.nodup_nil
  | bool _ => exact List.nodup_nil
  | number _ => exact List.nodup_nil
  | string _ => exact List.nodup_nil
  | array _ => exact List.nodup_nil

/-- A sorted value has the sorted values of the tree for nodes. -/
theorem nodes_sorted {tree : Json} : ∀ {depth : Nat}, tree.DistinctKeys →
    (tree.sorted.nodes depth).Perm
      ((tree.nodes depth).map fun node => (node.1.sorted, node.2)) := by
  induction tree using inductionOn with
  | null => exact fun _ => .refl _
  | bool b => exact fun _ => .refl _
  | number n => exact fun _ => .refl _
  | string s => exact fun _ => .refl _
  | array items ih =>
      intro depth h
      rw [sorted, nodes, nodes, nodesOfItems_eq, nodesOfItems_eq, sortedItems_eq, List.map_cons,
        List.map_flatMap, List.flatMap_map, sorted, sortedItems_eq]
      refine List.Perm.cons _ (List.Perm.flatMap_left _ fun item hitem => ?_)
      exact ih item hitem (h.item hitem)
  | object members ih =>
      intro depth h
      have hperm : (sortedMembers [] members).Perm
          (members.map fun member => (member.1, member.2.sorted)) := sortedMembers_perm h.keys
      rw [sorted, nodes, nodes, nodesOfMembers_eq, nodesOfMembers_eq, List.map_cons,
        List.map_flatMap, sorted]
      refine List.Perm.cons _ ((hperm.flatMap_right _).trans ?_)
      rw [List.flatMap_map]
      exact List.Perm.flatMap_left _ fun member hmember => ih member hmember (h.member hmember)

theorem keys_sorted {tree : Json} (h : tree.keys.Nodup) : tree.sorted.keys.Perm tree.keys := by
  cases tree with
  | object members =>
      have hperm := (@sortedMembers_perm members [] h).map Prod.fst
      rw [List.nil_append, List.map_map] at hperm
      exact hperm
  | null => exact .refl _
  | bool _ => exact .refl _
  | number _ => exact .refl _
  | string _ => exact .refl _
  | array _ => exact .refl _

theorem texts_sorted {tree : Json} (h : tree.keys.Nodup) : tree.sorted.texts.Perm tree.texts := by
  cases tree with
  | object members => exact keys_sorted h
  | null => exact .refl _
  | bool _ => exact .refl _
  | number _ => exact .refl _
  | string _ => exact .refl _
  | array _ => exact .refl _

theorem itemCount_sorted (tree : Json) : tree.sorted.itemCount = tree.itemCount := by
  cases tree with
  | array items =>
      show (sortedItems items).length = items.length
      rw [sortedItems_eq, List.length_map]
  | null => rfl
  | bool _ => rfl
  | number _ => rfl
  | string _ => rfl
  | object _ => rfl

theorem valueCount_sorted {tree : Json} (h : tree.DistinctKeys) :
    tree.sorted.valueCount = tree.valueCount := by
  rw [valueCount, (nodes_sorted h).length_eq, List.length_map]
  rfl

theorem stringBytes_sorted {tree : Json} (h : tree.DistinctKeys) :
    tree.sorted.stringBytes = tree.stringBytes := by
  have hperm : ((tree.sorted.nodes 1).flatMap fun node => node.1.texts).Perm
      ((tree.nodes 1).flatMap fun node => node.1.texts) := by
    refine ((nodes_sorted h).flatMap_right _).trans ?_
    rw [List.flatMap_map]
    exact List.Perm.flatMap_left _ fun node hnode => texts_sorted (h node hnode)
  exact (hperm.map _).sum_eq

end Json

end Basis
