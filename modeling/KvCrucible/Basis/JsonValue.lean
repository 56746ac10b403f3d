/-
KvCrucible/Basis/JsonValue.lean

The value a JSON text stands for.

`Syntax.decoded` is the tree of a value as it was written, with the members
of objects in document order.  How the body of a string is decoded is a
parameter; a literal with fraction or exponent has no value here.

A decoded tree is no larger than its text: every value takes a byte of its
own and every string at least its bytes (`Derives.size`).
-/
import KvCrucible.Basis.JsonText
import KvCrucible.Basis.JsonTree

namespace Basis

namespace JsonText

/-- The number an integer literal stands for. -/
def NumberLiteral.value (n : NumberLiteral) : Int :=
  if n.negative then -(n.magnitude : Int) else n.magnitude

namespace Syntax

/-- Induction over a value as it is written. -/
theorem inductionOn {P : Syntax → Prop} (value : Syntax) (null : P .null)
    (bool : ∀ b, P (.bool b)) (number : ∀ n, P (.number n)) (string : ∀ body, P (.string body))
    (array : ∀ items, (∀ item ∈ items, P item) → P (.array items))
    (object : ∀ members, (∀ member ∈ members, P member.2) → P (.object members)) : P value :=
  @Syntax.rec P (fun items => ∀ item ∈ items, P item)
    (fun members => ∀ member ∈ members, P member.2) (fun member => P member.2) null bool number
    string array object (List.forall_mem_nil _)
    (fun _ _ hitem hrest => List.forall_mem_cons.mpr ⟨hitem, hrest⟩) (List.forall_mem_nil _)
    (fun _ _ hmember hrest => List.forall_mem_cons.mpr ⟨hmember, hrest⟩) (fun _ _ hvalue => hvalue)
    value

variable (decode : List UInt8 → Option String)

mutual

/-- The tree of a value, in document order. -/
def decoded : Syntax → Option Json
  | .null => some .null
  | .bool value => some (.bool value)
  | .number literal => if literal.isInteger then some (.number literal.value) else none
  | .string body => (decode body).map .string
  | .array items => (decodedItems items).map .array
  | .object members => (decodedMembers members).map .object

/-- The trees of the items of an array. -/
def decodedItems : List Syntax → Option (List Json)
  | [] => some []
  | item :: items => item.decoded.bind fun tree => (decodedItems items).map (tree :: ·)

/-- The trees of the members of an object. -/
def decodedMembers : List (List UInt8 × Syntax) → Option (List (String × Json))
  | [] => some []
  | member :: members => (decode member.1).bind fun key =>
      member.2.decoded.bind fun tree => (decodedMembers members).map ((key, tree) :: ·)

end

variable {decode}

theorem decodedItems_cons {item : Syntax} {items : List Syntax} {trees : List Json} :
    decodedItems decode (item :: items) = some trees ↔ ∃ tree rest,
      item.decoded decode = some tree ∧ decodedItems decode items = some rest ∧
        trees = tree :: rest := by
  rw [decodedItems]
  constructor
  · intro h
    obtain ⟨tree, htree, h⟩ := Option.bind_eq_some_iff.mp h
    obtain ⟨rest, hrest, rfl⟩ := Option.map_eq_some_iff.mp h
    exact ⟨tree, rest, htree, hrest, rfl⟩
  · rintro ⟨tree, rest, htree, hrest, rfl⟩
    rw [htree, Option.bind_some, hrest, Option.map_some]

theorem decodedMembers_cons {member : List UInt8 × Syntax} {members : List (List UInt8 × Syntax)}
    {trees : List (String × Json)} : decodedMembers decode (member :: members) = some trees ↔
      ∃ key tree rest, decode member.1 = some key ∧ member.2.decoded decode = some tree ∧
        decodedMembers decode members = some rest ∧ trees = (key, tree) :: rest := by
  rw [decodedMembers]
  constructor
  · intro h
    obtain ⟨key, hkey, h⟩ := Option.bind_eq_some_iff.mp h
    obtain ⟨tree, htree, h⟩ := Option.bind_eq_some_iff.mp h
    obtain ⟨rest, hrest, rfl⟩ := Option.map_eq_some_iff.mp h
    exact ⟨key, tree, rest, hkey, htree, hrest, rfl⟩
  · rintro ⟨key, tree, rest, hkey, htree, hrest, rfl⟩
    rw [hkey, Option.bind_some, htree, Option.bind_some, hrest, Option.map_some]

theorem decoded_array {items : List Syntax} {trees : List Json}
    (h : decodedItems decode items = some trees) :
    (Syntax.array items).decoded decode = some (.array trees) := by
  rw [decoded, h, Option.map_some]

theorem decoded_object {members : List (List UInt8 × Syntax)} {trees : List (String × Json)}
    (h : decodedMembers decode members = some trees) :
    (Syntax.object members).decoded decode = some (.object trees) := by
  rw [decoded, h, Option.map_some]

end Syntax

/-! ### The size of a tree -/

theorem Blank.length_le {bs rest : List UInt8} (h : Blank bs rest) : rest.length ≤ bs.length := by
  induction h with
  | nil => exact Nat.le_refl _
  | cons _ _ ih => exact Nat.le_succ_of_le ih

theorem Quoted.length_eq {bs rest body : List UInt8} (h : Quoted bs rest body) :
    bs.length = body.length + rest.length + 2 := by
  rw [h.1, List.length_cons, List.length_append, List.length_cons]
  omega

theorem NumberLiteral.length_pos (n : NumberLiteral) : 0 < n.bytes.length := by
  have hinteger := List.length_pos_of_ne_nil n.canonical.ne_nil
  simp only [bytes, List.length_append]
  omega

/-- The container itself, which its elements and members stand in. -/
def Nonterminal.containers : Nonterminal → Nat
  | .value => 0
  | .elements => 1
  | .members => 1

/-- What a derivation has read is at least as long as its tree is large. -/
theorem Derives.size {decode : List UInt8 → Option String}
    (hdecode : ∀ body s, decode body = some s → s.utf8ByteSize ≤ body.length)
    {kind : Nonterminal} {bs rest : List UInt8} {value : Syntax} (h : Derives kind bs rest value) :
    ∀ {tree : Json}, value.decoded decode = some tree →
      tree.valueCount + rest.length ≤ bs.length + kind.containers ∧
        tree.stringBytes + rest.length ≤ bs.length := by
  -- One case for each rule; every premise is shorter by what its rule reads.
  induction h with
  | null =>
      rintro tree htree
      obtain rfl := Option.some.inj htree
      rw [Json.IsScalar.valueCount_eq (.null), Json.IsScalar.stringBytes_eq (.null)]
      simp only [Nonterminal.containers, List.length_cons]
      omega
  | true =>
      rintro tree htree
      obtain rfl := Option.some.inj htree
      rw [Json.IsScalar.valueCount_eq (.bool _), Json.IsScalar.stringBytes_eq (.bool _)]
      simp only [Nonterminal.containers, List.length_cons]
      omega
  | false =>
      rintro tree htree
      obtain rfl := Option.some.inj htree
      rw [Json.IsScalar.valueCount_eq (.bool _), Json.IsScalar.stringBytes_eq (.bool _)]
      simp only [Nonterminal.containers, List.length_cons]
      omega
  | number literal =>
      rintro tree htree
      have hpos := literal.length_pos
      rw [Syntax.decoded] at htree
      by_cases hinteger : literal.isInteger = Bool.true
      · rw [if_pos hinteger] at htree
        obtain rfl := Option.some.inj htree
        rw [Json.IsScalar.valueCount_eq (.number _), Json.IsScalar.stringBytes_eq (.number _),
          List.length_append]
        simp only [Nonterminal.containers]
        omega
      · rw [if_neg hinteger] at htree
        cases htree
  | string hquoted =>
      rintro tree htree
      rw [Syntax.decoded] at htree
      obtain ⟨s, hs, rfl⟩ := Option.map_eq_some_iff.mp htree
      have hle := hdecode _ s hs
      have hlength := hquoted.length_eq
      simp only [Json.valueCount, Json.stringBytes, Json.textBytes, Json.nodes, Json.texts,
        Nonterminal.containers, List.flatMap_singleton, List.map_singleton, List.sum_singleton,
        List.length_singleton]
      omega
  | emptyArray hblank =>
      rintro tree htree
      rw [Syntax.decoded, Syntax.decodedItems] at htree
      obtain rfl := Option.some.inj htree
      have hle := hblank.length_le
      rw [List.length_cons] at hle
      rw [Json.valueCount_array, Json.stringBytes_array]
      simp only [List.map_nil, List.sum_nil, Nonterminal.containers, List.length_cons]
      omega
  | array _ ih =>
      rintro tree htree
      obtain ⟨hvalues, hbytes⟩ := ih htree
      simp only [Nonterminal.containers, List.length_cons] at hvalues hbytes ⊢
      omega
  | emptyObject hblank =>
      rintro tree htree
      rw [Syntax.decoded, Syntax.decodedMembers] at htree
      obtain rfl := Option.some.inj htree
      have hle := hblank.length_le
      rw [List.length_cons] at hle
      rw [Json.valueCount_object, Json.stringBytes_object]
      simp only [List.map_nil, List.sum_nil, Nonterminal.containers, List.length_cons]
      omega
  | object _ ih =>
      rintro tree htree
      obtain ⟨hvalues, hbytes⟩ := ih htree
      simp only [Nonterminal.containers, List.length_cons] at hvalues hbytes ⊢
      omega
  | lastElement hbefore _ hafter ih =>
      rintro tree htree
      rw [Syntax.decoded] at htree
      obtain ⟨trees, htrees, rfl⟩ := Option.map_eq_some_iff.mp htree
      obtain ⟨item, rest, hitem, hrest, rfl⟩ := Syntax.decodedItems_cons.mp htrees
      rw [Syntax.decodedItems] at hrest
      obtain rfl := Option.some.inj hrest
      obtain ⟨hvalues, hbytes⟩ := ih hitem
      have hbefore := hbefore.length_le
      have hafter := hafter.length_le
      rw [Json.valueCount_array, Json.stringBytes_array]
      simp only [Nonterminal.containers, List.map_singleton, List.sum_singleton] at hvalues ⊢
      omega
  | element hbefore _ hafter _ ih ihrest =>
      rintro tree htree
      rw [Syntax.decoded] at htree
      obtain ⟨trees, htrees, rfl⟩ := Option.map_eq_some_iff.mp htree
      obtain ⟨item, rest, hitem, hrest, rfl⟩ := Syntax.decodedItems_cons.mp htrees
      obtain ⟨hvalues, hbytes⟩ := ih hitem
      obtain ⟨hvalues', hbytes'⟩ := ihrest (Syntax.decoded_array hrest)
      have hbefore := hbefore.length_le
      have hafter := hafter.length_le
      rw [Json.valueCount_array] at hvalues' ⊢
      rw [Json.stringBytes_array] at hbytes' ⊢
      simp only [Nonterminal.containers, List.map_cons, List.sum_cons, List.length_cons] at *
      omega
  | lastMember hbefore hkey hcolon hvalue _ hafter ih =>
      rintro tree htree
      rw [Syntax.decoded] at htree
      obtain ⟨trees, htrees, rfl⟩ := Option.map_eq_some_iff.mp htree
      obtain ⟨key, item, rest, hdecoded, hitem, hrest, rfl⟩ := Syntax.decodedMembers_cons.mp htrees
      rw [Syntax.decodedMembers] at hrest
      obtain rfl := Option.some.inj hrest
      obtain ⟨hvalues, hbytes⟩ := ih hitem
      have hle := hdecode _ key hdecoded
      have hbefore := hbefore.length_le
      have hkey := hkey.length_eq
      have hcolon := hcolon.length_le
      have hvalue := hvalue.length_le
      have hafter := hafter.length_le
      rw [Json.valueCount_object, Json.stringBytes_object]
      simp only [Nonterminal.containers, List.map_singleton, List.sum_singleton,
        List.length_cons] at *
      omega
  | member hbefore hkey hcolon hvalue _ hafter _ ih ihrest =>
      rintro tree htree
      rw [Syntax.decoded] at htree
      obtain ⟨trees, htrees, rfl⟩ := Option.map_eq_some_iff.mp htree
      obtain ⟨key, item, rest, hdecoded, hitem, hrest, rfl⟩ := Syntax.decodedMembers_cons.mp htrees
      obtain ⟨hvalues, hbytes⟩ := ih hitem
      obtain ⟨hvalues', hbytes'⟩ := ihrest (Syntax.decoded_object hrest)
      have hle := hdecode _ key hdecoded
      have hbefore := hbefore.length_le
      have hkey := hkey.length_eq
      have hcolon := hcolon.length_le
      have hvalue := hvalue.length_le
      have hafter := hafter.length_le
      rw [Json.valueCount_object] at hvalues' ⊢
      rw [Json.stringBytes_object] at hbytes' ⊢
      simp only [Nonterminal.containers, List.map_cons, List.sum_cons, List.length_cons] at *
      omega

end JsonText

end Basis
