/-
KvCrucible/Basis/JsonPrint.lean

Trees as texts without white space and without escapes.

`printed` is the text of a tree, `written` the value it is written as.  When
no string of the tree needs an escape, the text is that value
(`derives_printed`), and a decoder that keeps such strings as they are gives
the tree back (`decoded_written`).
-/
import KvCrucible.Basis.Decimal
import KvCrucible.Basis.JsonObject
import KvCrucible.Basis.JsonValue

namespace Basis

namespace JsonText

/-! ### Printing -/

/-- The literal of an integer. -/
def literalOf (n : Int) : NumberLiteral where
  negative := decide (n < 0)
  integer := numeral n.natAbs
  fraction := none
  exponent := none
  canonical := canonical_numeral n.natAbs

mutual

/-- A tree as it is written without escapes. -/
def written : Json → Syntax
  | .null => .null
  | .bool value => .bool value
  | .number n => .number (literalOf n)
  | .string value => .string (utf8 value)
  | .array items => .array (writtenItems items)
  | .object members => .object (writtenMembers members)

/-- The items of an array. -/
def writtenItems : List Json → List Syntax
  | [] => []
  | item :: items => written item :: writtenItems items

/-- The members of an object. -/
def writtenMembers : List (String × Json) → List (List UInt8 × Syntax)
  | [] => []
  | member :: members => (utf8 member.1, written member.2) :: writtenMembers members

end

mutual

/-- The text of a tree without white space and escapes. -/
def printed : Json → List UInt8
  | .null => [110, 117, 108, 108]
  | .bool true => [116, 114, 117, 101]
  | .bool false => [102, 97, 108, 115, 101]
  | .number n => (literalOf n).bytes
  | .string value => 34 :: (utf8 value ++ [34])
  | .array items => 91 :: printedItems items
  | .object members => 123 :: printedMembers members

/-- The items of an array, with the closing bracket. -/
def printedItems : List Json → List UInt8
  | [] => [93]
  | [item] => printed item ++ [93]
  | item :: item' :: items => printed item ++ 44 :: printedItems (item' :: items)

/-- The members of an object, with the closing bracket. -/
def printedMembers : List (String × Json) → List UInt8
  | [] => [125]
  | [member] => 34 :: (utf8 member.1 ++ 34 :: 58 :: (printed member.2 ++ [125]))
  | member :: member' :: members => 34 :: (utf8 member.1 ++ 34 :: 58 :: (printed member.2 ++
      44 :: printedMembers (member' :: members)))

end

/-! ### Reading what was printed -/

/-- A string that is printed without escapes. -/
def PlainText (s : String) : Prop := ∀ b ∈ utf8 s, 32 ≤ b ∧ b < 128 ∧ b ≠ 34 ∧ b ≠ 92

instance (s : String) : Decidable (PlainText s) :=
  inferInstanceAs (Decidable (∀ b ∈ utf8 s, 32 ≤ b ∧ b < 128 ∧ b ≠ 34 ∧ b ≠ 92))

theorem PlainText.body {s : String} (h : PlainText s) : StringBody (utf8 s) := by
  unfold PlainText at h
  generalize utf8 s = bytes at h ⊢
  induction bytes with
  | nil => exact .nil
  | cons b bs ih =>
      obtain ⟨⟨hcontrol, -, hquote, hescape⟩, hbs⟩ := List.forall_mem_cons.mp h
      exact .plain hcontrol hquote hescape (ih hbs)

/-- All strings and keys of a tree are plain. -/
def PlainTree (tree : Json) : Prop := tree.Every fun node => ∀ s ∈ node.texts, PlainText s

theorem derives_printed (tree : Json) : PlainTree tree →
    ∀ rest, Derives .value (printed tree ++ rest) rest (written tree) := by
  induction tree using Json.inductionOn with
  | null => exact fun _ _ => .null
  | bool b =>
      intro _ rest
      cases b with
      | true => exact .true
      | false => exact .false
  | number n => exact fun _ rest => .number (literalOf n)
  | string s =>
      intro hplain rest
      have hs := Json.every_string.mp hplain s (List.mem_singleton_self s)
      refine .string ⟨?_, hs.body⟩
      show 34 :: (utf8 s ++ [34]) ++ rest = _
      simp
  | array items ih =>
      intro hplain rest
      obtain ⟨-, hitems⟩ := Json.every_array.mp hplain
      have helements : ∀ {item : Json} {items : List Json},
          (∀ x ∈ item :: items, ∀ rest, Derives .value (printed x ++ rest) rest (written x)) →
            Derives .elements (printedItems (item :: items) ++ rest) (93 :: rest)
              (.array (writtenItems (item :: items))) := by
        intro item items
        induction items generalizing item with
        | nil =>
            intro h
            have hitem := h item List.mem_cons_self (93 :: rest)
            rw [printedItems, List.append_assoc]
            exact .lastElement .nil hitem .nil
        | cons item' items ihitems =>
            intro h
            obtain ⟨hitem, hrest⟩ := List.forall_mem_cons.mp h
            rw [printedItems, List.append_assoc]
            exact .element .nil (hitem _) .nil (ihitems hrest)
      cases items with
      | nil => exact .emptyArray .nil
      | cons item items => exact .array (helements fun x hx => ih x hx (hitems x hx))
  | object members ih =>
      intro hplain rest
      obtain ⟨hkeys, hmembers⟩ := Json.every_object.mp hplain
      have hpairs : ∀ {member : String × Json} {members : List (String × Json)},
          (∀ x ∈ member :: members, PlainText x.1 ∧
            ∀ rest, Derives .value (printed x.2 ++ rest) rest (written x.2)) →
              Derives .members (printedMembers (member :: members) ++ rest) (125 :: rest)
                (.object (writtenMembers (member :: members))) := by
        intro member members
        induction members generalizing member with
        | nil =>
            intro h
            obtain ⟨hkey, hvalue⟩ := h member List.mem_cons_self
            rw [printedMembers]
            refine .lastMember .nil ⟨?_, hkey.body⟩ .nil .nil (hvalue (125 :: rest)) .nil
            simp
        | cons member' members ihmembers =>
            intro h
            obtain ⟨⟨hkey, hvalue⟩, hrest⟩ := List.forall_mem_cons.mp h
            rw [printedMembers]
            refine .member .nil ⟨?_, hkey.body⟩ .nil .nil
              (hvalue (44 :: (printedMembers (member' :: members) ++ rest))) .nil (ihmembers hrest)
            simp
      cases members with
      | nil => exact .emptyObject .nil
      | cons member members =>
          refine .object (hpairs fun x hx => ⟨hkeys x.1 ?_, ih x hx (hmembers x hx)⟩)
          exact List.mem_map_of_mem hx

theorem value_literalOf (n : Int) : (literalOf n).value = n := by
  have hmagnitude : (literalOf n).magnitude = n.natAbs := positional_numeral n.natAbs
  rw [NumberLiteral.value, hmagnitude]
  show (if decide (n < 0) = true then -(n.natAbs : Int) else n.natAbs) = n
  by_cases hneg : n < 0
  · rw [if_pos (decide_eq_true hneg)]
    omega
  · rw [if_neg fun h => hneg (of_decide_eq_true h)]
    omega

/-- A decoder that keeps plain strings as they are reads the tree back. -/
theorem decoded_written {decode : List UInt8 → Option String}
    (hdecode : ∀ s, PlainText s → decode (utf8 s) = some s) (tree : Json) : PlainTree tree →
      (written tree).decoded decode = some tree := by
  induction tree using Json.inductionOn with
  | null => exact fun _ => rfl
  | bool b => exact fun _ => rfl
  | number n =>
      intro _
      have hinteger : (literalOf n).isInteger = true := rfl
      rw [written, Syntax.decoded, if_pos hinteger, value_literalOf]
  | string s =>
      intro hplain
      have hs := Json.every_string.mp hplain s (List.mem_singleton_self s)
      rw [written, Syntax.decoded, hdecode s hs]
      rfl
  | array items ih =>
      intro hplain
      obtain ⟨-, hitems⟩ := Json.every_array.mp hplain
      apply Syntax.decoded_array
      clear hplain
      induction items with
      | nil => rfl
      | cons item items ihitems =>
          obtain ⟨hitem, hrest⟩ := List.forall_mem_cons.mp ih
          obtain ⟨hplain, hplains⟩ := List.forall_mem_cons.mp hitems
          exact Syntax.decodedItems_cons.mpr ⟨_, _, hitem hplain, ihitems hrest hplains, rfl⟩
  | object members ih =>
      intro hplain
      obtain ⟨htexts, hmembers⟩ := Json.every_object.mp hplain
      have hkeys : ∀ member ∈ members, PlainText member.1 :=
        fun member hmember => htexts member.1 (List.mem_map_of_mem hmember)
      apply Syntax.decoded_object
      clear hplain htexts
      induction members with
      | nil => rfl
      | cons member members ihmembers =>
          obtain ⟨hmember, hrest⟩ := List.forall_mem_cons.mp ih
          obtain ⟨hplain, hplains⟩ := List.forall_mem_cons.mp hmembers
          obtain ⟨hkey, hkeyrest⟩ := List.forall_mem_cons.mp hkeys
          exact Syntax.decodedMembers_cons.mpr
            ⟨_, _, _, hdecode _ hkey, hmember hplain, ihmembers hrest hplains hkeyrest, rfl⟩

end JsonText

end Basis
