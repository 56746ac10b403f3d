/-
KvCrucible/Basis/JsonText.lean

The grammar of JSON texts, over bytes.

`Derives` relates a text to what is left of it after one value has been read,
and to the value as it was written: number literals keep their digits and
strings their escapes.  Elements and members of a container are derived by
the same relation, so that one induction goes through a whole text.

A number literal is a structure that carries its own well-formedness; its
integer part is a canonical numeral, so that it has a magnitude.
-/
import KvCrucible.Basis.Decimal

namespace Basis

namespace JsonText

/-! ### Tokens -/

/-- White space. -/
def isBlank (b : UInt8) : Bool := b == 32 || b == 9 || b == 10 || b == 13

/-- Reading white space. -/
inductive Blank : List UInt8 → List UInt8 → Prop
  | nil {bs : List UInt8} : Blank bs bs
  | cons {b : UInt8} {bs rest : List UInt8} (h : isBlank b = true) (hrest : Blank bs rest) :
      Blank (b :: bs) rest

/-- A hexadecimal digit of an escape, in either case. -/
def isHexDigit (b : UInt8) : Bool :=
  isDigit b || (decide (65 ≤ b) && decide (b ≤ 70)) || (decide (97 ≤ b) && decide (b ≤ 102))

/-- The characters of the short escapes: quotation mark, reverse solidus,
solidus and `b`, `f`, `n`, `r`, `t`. -/
def shortEscapes : List UInt8 := [34, 92, 47, 98, 102, 110, 114, 116]

/-- What stands between the quotation marks of a string. -/
inductive StringBody : List UInt8 → Prop
  | nil : StringBody []
  | plain {b : UInt8} {bs : List UInt8} (hcontrol : 32 ≤ b) (hquote : b ≠ 34) (hescape : b ≠ 92)
      (hbs : StringBody bs) : StringBody (b :: bs)
  | escape {b : UInt8} {bs : List UInt8} (h : b ∈ shortEscapes) (hbs : StringBody bs) :
      StringBody (92 :: b :: bs)
  | unicode {b₁ b₂ b₃ b₄ : UInt8} {bs : List UInt8}
      (h : isHexDigit b₁ && isHexDigit b₂ && isHexDigit b₃ && isHexDigit b₄)
      (hbs : StringBody bs) : StringBody (92 :: 117 :: b₁ :: b₂ :: b₃ :: b₄ :: bs)

/-- Reading a string with its quotation marks. -/
def Quoted (bs rest body : List UInt8) : Prop :=
  bs = 34 :: (body ++ 34 :: rest) ∧ StringBody body

/-! ### Number literals -/

/-- A nonempty list of digits. -/
structure DigitsText where
  bytes : List UInt8
  ne_nil : bytes ≠ []
  digit : ∀ b ∈ bytes, isDigit b = true

/-- The exponent of a literal: its letter, its sign and its digits. -/
structure ExponentText where
  letter : UInt8
  sign : Option UInt8
  digits : DigitsText
  letter_eq : letter = 101 ∨ letter = 69
  sign_eq : ∀ b, sign = some b → b = 43 ∨ b = 45

/-- The bytes of an exponent. -/
def ExponentText.bytes (e : ExponentText) : List UInt8 :=
  e.letter :: (e.sign.toList ++ e.digits.bytes)

/-- A number literal. -/
structure NumberLiteral where
  negative : Bool
  integer : List UInt8
  fraction : Option DigitsText
  exponent : Option ExponentText
  canonical : CanonicalDigits integer

namespace NumberLiteral

variable (n : NumberLiteral)

/-- The bytes of a fraction with its point. -/
def fractionBytes : List UInt8 := n.fraction.elim [] fun digits => 46 :: digits.bytes

/-- The bytes of the exponent. -/
def exponentBytes : List UInt8 := n.exponent.elim [] ExponentText.bytes

/-- The bytes of a literal. -/
def bytes : List UInt8 :=
  (if n.negative then [45] else []) ++ n.integer ++ n.fractionBytes ++ n.exponentBytes

/-- A literal without fraction and exponent. -/
def isInteger : Bool := n.fraction.isNone && n.exponent.isNone

/-- The absolute value of the integer part. -/
def magnitude : Nat := positional n.integer 0

end NumberLiteral

/-! ### Values -/

/-- A value as it is written. -/
inductive Syntax where
  | null
  | bool (value : Bool)
  | number (literal : NumberLiteral)
  | string (body : List UInt8)
  | array (items : List Syntax)
  | object (members : List (List UInt8 × Syntax))

namespace Syntax

mutual

/-- The number literals of a value, in document order. -/
def literals : Syntax → List NumberLiteral
  | .number literal => [literal]
  | .array items => literalsOfItems items
  | .object members => literalsOfMembers members
  | .null => []
  | .bool _ => []
  | .string _ => []

/-- The number literals of the elements of an array. -/
def literalsOfItems : List Syntax → List NumberLiteral
  | [] => []
  | item :: items => item.literals ++ literalsOfItems items

/-- The number literals of the members of an object. -/
def literalsOfMembers : List (List UInt8 × Syntax) → List NumberLiteral
  | [] => []
  | member :: members => member.2.literals ++ literalsOfMembers members

end

end Syntax

/-- What a derivation reads: a value, or what stands between the brackets of
a container that is not empty. -/
inductive Nonterminal where
  | value
  | elements
  | members

/-- Reading a value, or the elements or members of a container. -/
inductive Derives : Nonterminal → List UInt8 → List UInt8 → Syntax → Prop
  | null {rest : List UInt8} : Derives .value (110 :: 117 :: 108 :: 108 :: rest) rest .null
  | true {rest : List UInt8} :
      Derives .value (116 :: 114 :: 117 :: 101 :: rest) rest (.bool Bool.true)
  | false {rest : List UInt8} :
      Derives .value (102 :: 97 :: 108 :: 115 :: 101 :: rest) rest (.bool Bool.false)
  | number (literal : NumberLiteral) {rest : List UInt8} :
      Derives .value (literal.bytes ++ rest) rest (.number literal)
  | string {bs rest body : List UInt8} (h : Quoted bs rest body) :
      Derives .value bs rest (.string body)
  | emptyArray {bs rest : List UInt8} (h : Blank bs (93 :: rest)) :
      Derives .value (91 :: bs) rest (.array [])
  | array {bs rest : List UInt8} {items : List Syntax}
      (h : Derives .elements bs (93 :: rest) (.array items)) :
      Derives .value (91 :: bs) rest (.array items)
  | emptyObject {bs rest : List UInt8} (h : Blank bs (125 :: rest)) :
      Derives .value (123 :: bs) rest (.object [])
  | object {bs rest : List UInt8} {members : List (List UInt8 × Syntax)}
      (h : Derives .members bs (125 :: rest) (.object members)) :
      Derives .value (123 :: bs) rest (.object members)
  | lastElement {bs bs₁ bs₂ rest : List UInt8} {item : Syntax} (hbefore : Blank bs bs₁)
      (hitem : Derives .value bs₁ bs₂ item) (hafter : Blank bs₂ rest) :
      Derives .elements bs rest (.array [item])
  | element {bs bs₁ bs₂ bs₃ rest : List UInt8} {item : Syntax} {items : List Syntax}
      (hbefore : Blank bs bs₁) (hitem : Derives .value bs₁ bs₂ item)
      (hafter : Blank bs₂ (44 :: bs₃)) (hrest : Derives .elements bs₃ rest (.array items)) :
      Derives .elements bs rest (.array (item :: items))
  | lastMember {bs bs₁ bs₂ bs₃ bs₄ bs₅ rest key : List UInt8} {value : Syntax}
      (hbefore : Blank bs bs₁) (hkey : Quoted bs₁ bs₂ key) (hcolon : Blank bs₂ (58 :: bs₃))
      (hvalue : Blank bs₃ bs₄) (hitem : Derives .value bs₄ bs₅ value) (hafter : Blank bs₅ rest) :
      Derives .members bs rest (.object [(key, value)])
  | member {bs bs₁ bs₂ bs₃ bs₄ bs₅ bs₆ rest key : List UInt8} {value : Syntax}
      {members : List (List UInt8 × Syntax)}
      (hbefore : Blank bs bs₁) (hkey : Quoted bs₁ bs₂ key) (hcolon : Blank bs₂ (58 :: bs₃))
      (hvalue : Blank bs₃ bs₄) (hitem : Derives .value bs₄ bs₅ value)
      (hafter : Blank bs₅ (44 :: bs₆)) (hrest : Derives .members bs₆ rest (.object members)) :
      Derives .members bs rest (.object ((key, value) :: members))

/-- A text that is one value, with white space around it. -/
def IsText (text : List UInt8) (value : Syntax) : Prop :=
  ∃ bs bs', Blank text bs ∧ Derives .value bs bs' value ∧ Blank bs' []

/-! ### What can follow a value -/

/-- What follows a value begins with white space, a comma or a closing
bracket, if anything follows. -/
def Delimited (rest : List UInt8) : Prop :=
  ∀ b, rest.head? = some b → isBlank b = true ∨ b = 44 ∨ b = 93 ∨ b = 125

theorem delimited_nil : Delimited [] := by
  intro b h
  cases h

theorem delimited_cons {b : UInt8} {rest : List UInt8}
    (h : isBlank b = true ∨ b = 44 ∨ b = 93 ∨ b = 125) : Delimited (b :: rest) := by
  intro c hc
  obtain rfl := Option.some.inj hc
  exact h

/-- White space in front of a delimited text leaves it delimited. -/
theorem Blank.delimited {bs rest : List UInt8} (h : Blank bs rest) (hrest : Delimited rest) :
    Delimited bs := by
  cases h with
  | nil => exact hrest
  | cons hb _ => exact delimited_cons (.inl hb)

/-- A delimiter is no digit, no point and no exponent letter. -/
theorem Delimited.not_number {rest : List UInt8} (h : Delimited rest) {b : UInt8}
    (hb : rest.head? = some b) : isDigit b = false ∧ b ≠ 46 ∧ b ≠ 101 ∧ b ≠ 69 := by
  have hcases := h b hb
  simp only [isBlank, Bool.or_eq_true, beq_iff_eq, or_assoc] at hcases
  rcases hcases with rfl | rfl | rfl | rfl | rfl | rfl | rfl <;> decide

end JsonText

end Basis
