/-
KvCrucible/Scanner.lean

The number scan that runs before the JSON parser (`classify_numbers` in
`codec.rs`), against the grammar of JSON texts.

A position of the source is modelled by the text from there on, so `text` is
`bytes[index..]`.  One iteration of the loop is `classifyStep`; it always
moves on, which is why the loop ends.  On a text of the grammar the scan meets
exactly the number literals: `classify_derives` follows a derivation, and
carries the errors of the literals it passes.
-/
import KvCrucible.Basis.JsonText
import KvCrucible.Codec

namespace KvCrucible

open Basis Basis.JsonText

/-! ### Bytes -/

/-- `is_number_start`. -/
def isNumberStart (byte : UInt8) : Bool := decide (byte = 45) || isDigit byte

/-- `is_value_position`. -/
def isValuePosition (previous : Option UInt8) : Bool :=
  previous.all fun byte => decide (byte = 91 ∨ byte = 58 ∨ byte = 44)

/-- `is_json_whitespace`. -/
def isJsonWhitespace (byte : UInt8) : Bool :=
  decide (byte = 32 ∨ byte = 9 ∨ byte = 10 ∨ byte = 13)

/-- `is_value_delimiter`. -/
def isValueDelimiter (byte : UInt8) : Bool :=
  isJsonWhitespace byte || decide (byte = 44 ∨ byte = 93 ∨ byte = 125)

/-! ### Numbers -/

/-- `NumberToken`: `integer` are the bytes from `integer_start` to
`integer_end`, and `rest` is the text from `end` on. -/
structure NumberToken where
  integer : List UInt8
  nonInteger : Bool
  rest : List UInt8
  deriving DecidableEq

/-- `consume_digits`: the text after the digits in front. -/
def consumeDigits (text : List UInt8) : List UInt8 := text.dropWhile isDigit

/-- The integer part of a number, and the text after it. -/
def scanInteger : List UInt8 → Option (List UInt8 × List UInt8)
  | [] => none
  | byte :: text =>
      if byte = 48 then some ([byte], text)
      else if 49 ≤ byte ∧ byte ≤ 57 then
        some (byte :: text.takeWhile isDigit, consumeDigits text)
      else none

/-- The fraction of a number: whether there is one, and the text after it. -/
def scanFraction : List UInt8 → Option (Bool × List UInt8)
  | [] => some (false, [])
  | byte :: text =>
      if byte = 46 then
        if text.head?.any isDigit then some (true, consumeDigits text) else none
      else some (false, byte :: text)

/-- The text after the sign of an exponent. -/
def skipSign (text : List UInt8) : List UInt8 :=
  if text.head? = some 43 ∨ text.head? = some 45 then text.tail else text

/-- The exponent of a number: whether there is one, and the text after it. -/
def scanExponent : List UInt8 → Option (Bool × List UInt8)
  | [] => some (false, [])
  | byte :: text =>
      if byte = 101 ∨ byte = 69 then
        if (skipSign text).head?.any isDigit then some (true, consumeDigits (skipSign text))
        else none
      else some (false, byte :: text)

/-- The text after the minus sign of a number. -/
def skipMinus (text : List UInt8) : List UInt8 :=
  if text.head? = some 45 then text.tail else text

/-- `scan_number`. -/
def scanNumber (text : List UInt8) : Option NumberToken :=
  (scanInteger (skipMinus text)).bind fun integer =>
    (scanFraction integer.2).bind fun fraction =>
      (scanExponent fraction.2).bind fun exponent =>
        if exponent.2.head?.any fun byte => !isValueDelimiter byte then none
        else some ⟨integer.1, fraction.1 || exponent.1, exponent.2⟩

/-- `MAX_SAFE_DIGITS`. -/
def maxSafeDigits : List UInt8 := utf8 "9007199254740991"

/-- `integer_exceeds_safe_range`. -/
def integerExceedsSafeRange (digits : List UInt8) : Bool :=
  decide (digits.length > maxSafeDigits.length) ||
    (decide (digits.length = maxSafeDigits.length) && decide (maxSafeDigits < digits))

/-! ### The loop -/

/-- The variables of `classify_numbers`. -/
structure ScanState where
  text : List UInt8
  inString : Bool
  escaped : Bool
  previous : Option UInt8

/-- How an iteration of the loop ends. -/
inductive ScanStep where
  | done
  | failed (error : CodecError)
  | next (s : ScanState)

/-- The number that the loop recognizes at its position. -/
def numberAt (s : ScanState) (byte : UInt8) : Option NumberToken :=
  if isNumberStart byte && isValuePosition s.previous then scanNumber s.text else none

/-- The bytes of a token, from its start to its end. -/
def consumed (text : List UInt8) (token : NumberToken) : List UInt8 :=
  text.take (text.length - token.rest.length)

/-- What the loop does with a number. -/
def classifyToken (s : ScanState) (token : NumberToken) : ScanStep :=
  if token.nonInteger then .failed .nonIntegerNumber
  else if integerExceedsSafeRange token.integer then .failed .unsafeInteger
  else .next { s with text := token.rest, previous := (consumed s.text token).getLast? }

/-- One iteration inside of a string. -/
def stringStep (s : ScanState) (byte : UInt8) (rest : List UInt8) : ScanState :=
  if s.escaped then { s with text := rest, escaped := false }
  else if byte = 92 then { s with text := rest, escaped := true }
  else if byte = 34 then { s with text := rest, inString := false, previous := some byte }
  else { s with text := rest }

/-- One iteration of the loop of `classify_numbers`. -/
def classifyStep (s : ScanState) : ScanStep :=
  match s.text with
  | [] => .done
  | byte :: rest =>
      if s.inString then .next (stringStep s byte rest)
      else if byte = 34 then .next { s with text := rest, inString := true }
      else if isJsonWhitespace byte then .next { s with text := rest }
      else
        match numberAt s byte with
        | some token => classifyToken s token
        | none => .next { s with text := rest, previous := some byte }

/-! ### Moving on -/

theorem length_consumeDigits_le (text : List UInt8) :
    (consumeDigits text).length ≤ text.length :=
  (List.dropWhile_sublist isDigit).length_le

theorem scanInteger_shortens {text : List UInt8} {r : List UInt8 × List UInt8}
    (h : scanInteger text = some r) : r.2.length < text.length := by
  cases text with
  | nil => cases h
  | cons byte text =>
      rw [scanInteger] at h
      by_cases hzero : byte = 48
      · rw [if_pos hzero] at h
        obtain rfl := Option.some.inj h
        exact Nat.lt_succ_self _
      · rw [if_neg hzero] at h
        by_cases hdigit : 49 ≤ byte ∧ byte ≤ 57
        · rw [if_pos hdigit] at h
          obtain rfl := Option.some.inj h
          exact Nat.lt_succ_of_le (length_consumeDigits_le text)
        · rw [if_neg hdigit] at h
          cases h

theorem scanFraction_le {text : List UInt8} {r : Bool × List UInt8}
    (h : scanFraction text = some r) : r.2.length ≤ text.length := by
  cases text with
  | nil =>
      obtain rfl := Option.some.inj h
      exact Nat.le_refl _
  | cons byte text =>
      rw [scanFraction] at h
      by_cases hpoint : byte = 46
      · rw [if_pos hpoint] at h
        by_cases hdigit : text.head?.any isDigit = true
        · rw [if_pos hdigit] at h
          obtain rfl := Option.some.inj h
          exact Nat.le_succ_of_le (length_consumeDigits_le text)
        · rw [if_neg hdigit] at h
          cases h
      · rw [if_neg hpoint] at h
        obtain rfl := Option.some.inj h
        exact Nat.le_refl _

theorem length_skipSign_le (text : List UInt8) : (skipSign text).length ≤ text.length := by
  unfold skipSign
  by_cases h : text.head? = some 43 ∨ text.head? = some 45
  · rw [if_pos h]
    exact (List.tail_sublist text).length_le
  · rw [if_neg h]

theorem length_skipMinus_le (text : List UInt8) : (skipMinus text).length ≤ text.length := by
  unfold skipMinus
  by_cases h : text.head? = some 45
  · rw [if_pos h]
    exact (List.tail_sublist text).length_le
  · rw [if_neg h]

theorem scanExponent_le {text : List UInt8} {r : Bool × List UInt8}
    (h : scanExponent text = some r) : r.2.length ≤ text.length := by
  cases text with
  | nil =>
      obtain rfl := Option.some.inj h
      exact Nat.le_refl _
  | cons byte text =>
      rw [scanExponent] at h
      by_cases hletter : byte = 101 ∨ byte = 69
      · rw [if_pos hletter] at h
        by_cases hdigit : (skipSign text).head?.any isDigit = true
        · rw [if_pos hdigit] at h
          obtain rfl := Option.some.inj h
          have hle := length_consumeDigits_le (skipSign text)
          exact Nat.le_succ_of_le (hle.trans (length_skipSign_le text))
        · rw [if_neg hdigit] at h
          cases h
      · rw [if_neg hletter] at h
        obtain rfl := Option.some.inj h
        exact Nat.le_refl _

/-- A number takes up at least one byte. -/
theorem scanNumber_shortens {text : List UInt8} {token : NumberToken}
    (h : scanNumber text = some token) : token.rest.length < text.length := by
  unfold scanNumber at h
  obtain ⟨integer, hinteger, h⟩ := Option.bind_eq_some_iff.mp h
  obtain ⟨fraction, hfraction, h⟩ := Option.bind_eq_some_iff.mp h
  obtain ⟨exponent, hexponent, h⟩ := Option.bind_eq_some_iff.mp h
  by_cases hend : (exponent.2.head?.any fun byte => !isValueDelimiter byte) = true
  · rw [if_pos hend] at h
    cases h
  · rw [if_neg hend] at h
    obtain rfl := Option.some.inj h
    have hfirst := scanInteger_shortens hinteger
    have hsecond := scanFraction_le hfraction
    have hthird := scanExponent_le hexponent
    have hsign := length_skipMinus_le text
    show exponent.2.length < text.length
    omega

theorem text_stringStep (s : ScanState) (byte : UInt8) (rest : List UInt8) :
    (stringStep s byte rest).text = rest := by
  unfold stringStep
  split_ifs <;> rfl

theorem classifyToken_shortens {s s' : ScanState} {token : NumberToken}
    (htoken : scanNumber s.text = some token) (h : classifyToken s token = .next s') :
    s'.text.length < s.text.length := by
  unfold classifyToken at h
  by_cases hnon : token.nonInteger = true
  · rw [if_pos hnon] at h
    cases h
  · rw [if_neg hnon] at h
    by_cases hlarge : integerExceedsSafeRange token.integer = true
    · rw [if_pos hlarge] at h
      cases h
    · rw [if_neg hlarge] at h
      obtain rfl := ScanStep.next.inj h
      exact scanNumber_shortens htoken

/-- Every iteration that does not end the loop moves on. -/
theorem classifyStep_shortens {s s' : ScanState} (h : classifyStep s = .next s') :
    s'.text.length < s.text.length := by
  unfold classifyStep at h
  cases htext : s.text with
  | nil =>
      rw [htext] at h
      cases h
  | cons byte rest =>
      rw [htext] at h
      dsimp only at h
      have hrest : rest.length < (byte :: rest).length := Nat.lt_succ_self _
      by_cases hstring : s.inString = true
      · rw [if_pos hstring] at h
        obtain rfl := ScanStep.next.inj h
        rwa [text_stringStep]
      · rw [if_neg hstring] at h
        by_cases hquote : byte = 34
        · rw [if_pos hquote] at h
          obtain rfl := ScanStep.next.inj h
          exact hrest
        · rw [if_neg hquote] at h
          by_cases hblank : isJsonWhitespace byte = true
          · rw [if_pos hblank] at h
            obtain rfl := ScanStep.next.inj h
            exact hrest
          · rw [if_neg hblank] at h
            cases hnumber : numberAt s byte with
            | none =>
                rw [hnumber] at h
                obtain rfl := ScanStep.next.inj h
                exact hrest
            | some token =>
                rw [hnumber] at h
                have hscan : scanNumber s.text = some token := by
                  unfold numberAt at hnumber
                  by_cases hstart : (isNumberStart byte && isValuePosition s.previous) = true
                  · rwa [if_pos hstart] at hnumber
                  · rw [if_neg hstart] at hnumber
                    cases hnumber
                rw [← htext]
                exact classifyToken_shortens hscan h

/-- The loop of `classify_numbers`. -/
def classifyFrom (s : ScanState) : Except CodecError Unit :=
  match _h : classifyStep s with
  | .done => .ok ()
  | .failed error => .error error
  | .next s' => classifyFrom s'
termination_by s.text.length
decreasing_by exact classifyStep_shortens _h

/-- `classify_numbers`. -/
def classifyNumbers (text : List UInt8) : Except CodecError Unit :=
  classifyFrom ⟨text, false, false, none⟩

theorem classifyFrom_done {s : ScanState} (h : classifyStep s = .done) :
    classifyFrom s = .ok () := by
  rw [classifyFrom]
  split
  · rfl
  · rename_i h'
    cases h.symm.trans h'
  · rename_i h'
    cases h.symm.trans h'

theorem classifyFrom_failed {s : ScanState} {error : CodecError}
    (h : classifyStep s = .failed error) : classifyFrom s = .error error := by
  rw [classifyFrom]
  split
  · rename_i h'
    cases h.symm.trans h'
  · rename_i h'
    rw [ScanStep.failed.inj (h.symm.trans h')]
  · rename_i h'
    cases h.symm.trans h'

theorem classifyFrom_next {s s' : ScanState} (h : classifyStep s = .next s') :
    classifyFrom s = classifyFrom s' := by
  rw [classifyFrom]
  split
  · rename_i h'
    cases h.symm.trans h'
  · rename_i h'
    cases h.symm.trans h'
  · rename_i h'
    rw [ScanStep.next.inj (h.symm.trans h')]

/-! ### Recognizing a literal -/

/-- The text does not go on with a digit. -/
def EndsDigits (text : List UInt8) : Prop := ∀ b, text.head? = some b → isDigit b = false

section Digits

variable {digits text : List UInt8} (hdigits : ∀ b ∈ digits, isDigit b = true)
  (htext : EndsDigits text)

include htext in
theorem takeWhile_of_ends : text.takeWhile isDigit = [] := by
  cases text with
  | nil => rfl
  | cons b text =>
      have hb : isDigit b = false := htext b rfl
      rw [List.takeWhile_cons, hb]
      rfl

include htext in
theorem consumeDigits_of_ends : consumeDigits text = text := by
  cases text with
  | nil => rfl
  | cons b text =>
      have hb : isDigit b = false := htext b rfl
      rw [consumeDigits, List.dropWhile_cons, hb]
      rfl

include hdigits htext

theorem takeWhile_digits : (digits ++ text).takeWhile isDigit = digits := by
  rw [List.takeWhile_append_of_pos hdigits, takeWhile_of_ends htext, List.append_nil]

theorem consumeDigits_digits : consumeDigits (digits ++ text) = text := by
  rw [consumeDigits, List.dropWhile_append_of_pos hdigits]
  exact consumeDigits_of_ends htext

end Digits

section Literal

variable (n : NumberLiteral) {rest : List UInt8}

theorem endsDigits_of_delimited (h : Delimited rest) : EndsDigits rest :=
  fun _ hb => (h.not_number hb).1

/-- An exponent begins with its letter. -/
theorem endsDigits_exponent (h : Delimited rest) : EndsDigits (n.exponentBytes ++ rest) := by
  rw [NumberLiteral.exponentBytes]
  cases n.exponent with
  | none => exact endsDigits_of_delimited h
  | some e =>
      intro b hb
      obtain rfl : e.letter = b := Option.some.inj hb
      rcases e.letter_eq with hletter | hletter <;> rw [hletter] <;> rfl

/-- A fraction begins with its point. -/
theorem endsDigits_fraction (h : Delimited rest) :
    EndsDigits (n.fractionBytes ++ (n.exponentBytes ++ rest)) := by
  rw [NumberLiteral.fractionBytes]
  cases n.fraction with
  | none => exact endsDigits_exponent n h
  | some digits =>
      intro b hb
      obtain rfl : 46 = b := Option.some.inj hb
      rfl

theorem head_any_digits {digits : DigitsText} {text : List UInt8} :
    (digits.bytes ++ text).head?.any isDigit = true := by
  obtain ⟨b, ds, hbytes⟩ := List.exists_cons_of_ne_nil digits.ne_nil
  rw [hbytes]
  exact digits.digit b (hbytes ▸ List.mem_cons_self)

theorem skipSign_exponent (e : ExponentText) {text : List UInt8} :
    skipSign (e.sign.toList ++ e.digits.bytes ++ text) = e.digits.bytes ++ text := by
  obtain ⟨b, ds, hbytes⟩ := List.exists_cons_of_ne_nil e.digits.ne_nil
  cases hsign : e.sign with
  | none =>
      have hdigit := isDigit_iff.mp (e.digits.digit b (hbytes ▸ List.mem_cons_self))
      have hne : ∀ c : UInt8, c.toNat < 48 → (b :: ds ++ text).head? ≠ some c := by
        intro c hc hhead
        obtain rfl : b = c := Option.some.inj hhead
        omega
      show skipSign (e.digits.bytes ++ text) = _
      rw [hbytes, skipSign, if_neg]
      exact not_or.mpr ⟨hne 43 (by decide), hne 45 (by decide)⟩
  | some sign =>
      rw [skipSign, if_pos]
      · rfl
      · rcases e.sign_eq sign hsign with rfl | rfl
        · exact .inl rfl
        · exact .inr rfl

/-- The exponent of a literal is recognized. -/
theorem scanExponent_literal (h : Delimited rest) :
    scanExponent (n.exponentBytes ++ rest) = some (n.exponent.isSome, rest) := by
  rw [NumberLiteral.exponentBytes]
  cases n.exponent with
  | none =>
      cases rest with
      | nil => rfl
      | cons b rest =>
          obtain ⟨-, -, he, hE⟩ := h.not_number (b := b) rfl
          show scanExponent (b :: rest) = _
          rw [scanExponent, if_neg (not_or.mpr ⟨he, hE⟩)]
          rfl
  | some e =>
      have hskip : skipSign (e.sign.toList ++ e.digits.bytes ++ rest) = e.digits.bytes ++ rest :=
        skipSign_exponent e
      show scanExponent (e.letter :: (e.sign.toList ++ e.digits.bytes ++ rest)) = _
      rw [scanExponent, if_pos e.letter_eq, hskip, if_pos head_any_digits,
        consumeDigits_digits e.digits.digit (endsDigits_of_delimited h)]
      rfl

/-- The fraction of a literal is recognized. -/
theorem scanFraction_literal (h : Delimited rest) :
    scanFraction (n.fractionBytes ++ (n.exponentBytes ++ rest)) =
      some (n.fraction.isSome, n.exponentBytes ++ rest) := by
  have hends := endsDigits_exponent n h
  rw [NumberLiteral.fractionBytes]
  cases n.fraction with
  | none =>
      have hpoint : ∀ b, (n.exponentBytes ++ rest).head? = some b → b ≠ 46 := by
        intro b hb
        rw [NumberLiteral.exponentBytes] at hb
        cases hexp : n.exponent with
        | none =>
            rw [hexp] at hb
            exact (h.not_number hb).2.1
        | some e =>
            rw [hexp] at hb
            obtain rfl : e.letter = b := Option.some.inj hb
            rcases e.letter_eq with hletter | hletter <;> rw [hletter] <;> decide
      show scanFraction (n.exponentBytes ++ rest) = _
      cases htext : n.exponentBytes ++ rest with
      | nil => rfl
      | cons b text =>
          rw [scanFraction, if_neg (hpoint b (by rw [htext]; rfl))]
          rfl
  | some digits =>
      show scanFraction (46 :: (digits.bytes ++ (n.exponentBytes ++ rest))) = _
      rw [scanFraction, if_pos rfl, if_pos head_any_digits, consumeDigits_digits digits.digit hends]
      rfl

/-- The integer part of a literal is recognized. -/
theorem scanInteger_literal {text : List UInt8} (htext : EndsDigits text) :
    scanInteger (n.integer ++ text) = some (n.integer, text) := by
  obtain ⟨b, ds, hbytes⟩ := List.exists_cons_of_ne_nil n.canonical.ne_nil
  have hdigit : ∀ c ∈ b :: ds, isDigit c = true := fun c hc => n.canonical.digit c (hbytes ▸ hc)
  have hds : ∀ c ∈ ds, isDigit c = true := fun c hc => hdigit c (List.mem_cons_of_mem _ hc)
  rw [hbytes, List.cons_append, scanInteger]
  by_cases hzero : b = 48
  · -- a leading zero is the whole integer part
    have hshort : ds = [] := by
      by_contra hds
      refine n.canonical.head ?_ ?_
      · rw [hbytes, List.length_cons]
        have := List.length_pos_of_ne_nil hds
        omega
      · rw [hbytes, hzero]
        rfl
    rw [if_pos hzero, hshort]
    rfl
  · have hb := isDigit_iff.mp (hdigit b List.mem_cons_self)
    have hne : b.toNat ≠ 48 := fun h => hzero (UInt8.toNat_inj.mp h)
    have hrange : 49 ≤ b ∧ b ≤ 57 := by
      rw [UInt8.le_iff_toNat_le, UInt8.le_iff_toNat_le]
      exact ⟨by show 49 ≤ b.toNat; omega, hb.2⟩
    rw [if_neg hzero, if_pos hrange, takeWhile_digits hds htext, consumeDigits_digits hds htext]

theorem skipMinus_literal {text : List UInt8} : skipMinus ((if n.negative then [45] else []) ++
    (n.integer ++ text)) = n.integer ++ text := by
  cases n.negative with
  | true => rfl
  | false =>
      obtain ⟨b, ds, hbytes⟩ := List.exists_cons_of_ne_nil n.canonical.ne_nil
      have hb := isDigit_iff.mp (n.canonical.digit b (hbytes ▸ List.mem_cons_self))
      show skipMinus (n.integer ++ text) = _
      rw [hbytes, skipMinus, if_neg]
      intro hhead
      obtain rfl : b = 45 := Option.some.inj hhead
      exact absurd hb.1 (by decide)

theorem bytes_append : n.bytes ++ rest = (if n.negative then [45] else []) ++
    (n.integer ++ (n.fractionBytes ++ (n.exponentBytes ++ rest))) := by
  simp [NumberLiteral.bytes]

/-- A literal in front of a delimiter is recognized, with its parts. -/
theorem scanNumber_literal (h : Delimited rest) :
    scanNumber (n.bytes ++ rest) = some ⟨n.integer, !n.isInteger, rest⟩ := by
  have hend : (rest.head?.any fun byte => !isValueDelimiter byte) = false := by
    cases rest with
    | nil => rfl
    | cons b rest =>
        have hb := h b rfl
        simp only [isBlank, Bool.or_eq_true, beq_iff_eq, or_assoc] at hb
        show (!isValueDelimiter b) = false
        rcases hb with rfl | rfl | rfl | rfl | rfl | rfl | rfl <;> rfl
  rw [bytes_append, scanNumber, skipMinus_literal, scanInteger_literal n (endsDigits_fraction n h),
    Option.bind_some, scanFraction_literal n h, Option.bind_some, scanExponent_literal n h,
    Option.bind_some, hend, NumberLiteral.isInteger]
  cases n.fraction <;> cases n.exponent <;> rfl

/-- A literal begins like a number. -/
theorem head_bytes : ∃ b text, n.bytes ++ rest = b :: text ∧ isNumberStart b = true ∧
    b ≠ 34 ∧ isJsonWhitespace b = false := by
  obtain ⟨b, ds, hbytes⟩ := List.exists_cons_of_ne_nil n.canonical.ne_nil
  have hdigit := n.canonical.digit b (hbytes ▸ List.mem_cons_self)
  have hb := isDigit_iff.mp hdigit
  rw [bytes_append, hbytes]
  cases n.negative with
  | true => exact ⟨45, _, rfl, rfl, by decide, rfl⟩
  | false =>
      have hne : ∀ c : UInt8, c.toNat < 48 → b ≠ c := by
        rintro c hc rfl
        omega
      refine ⟨b, _, rfl, ?_, hne 34 (by decide), ?_⟩
      · rw [isNumberStart, hdigit, Bool.or_true]
      · rw [isJsonWhitespace, decide_eq_false_iff_not]
        rintro (h | h | h | h)
        · exact hne 32 (by decide) h
        · exact hne 9 (by decide) h
        · exact hne 10 (by decide) h
        · exact hne 13 (by decide) h

/-- The lexicographic test compares the magnitude. -/
theorem integerExceedsSafeRange_iff :
    integerExceedsSafeRange n.integer = true ↔ maxSafeJsonInteger < n.magnitude := by
  have hsafe : maxSafeDigits = numeral maxSafeJsonInteger := rfl
  have hcanon : CanonicalDigits maxSafeDigits := hsafe ▸ canonical_numeral maxSafeJsonInteger
  have hvalue : positional maxSafeDigits 0 = maxSafeJsonInteger := by
    rw [hsafe, positional_numeral]
  have hlength : maxSafeDigits.length = 16 := rfl
  rw [integerExceedsSafeRange, Bool.or_eq_true, Bool.and_eq_true, decide_eq_true_iff,
    decide_eq_true_iff, decide_eq_true_iff, NumberLiteral.magnitude]
  rcases Nat.lt_trichotomy n.integer.length maxSafeDigits.length with hlen | hlen | hlen
  · have hlt := positional_lt n.canonical.digit
    have hsmall : 10 ^ n.integer.length ≤ 10 ^ 15 :=
      Nat.pow_le_pow_right (by decide) (by omega)
    have hmax : 10 ^ 15 ≤ maxSafeJsonInteger := by decide
    constructor
    · rintro (h | ⟨h, -⟩) <;> omega
    · intro h
      omega
  · rw [← hvalue, positional_lt_iff hlen.symm hcanon.digit n.canonical.digit]
    constructor
    · rintro (h | ⟨-, h⟩)
      · omega
      · exact h
    · exact fun h => .inr ⟨hlen, h⟩
  · have hle := n.canonical.pow_le (by omega)
    have hlarge : 10 ^ 16 ≤ 10 ^ (n.integer.length - 1) :=
      Nat.pow_le_pow_right (by decide) (by omega)
    have hmax : maxSafeJsonInteger < 10 ^ 16 := by decide
    exact iff_of_true (.inl hlen) (by omega)

end Literal

/-! ### One token at a time -/

/-- The loop outside of strings. -/
abbrev outside (text : List UInt8) (previous : Option UInt8) : ScanState :=
  ⟨text, false, false, previous⟩

section Tokens

variable {bs rest : List UInt8} {previous : Option UInt8}

theorem classify_end : classifyFrom (outside [] previous) = .ok () := classifyFrom_done rfl

theorem isBlank_iff {b : UInt8} : isBlank b = isJsonWhitespace b := by
  rw [Bool.eq_iff_iff]
  simp [isBlank, isJsonWhitespace, or_assoc]

/-- White space is skipped. -/
theorem classify_blank (h : Blank bs rest) :
    classifyFrom (outside bs previous) = classifyFrom (outside rest previous) := by
  induction h with
  | nil => rfl
  | @cons b bs rest hb _ ih =>
      have hquote : b ≠ 34 := by
        rintro rfl
        cases hb
      have hstep : classifyStep (outside (b :: bs) previous) = .next (outside bs previous) := by
        show (if b = 34 then _ else if isJsonWhitespace b = true then _ else _) = _
        rw [if_neg hquote, if_pos (isBlank_iff ▸ hb)]
      rw [classifyFrom_next hstep, ih]

/-- A byte outside of strings, numbers and white space only becomes the
previous byte. -/
theorem classify_byte {b : UInt8} (hquote : b ≠ 34) (hblank : isJsonWhitespace b = false)
    (hnumber : isNumberStart b = false) :
    classifyFrom (outside (b :: bs) previous) = classifyFrom (outside bs (some b)) := by
  have hnone : numberAt (outside (b :: bs) previous) b = none := by
    rw [numberAt, hnumber]
    rfl
  apply classifyFrom_next
  rw [classifyStep]
  dsimp only [outside]
  rw [if_neg Bool.false_ne_true, if_neg hquote, hblank, if_neg Bool.false_ne_true, hnone]

/-- Inside of a string nothing but its end is looked for. -/
theorem classify_body {body : List UInt8} (h : StringBody body) :
    classifyFrom ⟨body ++ 34 :: rest, true, false, previous⟩ =
      classifyFrom (outside rest (some 34)) := by
  induction h with
  | nil => exact classifyFrom_next rfl
  | @plain b bs _ hquote hescape _ ih =>
      have hstep : classifyStep ⟨b :: (bs ++ 34 :: rest), true, false, previous⟩ =
          .next ⟨bs ++ 34 :: rest, true, false, previous⟩ := by
        show ScanStep.next (if b = 92 then _ else if b = 34 then _ else _) = _
        rw [if_neg hescape, if_neg hquote]
      rw [List.cons_append, classifyFrom_next hstep, ih]
  | @escape b bs _ _ ih =>
      have hfirst : classifyStep ⟨92 :: b :: (bs ++ 34 :: rest), true, false, previous⟩ =
          .next ⟨b :: (bs ++ 34 :: rest), true, true, previous⟩ := rfl
      have hsecond : classifyStep ⟨b :: (bs ++ 34 :: rest), true, true, previous⟩ =
          .next ⟨bs ++ 34 :: rest, true, false, previous⟩ := rfl
      show classifyFrom ⟨92 :: b :: (bs ++ 34 :: rest), true, false, previous⟩ = _
      rw [classifyFrom_next hfirst, classifyFrom_next hsecond, ih]
  | @unicode b₁ b₂ b₃ b₄ bs h _ ih =>
      have hfirst : classifyStep
          ⟨92 :: 117 :: b₁ :: b₂ :: b₃ :: b₄ :: (bs ++ 34 :: rest), true, false, previous⟩ =
          .next ⟨117 :: b₁ :: b₂ :: b₃ :: b₄ :: (bs ++ 34 :: rest), true, true, previous⟩ := rfl
      have hsecond : classifyStep
          ⟨117 :: b₁ :: b₂ :: b₃ :: b₄ :: (bs ++ 34 :: rest), true, true, previous⟩ =
          .next ⟨b₁ :: b₂ :: b₃ :: b₄ :: (bs ++ 34 :: rest), true, false, previous⟩ := rfl
      have hhex : ∀ {b : UInt8} {text : List UInt8}, isHexDigit b = true →
          classifyFrom ⟨b :: text, true, false, previous⟩ =
            classifyFrom ⟨text, true, false, previous⟩ := by
        intro b text hb
        have hquote : b ≠ 34 := by
          rintro rfl
          cases hb
        have hescape : b ≠ 92 := by
          rintro rfl
          cases hb
        apply classifyFrom_next
        show ScanStep.next (if b = 92 then _ else if b = 34 then _ else _) = _
        rw [if_neg hescape, if_neg hquote]
      simp only [Bool.and_eq_true] at h
      obtain ⟨⟨⟨h₁, h₂⟩, h₃⟩, h₄⟩ := h
      show classifyFrom
        ⟨92 :: 117 :: b₁ :: b₂ :: b₃ :: b₄ :: (bs ++ 34 :: rest), true, false, previous⟩ = _
      rw [classifyFrom_next hfirst, classifyFrom_next hsecond, hhex h₁, hhex h₂, hhex h₃, hhex h₄,
        ih]

/-- A string is passed without looking into it. -/
theorem classify_quoted {body : List UInt8} (h : Quoted bs rest body) :
    classifyFrom (outside bs previous) = classifyFrom (outside rest (some 34)) := by
  obtain ⟨rfl, hbody⟩ := h
  have hopen : classifyStep (outside (34 :: (body ++ 34 :: rest)) previous) =
      .next ⟨body ++ 34 :: rest, true, false, previous⟩ := rfl
  rw [classifyFrom_next hopen, classify_body hbody]

end Tokens

/-! ### Literals -/

/-- The integer policy for one literal. -/
def checkLiteral (n : NumberLiteral) : Except CodecError Unit :=
  if !n.isInteger then .error .nonIntegerNumber
  else if maxSafeJsonInteger < n.magnitude then .error .unsafeInteger
  else .ok ()

/-- The policy for the literals of a text, in document order. -/
def checkLiterals (literals : List NumberLiteral) : Except CodecError Unit :=
  literals.forM checkLiteral

theorem checkLiterals_append (xs ys : List NumberLiteral) :
    checkLiterals (xs ++ ys) = (checkLiterals xs >>= fun _ => checkLiterals ys) :=
  List.forM_append

/-- At a value position a literal is met with its verdict. -/
theorem classify_number (n : NumberLiteral) {rest : List UInt8} {previous : Option UInt8}
    (hposition : isValuePosition previous = true) (h : Delimited rest) :
    ∃ last, classifyFrom (outside (n.bytes ++ rest) previous) =
      (checkLiteral n >>= fun _ => classifyFrom (outside rest last)) := by
  obtain ⟨b, text, hbytes, hstart, hquote, hblank⟩ := @head_bytes n rest
  have hnumber : numberAt (outside (n.bytes ++ rest) previous) b =
      some ⟨n.integer, !n.isInteger, rest⟩ := by
    rw [numberAt, hstart, hposition]
    exact scanNumber_literal n h
  have hstep : classifyStep (outside (n.bytes ++ rest) previous) =
      classifyToken (outside (n.bytes ++ rest) previous) ⟨n.integer, !n.isInteger, rest⟩ := by
    rw [hbytes] at hnumber ⊢
    rw [classifyStep]
    dsimp only [outside]
    rw [if_neg Bool.false_ne_true, if_neg hquote, hblank, if_neg Bool.false_ne_true, hnumber]
  refine ⟨(consumed (n.bytes ++ rest) ⟨n.integer, !n.isInteger, rest⟩).getLast?, ?_⟩
  unfold checkLiteral
  by_cases hnon : (!n.isInteger) = true
  · rw [if_pos hnon]
    refine classifyFrom_failed (hstep.trans ?_)
    rw [classifyToken, if_pos hnon]
  · rw [if_neg hnon]
    by_cases hlarge : maxSafeJsonInteger < n.magnitude
    · rw [if_pos hlarge]
      refine classifyFrom_failed (hstep.trans ?_)
      rw [classifyToken, if_neg hnon, if_pos ((integerExceedsSafeRange_iff n).mpr hlarge)]
    · rw [if_neg hlarge]
      refine classifyFrom_next (hstep.trans ?_)
      rw [classifyToken, if_neg hnon,
        if_neg fun hsafe => hlarge ((integerExceedsSafeRange_iff n).mp hsafe)]

/-! ### Whole texts -/

section Derivations

variable {bs rest : List UInt8} {previous : Option UInt8}

theorem classify_comma : classifyFrom (outside (44 :: bs) previous) =
    classifyFrom (outside bs (some 44)) :=
  classify_byte (by decide) rfl rfl

theorem classify_colon : classifyFrom (outside (58 :: bs) previous) =
    classifyFrom (outside bs (some 58)) :=
  classify_byte (by decide) rfl rfl

/-- A member up to its value. -/
theorem classify_key {bs₁ bs₂ bs₃ bs₄ key : List UInt8} (hbefore : Blank bs bs₁)
    (hkey : Quoted bs₁ bs₂ key) (hcolon : Blank bs₂ (58 :: bs₃)) (hvalue : Blank bs₃ bs₄) :
    classifyFrom (outside bs previous) = classifyFrom (outside bs₄ (some 58)) := by
  rw [classify_blank hbefore, classify_quoted hkey, classify_blank hcolon, classify_colon,
    classify_blank hvalue]

theorem literals_array_cons (item : Syntax) (items : List Syntax) :
    (Syntax.array (item :: items)).literals = item.literals ++ (Syntax.array items).literals := by
  simp [Syntax.literals, Syntax.literalsOfItems]

theorem literals_object_cons (key : List UInt8) (value : Syntax)
    (members : List (List UInt8 × Syntax)) :
    (Syntax.object ((key, value) :: members)).literals =
      value.literals ++ (Syntax.object members).literals := by
  simp [Syntax.literals, Syntax.literalsOfMembers]

/-- What is after one literal list is after the concatenation. -/
theorem checkLiterals_then {xs ys : List NumberLiteral} {r : Except CodecError Unit} :
    (checkLiterals xs >>= fun _ => checkLiterals ys >>= fun _ => r) =
      (checkLiterals (xs ++ ys) >>= fun _ => r) := by
  rw [checkLiterals_append, bind_assoc]

/-- The scan follows a derivation: it meets the number literals in document
order, and goes on after the value if all of them are admissible.  A member
begins with its key, so that it needs no value position. -/
theorem classify_derives {kind : Nonterminal} {value : Syntax} (h : Derives kind bs rest value) :
    ∀ {previous : Option UInt8}, kind = .members ∨ isValuePosition previous = true →
      Delimited rest → ∃ last, classifyFrom (outside bs previous) =
        (checkLiterals value.literals >>= fun _ => classifyFrom (outside rest last)) := by
  induction h with
  | null =>
      intro previous _ _
      refine ⟨some 108, ?_⟩
      rw [classify_byte (by decide) rfl rfl, classify_byte (by decide) rfl rfl,
        classify_byte (by decide) rfl rfl, classify_byte (by decide) rfl rfl]
      rfl
  | true =>
      intro previous _ _
      refine ⟨some 101, ?_⟩
      rw [classify_byte (by decide) rfl rfl, classify_byte (by decide) rfl rfl,
        classify_byte (by decide) rfl rfl, classify_byte (by decide) rfl rfl]
      rfl
  | false =>
      intro previous _ _
      refine ⟨some 101, ?_⟩
      rw [classify_byte (by decide) rfl rfl, classify_byte (by decide) rfl rfl,
        classify_byte (by decide) rfl rfl, classify_byte (by decide) rfl rfl,
        classify_byte (by decide) rfl rfl]
      rfl
  | number literal =>
      intro previous hposition hrest
      have hposition := hposition.resolve_left fun h => Nonterminal.noConfusion h
      obtain ⟨last, hlast⟩ := classify_number literal hposition hrest
      refine ⟨last, hlast.trans ?_⟩
      have hone : checkLiterals (Syntax.number literal).literals = checkLiteral literal := by
        show (checkLiteral literal >>= fun _ => pure PUnit.unit) = _
        exact bind_pure _
      rw [hone]
  | string hquoted =>
      intro previous _ _
      exact ⟨some 34, classify_quoted hquoted⟩
  | emptyArray hblank =>
      intro previous _ _
      refine ⟨some 93, ?_⟩
      rw [classify_byte (by decide) rfl rfl, classify_blank hblank,
        classify_byte (by decide) rfl rfl]
      rfl
  | array _ ih =>
      intro previous _ _
      obtain ⟨last, hlast⟩ := @ih (some 91) (.inr rfl) (delimited_cons (.inr (.inr (.inl rfl))))
      refine ⟨some 93, ?_⟩
      rw [classify_byte (by decide) rfl rfl, hlast]
      congr 1
      funext _
      exact classify_byte (by decide) rfl rfl
  | emptyObject hblank =>
      intro previous _ _
      refine ⟨some 125, ?_⟩
      rw [classify_byte (by decide) rfl rfl, classify_blank hblank,
        classify_byte (by decide) rfl rfl]
      rfl
  | object _ ih =>
      intro previous _ _
      obtain ⟨last, hlast⟩ := @ih (some 123) (.inl rfl) (delimited_cons (.inr (.inr (.inr rfl))))
      refine ⟨some 125, ?_⟩
      rw [classify_byte (by decide) rfl rfl, hlast]
      congr 1
      funext _
      exact classify_byte (by decide) rfl rfl
  | lastElement hbefore _ hafter ih =>
      intro previous hposition hrest
      have hposition := hposition.resolve_left fun h => Nonterminal.noConfusion h
      obtain ⟨last, hlast⟩ := ih (.inr hposition) (hafter.delimited hrest)
      refine ⟨last, ?_⟩
      have hone : (Syntax.array []).literals = [] := by simp [Syntax.literals,
        Syntax.literalsOfItems]
      rw [classify_blank hbefore, hlast, literals_array_cons, classify_blank hafter, hone,
        List.append_nil]
  | element hbefore _ hafter _ ih ihrest =>
      intro previous hposition hrest
      have hposition := hposition.resolve_left fun h => Nonterminal.noConfusion h
      obtain ⟨first, hfirst⟩ :=
        ih (.inr hposition) (hafter.delimited (delimited_cons (.inr (.inl rfl))))
      obtain ⟨last, hlast⟩ := @ihrest (some 44) (.inr rfl) hrest
      refine ⟨last, ?_⟩
      rw [classify_blank hbefore, hfirst, literals_array_cons, classify_blank hafter,
        classify_comma, hlast]
      exact checkLiterals_then
  | lastMember hbefore hkey hcolon hvalue _ hafter ih =>
      intro previous _ hrest
      obtain ⟨last, hlast⟩ := @ih (some 58) (.inr rfl) (hafter.delimited hrest)
      refine ⟨last, ?_⟩
      have hone : (Syntax.object []).literals = [] := by simp [Syntax.literals,
        Syntax.literalsOfMembers]
      rw [classify_key hbefore hkey hcolon hvalue, hlast, literals_object_cons,
        classify_blank hafter, hone, List.append_nil]
  | member hbefore hkey hcolon hvalue _ hafter _ ih ihrest =>
      intro previous _ hrest
      obtain ⟨first, hfirst⟩ :=
        @ih (some 58) (.inr rfl) (hafter.delimited (delimited_cons (.inr (.inl rfl))))
      obtain ⟨last, hlast⟩ := @ihrest (some 44) (.inl rfl) hrest
      refine ⟨last, ?_⟩
      rw [classify_key hbefore hkey hcolon hvalue, hfirst, literals_object_cons,
        classify_blank hafter, classify_comma, hlast]
      exact checkLiterals_then

end Derivations

/-- On a JSON text the scan gives the verdict on its literals. -/
theorem classifyNumbers_text {text : List UInt8} {value : Syntax} (h : IsText text value) :
    classifyNumbers text = checkLiterals value.literals := by
  obtain ⟨bs, bs', hbefore, hvalue, hafter⟩ := h
  obtain ⟨last, hlast⟩ := @classify_derives bs bs' _ _ hvalue none (.inr rfl)
    (hafter.delimited delimited_nil)
  rw [classifyNumbers, classify_blank hbefore, hlast]
  simp only [classify_blank hafter, classify_end]
  exact bind_pure _

/-! ### The policy -/

/-- A literal that the integer policy admits. -/
def IsSafe (n : NumberLiteral) : Prop := n.isInteger = true ∧ n.magnitude ≤ maxSafeJsonInteger

/-- The error of a literal that is not safe. -/
def literalError (n : NumberLiteral) : CodecError :=
  if n.isInteger then .unsafeInteger else .nonIntegerNumber

theorem checkLiteral_ok {n : NumberLiteral} : checkLiteral n = .ok () ↔ IsSafe n := by
  unfold checkLiteral IsSafe
  cases n.isInteger with
  | false => simp
  | true =>
      by_cases hlarge : maxSafeJsonInteger < n.magnitude
      · simp [hlarge]
      · simp [hlarge, Nat.le_of_not_lt hlarge]

theorem checkLiteral_error {n : NumberLiteral} {error : CodecError} :
    checkLiteral n = .error error ↔ ¬ IsSafe n ∧ error = literalError n := by
  unfold checkLiteral IsSafe literalError
  cases n.isInteger with
  | false => simp [eq_comm]
  | true =>
      by_cases hlarge : maxSafeJsonInteger < n.magnitude
      · simp [hlarge, eq_comm]
      · simp [hlarge]

/-- The verdict on a list is the verdict on its first unsafe literal. -/
theorem checkLiterals_error {literals : List NumberLiteral} {error : CodecError} :
    checkLiterals literals = .error error ↔ ∃ before n after,
      literals = before ++ n :: after ∧ (∀ m ∈ before, IsSafe m) ∧ ¬ IsSafe n ∧
        error = literalError n := by
  induction literals with
  | nil =>
      refine iff_of_false (fun h => by cases h) ?_
      rintro ⟨before, n, after, hsplit, -⟩
      exact List.append_ne_nil_of_right_ne_nil before (List.cons_ne_nil n after) hsplit.symm
  | cons first literals ih =>
      have hcons : checkLiterals (first :: literals) =
          (checkLiteral first >>= fun _ => checkLiterals literals) := List.forM_cons
      rw [hcons]
      rcases hfirst : checkLiteral first with e | u
      · obtain ⟨hlarge, rfl⟩ := checkLiteral_error.mp hfirst
        show Except.error (literalError first) = Except.error error ↔ _
        constructor
        · intro h
          exact ⟨[], first, literals, rfl, List.forall_mem_nil _, hlarge, (Except.error.inj h).symm⟩
        · rintro ⟨before, n, after, hsplit, hsafe, -, rfl⟩
          cases before with
          | nil =>
              obtain ⟨rfl, -⟩ := List.cons.inj hsplit
              rfl
          | cons m before =>
              obtain ⟨rfl, -⟩ := List.cons.inj hsplit
              exact absurd (hsafe first List.mem_cons_self) hlarge
      · have hsafe := checkLiteral_ok.mp hfirst
        show checkLiterals literals = .error error ↔ _
        rw [ih]
        constructor
        · rintro ⟨before, n, after, rfl, hbefore, hn⟩
          exact ⟨first :: before, n, after, rfl, List.forall_mem_cons.mpr ⟨hsafe, hbefore⟩, hn⟩
        · rintro ⟨before, n, after, hsplit, hbefore, hlarge, herror⟩
          cases before with
          | nil =>
              obtain ⟨rfl, -⟩ := List.cons.inj hsplit
              exact absurd hsafe hlarge
          | cons m before =>
              obtain ⟨rfl, rfl⟩ := List.cons.inj hsplit
              exact ⟨before, n, after, rfl, (List.forall_mem_cons.mp hbefore).2, hlarge, herror⟩

theorem checkLiterals_ok {literals : List NumberLiteral} :
    checkLiterals literals = .ok () ↔ ∀ n ∈ literals, IsSafe n := by
  rw [checkLiterals, forM_eq_ok]
  exact forall₂_congr fun n _ => checkLiteral_ok

/-- On every JSON text the scan succeeds exactly when all number literals are
integers in the safe range, and otherwise gives the error of the first one
that is not.  Nothing else in the text matters: texts with the same literals
get the same verdict.  On any bytes at all the loop moves on with every
iteration. -/
theorem scan_agrees_with_grammar {text : List UInt8} {value : Syntax} (h : IsText text value) :
    (classifyNumbers text = .ok () ↔ ∀ n ∈ value.literals, IsSafe n) ∧
    (∀ error, classifyNumbers text = .error error ↔ ∃ before n after,
      value.literals = before ++ n :: after ∧ (∀ m ∈ before, IsSafe m) ∧ ¬ IsSafe n ∧
        error = if n.isInteger then .unsafeInteger else .nonIntegerNumber) ∧
    (∀ text' value', IsText text' value' → value'.literals = value.literals →
      classifyNumbers text' = classifyNumbers text) ∧
    ∀ s s', classifyStep s = .next s' → s'.text.length < s.text.length := by
  rw [classifyNumbers_text h]
  refine ⟨checkLiterals_ok, fun error => checkLiterals_error, fun text' value' h' hliterals => ?_,
    fun s s' => classifyStep_shortens⟩
  rw [classifyNumbers_text h', hliterals]

namespace Sample

/-- The literal `2.5`. -/
def fractional : NumberLiteral where
  negative := false
  integer := [50]
  fraction := some ⟨[53], List.cons_ne_nil _ _, by simp [isDigit]⟩
  exponent := none
  canonical := ⟨by simp [isDigit], List.cons_ne_nil _ _, by simp⟩

/-- The text `["-1",2.5]`. -/
def mixedText : List UInt8 := [91, 34, 45, 49, 34, 44, 50, 46, 53, 93]

theorem mixedText_isText :
    IsText mixedText (.array [.string [45, 49], .number fractional]) := by
  have hbody : StringBody [45, 49] :=
    .plain (by decide) (by decide) (by decide) (.plain (by decide) (by decide) (by decide) .nil)
  have hstring : Derives .value [34, 45, 49, 34, 44, 50, 46, 53, 93] [44, 50, 46, 53, 93]
      (.string [45, 49]) := .string ⟨rfl, hbody⟩
  have hnumber : Derives .value [50, 46, 53, 93] [93] (.number fractional) := .number fractional
  exact ⟨mixedText, [], .nil, .array (.element .nil hstring .nil (.lastElement .nil hnumber .nil)),
    .nil⟩

end Sample

/-- The law at a text whose string looks like a number: the literal after it
is the one that is refused. -/
theorem scan_agrees_on_mixed_text :
    classifyNumbers Sample.mixedText = .error .nonIntegerNumber := by
  have hliterals : (Syntax.array [.string [45, 49], .number Sample.fractional]).literals =
      [Sample.fractional] := by
    simp [Syntax.literals, Syntax.literalsOfItems]
  obtain ⟨-, herror, -⟩ := scan_agrees_with_grammar Sample.mixedText_isText
  refine (herror _).mpr ⟨[], Sample.fractional, [], hliterals, List.forall_mem_nil _, ?_, rfl⟩
  exact fun h => Bool.noConfusion h.1

end KvCrucible
