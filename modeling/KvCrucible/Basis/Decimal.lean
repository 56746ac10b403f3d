/-
KvCrucible/Basis/Decimal.lean

Texts as bytes, and decimal numerals as lists of ASCII digits.

`utf8` is the encoding of a string; a list of ASCII bytes is the encoding of
`ofAscii` of it, and of nothing else.  A digit list stands for the number
`positional`; `Canonical` excludes leading zeros and the empty list, and a
canonical list is the printed number (`canonical_iff_numeral`).  Among
canonical lists the longer one is the larger number, and among lists of one
length the order of numbers is the lexicographic order.
-/
import Mathlib

namespace Basis

/-! ### Bytes of a string -/

/-- The UTF-8 bytes of a string. -/
def utf8 (s : String) : List UInt8 := s.toByteArray.data.toList

theorem utf8_inj {s t : String} : utf8 s = utf8 t ↔ s = t := by
  constructor
  · intro h
    apply String.toByteArray_inj.mp
    apply ByteArray.ext
    exact Array.toList_inj.mp h
  · rintro rfl
    rfl

theorem length_utf8 (s : String) : (utf8 s).length = s.utf8ByteSize := by
  show s.toByteArray.data.toList.length = s.toByteArray.size
  rw [Array.length_toList]
  rfl

theorem utf8_ofList (cs : List Char) :
    utf8 (String.ofList cs) = cs.flatMap String.utf8EncodeChar := by
  rw [utf8, String.toByteArray_ofList]
  exact List.toList_data_toByteArray

theorem utf8_append (s t : String) : utf8 (s ++ t) = utf8 s ++ utf8 t := by
  have hs := utf8_ofList s.toList
  have ht := utf8_ofList t.toList
  have hst := utf8_ofList (s.toList ++ t.toList)
  rw [String.ofList_toList] at hs ht
  rw [String.ofList_append, String.ofList_toList, String.ofList_toList, List.flatMap_append] at hst
  rw [hst, hs, ht]

/-- The character of an ASCII byte. -/
def asciiChar (b : UInt8) : Char := Char.ofNat b.toNat

/-- The string of a list of ASCII bytes. -/
def ofAscii (bs : List UInt8) : String := String.ofList (bs.map asciiChar)

theorem encode_asciiChar {b : UInt8} (h : b < 128) :
    String.utf8EncodeChar (asciiChar b) = [b] := by
  have hlt : b.toNat < 128 := UInt8.lt_iff_toNat_lt.mp h
  have hval : (asciiChar b).val.toNat = b.toNat := by
    rw [asciiChar, Char.ofNat, dif_pos (Or.inl (by omega))]
    rfl
  unfold String.utf8EncodeChar
  rw [hval, if_pos (by omega), UInt8.ofNat_toNat]

theorem utf8_ofAscii {bs : List UInt8} (h : ∀ b ∈ bs, b < 128) : utf8 (ofAscii bs) = bs := by
  rw [ofAscii, utf8_ofList]
  induction bs with
  | nil => rfl
  | cons b bs ih =>
      rw [List.map_cons, List.flatMap_cons, encode_asciiChar (h b List.mem_cons_self),
        ih fun c hc => h c (List.mem_cons_of_mem _ hc)]
      rfl

/-! ### Digits -/

/-- `u8::is_ascii_digit`. -/
def isDigit (b : UInt8) : Bool := decide (48 ≤ b) && decide (b ≤ 57)

/-- The number a digit stands for. -/
def digitValue (b : UInt8) : Nat := b.toNat - 48

/-- The digit of a number below ten. -/
def digitByte (n : Nat) : UInt8 := UInt8.ofNat (48 + n)

theorem isDigit_iff {b : UInt8} : isDigit b = true ↔ 48 ≤ b.toNat ∧ b.toNat ≤ 57 := by
  simp [isDigit, UInt8.le_iff_toNat_le]

theorem digitValue_lt {b : UInt8} (h : isDigit b = true) : digitValue b < 10 := by
  have := isDigit_iff.mp h
  unfold digitValue
  omega

theorem toNat_digitByte {n : Nat} (h : n < 10) : (digitByte n).toNat = 48 + n := by
  rw [digitByte, UInt8.toNat_ofNat']
  omega

theorem isDigit_digitByte {n : Nat} (h : n < 10) : isDigit (digitByte n) = true := by
  rw [isDigit_iff, toNat_digitByte h]
  omega

theorem digitValue_digitByte {n : Nat} (h : n < 10) : digitValue (digitByte n) = n := by
  rw [digitValue, toNat_digitByte h]
  omega

theorem digitByte_digitValue {b : UInt8} (h : isDigit b = true) : digitByte (digitValue b) = b := by
  have hb := isDigit_iff.mp h
  apply UInt8.toNat_inj.mp
  rw [toNat_digitByte (digitValue_lt h), digitValue]
  omega

theorem lt_128_of_isDigit {b : UInt8} (h : isDigit b = true) : b < 128 := by
  have hb := isDigit_iff.mp h
  exact UInt8.lt_iff_toNat_lt.mpr (Nat.lt_of_le_of_lt hb.2 (by decide))

/-! ### Positional value -/

/-- The number that a digit list stands for, read after `initial`. -/
def positional (digits : List UInt8) (initial : Nat) : Nat :=
  digits.foldl (fun value b => value * 10 + digitValue b) initial

section Positional

variable {digits digits' : List UInt8} {b : UInt8} {initial n : Nat}

theorem positional_cons : positional (b :: digits) initial =
    positional digits (initial * 10 + digitValue b) :=
  List.foldl_cons ..

theorem positional_snoc : positional (digits ++ [b]) initial =
    positional digits initial * 10 + digitValue b :=
  List.foldl_append

theorem positional_eq (digits : List UInt8) (initial : Nat) :
    positional digits initial = initial * 10 ^ digits.length + positional digits 0 := by
  induction digits generalizing initial with
  | nil => simp [positional]
  | cons b digits ih =>
      rw [positional_cons, positional_cons, ih, ih (0 * 10 + digitValue b), List.length_cons]
      ring

theorem positional_lt (h : ∀ b ∈ digits, isDigit b = true) :
    positional digits 0 < 10 ^ digits.length := by
  induction digits with
  | nil => exact Nat.one_pos
  | cons b digits ih =>
      have hb := digitValue_lt (h b List.mem_cons_self)
      have hlt := ih fun c hc => h c (List.mem_cons_of_mem _ hc)
      rw [positional_cons, positional_eq, List.length_cons, Nat.pow_succ, Nat.zero_mul,
        Nat.zero_add]
      nlinarith

/-- Digit lists of one length are ordered like the numbers. -/
theorem positional_lt_iff (hlength : digits.length = digits'.length)
    (h : ∀ b ∈ digits, isDigit b = true) (h' : ∀ b ∈ digits', isDigit b = true) :
    positional digits 0 < positional digits' 0 ↔ digits < digits' := by
  induction digits generalizing digits' with
  | nil =>
      obtain rfl := List.length_eq_zero_iff.mp hlength.symm
      simp
  | cons b digits ih =>
      cases digits' with
      | nil => cases hlength
      | cons b' digits' =>
          have hlen : digits.length = digits'.length := Nat.succ.inj hlength
          have hrest : ∀ c ∈ digits, isDigit c = true := fun c hc => h c (List.mem_cons_of_mem _ hc)
          have hrest' : ∀ c ∈ digits', isDigit c = true :=
            fun c hc => h' c (List.mem_cons_of_mem _ hc)
          have hlt := positional_lt hrest
          have hlt' := positional_lt hrest'
          have hb := isDigit_iff.mp (h b List.mem_cons_self)
          have hb' := isDigit_iff.mp (h' b' List.mem_cons_self)
          have hbytes : b < b' ↔ digitValue b < digitValue b' := by
            rw [UInt8.lt_iff_toNat_lt, digitValue, digitValue]
            omega
          have heq : b = b' ↔ digitValue b = digitValue b' := by
            rw [← UInt8.toNat_inj, digitValue, digitValue]
            omega
          rw [List.cons_lt_cons_iff, hbytes, heq, ← ih hlen hrest hrest', positional_cons,
            positional_cons, positional_eq, positional_eq digits', ← hlen, Nat.zero_mul,
            Nat.zero_add, Nat.zero_add]
          rw [← hlen] at hlt'
          constructor
          · intro hless
            rcases Nat.lt_trichotomy (digitValue b) (digitValue b') with hd | hd | hd
            · exact .inl hd
            · refine .inr ⟨hd, ?_⟩
              rw [hd] at hless
              omega
            · have : (digitValue b' + 1) * 10 ^ digits.length ≤
                  digitValue b * 10 ^ digits.length := Nat.mul_le_mul_right _ hd
              rw [Nat.add_mul, Nat.one_mul] at this
              omega
          · rintro (hd | ⟨hd, hless⟩)
            · have : (digitValue b + 1) * 10 ^ digits.length ≤
                  digitValue b' * 10 ^ digits.length := Nat.mul_le_mul_right _ hd
              rw [Nat.add_mul, Nat.one_mul] at this
              omega
            · rw [hd]
              omega

end Positional

/-! ### Canonical numerals -/

/-- A numeral without leading zeros. -/
structure CanonicalDigits (digits : List UInt8) : Prop where
  digit : ∀ b ∈ digits, isDigit b = true
  ne_nil : digits ≠ []
  head : 1 < digits.length → digits.head? ≠ some 48

/-- The printed number. -/
def numeral (n : Nat) : List UInt8 := utf8 (toString n)

section Canonical

variable {digits : List UInt8} {n m : Nat}

theorem numeral_of_lt (h : n < 10) : numeral n = [digitByte n] := by
  have hrepr : toString n = ofAscii [digitByte n] := by
    show n.repr = _
    rw [Nat.repr_of_lt h]
    interval_cases n <;> rfl
  rw [numeral, hrepr]
  apply utf8_ofAscii
  intro b hb
  rw [List.mem_singleton.mp hb]
  exact lt_128_of_isDigit (isDigit_digitByte h)

theorem numeral_of_ge (h : 10 ≤ n) : numeral n = numeral (n / 10) ++ [digitByte (n % 10)] := by
  have hlast := numeral_of_lt (Nat.mod_lt n (by decide : 0 < 10))
  show utf8 n.repr = _
  rw [Nat.repr_eq_repr_append_repr h, utf8_append, ← hlast]
  rfl

theorem positional_numeral (n : Nat) : positional (numeral n) 0 = n := by
  induction n using Nat.strong_induction_on with
  | _ n ih =>
      by_cases h : n < 10
      · rw [numeral_of_lt h]
        show 0 * 10 + digitValue (digitByte n) = n
        rw [digitValue_digitByte h, Nat.zero_mul, Nat.zero_add]
      · rw [numeral_of_ge (Nat.le_of_not_lt h), positional_snoc, ih (n / 10) (by omega),
          digitValue_digitByte (Nat.mod_lt n (by decide))]
        omega

theorem canonical_numeral (n : Nat) : CanonicalDigits (numeral n) := by
  induction n using Nat.strong_induction_on with
  | _ n ih =>
      by_cases h : n < 10
      · rw [numeral_of_lt h]
        exact
          { digit := fun b hb => by
              rw [List.mem_singleton.mp hb]
              exact isDigit_digitByte h
            ne_nil := List.cons_ne_nil _ _
            head := fun hlen => absurd hlen (by simp) }
      · have hrest := ih (n / 10) (by omega)
        rw [numeral_of_ge (Nat.le_of_not_lt h)]
        exact
          { digit := fun b hb => by
              rcases List.mem_append.mp hb with hb | hb
              · exact hrest.digit b hb
              · rw [List.mem_singleton.mp hb]
                exact isDigit_digitByte (Nat.mod_lt n (by decide))
            ne_nil := List.append_ne_nil_of_left_ne_nil hrest.ne_nil _
            head := fun _ hzero => by
              rw [List.head?_append_of_ne_nil _ hrest.ne_nil] at hzero
              by_cases hone : 1 < (numeral (n / 10)).length
              · exact hrest.head hone hzero
              · -- a single leading digit is not zero, since the number has two
                have hsmall : n / 10 < 10 := by
                  by_contra hlarge
                  have hlong := congrArg List.length (numeral_of_ge (Nat.le_of_not_lt hlarge))
                  have hpos := List.length_pos_of_ne_nil (ih (n / 10 / 10) (by omega)).ne_nil
                  rw [List.length_append, List.length_singleton] at hlong
                  omega
                rw [numeral_of_lt hsmall] at hzero
                have hvalue := congrArg UInt8.toNat (Option.some.inj hzero)
                rw [toNat_digitByte hsmall] at hvalue
                have : (48 : UInt8).toNat = 48 := rfl
                omega }

/-- A leading digit other than zero gives the number its full size. -/
theorem CanonicalDigits.pow_le (h : CanonicalDigits digits) (hlen : 1 < digits.length) :
    10 ^ (digits.length - 1) ≤ positional digits 0 := by
  obtain ⟨b, rest, rfl⟩ := List.exists_cons_of_ne_nil h.ne_nil
  have hb := isDigit_iff.mp (h.digit b List.mem_cons_self)
  have hzero : b ≠ 48 := fun hb => h.head hlen (congrArg some hb)
  have hne : b.toNat ≠ 48 := fun hb => hzero (UInt8.toNat_inj.mp hb)
  have hpos : 1 ≤ digitValue b := by
    unfold digitValue
    omega
  rw [positional_cons, positional_eq, List.length_cons, Nat.add_sub_cancel, Nat.zero_mul,
    Nat.zero_add]
  have := Nat.mul_le_mul_right (10 ^ rest.length) hpos
  omega

/-- The canonical digit lists are the printed numbers. -/
theorem CanonicalDigits.eq_numeral (h : CanonicalDigits digits) :
    digits = numeral (positional digits 0) := by
  induction digits using List.reverseRecOn with
  | nil => exact absurd rfl h.ne_nil
  | append_singleton rest b ih =>
      have hb := h.digit b (List.mem_append_right _ List.mem_cons_self)
      have hlt := digitValue_lt hb
      rw [positional_snoc]
      by_cases hrest : rest = []
      · subst hrest
        show [b] = numeral (0 * 10 + digitValue b)
        rw [Nat.zero_mul, Nat.zero_add, numeral_of_lt hlt, digitByte_digitValue hb]
      · have hpos := List.length_pos_of_ne_nil hrest
        have hhead : rest.head? ≠ some 48 := by
          have hfull := h.head (by rw [List.length_append, List.length_singleton]; omega)
          rwa [List.head?_append_of_ne_nil _ hrest] at hfull
        have hcanon : CanonicalDigits rest :=
          { digit := fun c hc => h.digit c (List.mem_append_left _ hc)
            ne_nil := hrest
            head := fun _ => hhead }
        have hlarge : 1 ≤ positional rest 0 := by
          by_cases hone : 1 < rest.length
          · exact (Nat.one_le_pow _ _ (by decide)).trans (hcanon.pow_le hone)
          · obtain ⟨c, rfl⟩ := List.length_eq_one_iff.mp (by omega : rest.length = 1)
            have hc := isDigit_iff.mp (hcanon.digit c List.mem_cons_self)
            have hzero : c.toNat ≠ 48 :=
              fun hc => hhead (congrArg some (UInt8.toNat_inj.mp hc))
            show 1 ≤ 0 * 10 + digitValue c
            unfold digitValue
            omega
        have hdiv : (positional rest 0 * 10 + digitValue b) / 10 = positional rest 0 := by omega
        have hmod : (positional rest 0 * 10 + digitValue b) % 10 = digitValue b := by omega
        rw [numeral_of_ge (by omega), hdiv, hmod, ← ih hcanon, digitByte_digitValue hb]

/-- A number has one canonical digit list. -/
theorem canonical_iff_numeral :
    CanonicalDigits digits ∧ positional digits 0 = n ↔ digits = numeral n := by
  constructor
  · rintro ⟨h, rfl⟩
    exact h.eq_numeral
  · rintro rfl
    exact ⟨canonical_numeral n, positional_numeral n⟩

end Canonical

end Basis
