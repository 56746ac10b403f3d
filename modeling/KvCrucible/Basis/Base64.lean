/-
KvCrucible/Basis/Base64.lean

Base64 with the standard alphabet and padding.

Three bytes are four letters of six bits each; a last group of one or two
bytes is filled up with pads.  The pads say how long the last group is, and
the letters of a group determine its bytes, so that no two byte strings have
the same encoding (`encode_inj`), and `decode` reads them back
(`decode_encode`).
-/
import KvCrucible.Basis.Decimal

namespace Basis

namespace Base64

/-- The letter of six bits. -/
def letter (n : Nat) : UInt8 :=
  if n < 26 then UInt8.ofNat (65 + n)
  else if n < 52 then UInt8.ofNat (71 + n)
  else if n < 62 then UInt8.ofNat (n - 4)
  else if n = 62 then 43
  else 47

/-- The pad. -/
def pad : UInt8 := 61

/-- The letters of a byte string. -/
def encode : List UInt8 → List UInt8
  | [] => []
  | [a] => [letter (a.toNat / 4), letter (a.toNat % 4 * 16), pad, pad]
  | [a, b] => [letter (a.toNat / 4), letter (a.toNat % 4 * 16 + b.toNat / 16),
      letter (b.toNat % 16 * 4), pad]
  | a :: b :: c :: rest => letter (a.toNat / 4) :: letter (a.toNat % 4 * 16 + b.toNat / 16) ::
      letter (b.toNat % 16 * 4 + c.toNat / 64) :: letter (c.toNat % 64) :: encode rest

/-- The encoding as a string. -/
def encodeString (bytes : List UInt8) : String := ofAscii (encode bytes)

example : encode [77, 97, 110, 33] = [84, 87, 70, 117, 73, 81, 61, 61] := by decide

theorem letter_inj : ∀ {m n : Nat}, m < 64 → n < 64 → letter m = letter n → m = n := by
  have h : ∀ m n : Fin 64, letter m = letter n → m = n := by decide +kernel
  intro m n hm hn heq
  exact Fin.mk.inj (h ⟨m, hm⟩ ⟨n, hn⟩ heq)

theorem letter_ne_pad {n : Nat} (hn : n < 64) : letter n ≠ pad := by
  have h : ∀ n : Fin 64, letter n ≠ pad := by decide +kernel
  exact h ⟨n, hn⟩

theorem letter_ascii {n : Nat} (hn : n < 64) : letter n < 128 := by
  have h : ∀ n : Fin 64, letter n < 128 := by decide +kernel
  exact h ⟨n, hn⟩

theorem encode_ascii (bytes : List UInt8) : ∀ b ∈ encode bytes, b < 128 := by
  have hpad : pad < 128 := by decide
  induction bytes using encode.induct with
  | case1 => exact List.forall_mem_nil _
  | case2 a =>
      have ha := a.toNat_lt
      rw [encode]
      simp only [List.forall_mem_cons]
      exact ⟨letter_ascii (by omega), letter_ascii (by omega), hpad, hpad, List.forall_mem_nil _⟩
  | case3 a b =>
      have ha := a.toNat_lt
      have hb := b.toNat_lt
      rw [encode]
      simp only [List.forall_mem_cons]
      exact ⟨letter_ascii (by omega), letter_ascii (by omega), letter_ascii (by omega), hpad,
        List.forall_mem_nil _⟩
  | case4 a b c rest ih =>
      have ha := a.toNat_lt
      have hb := b.toNat_lt
      have hc := c.toNat_lt
      rw [encode]
      simp only [List.forall_mem_cons]
      exact ⟨letter_ascii (by omega), letter_ascii (by omega), letter_ascii (by omega),
        letter_ascii (by omega), ih⟩

/-- The bits of a byte in two letters. -/
theorem byte_ext {a a' : UInt8} (hhigh : a.toNat / 4 = a'.toNat / 4)
    (hlow : a.toNat % 4 = a'.toNat % 4) : a = a' := by
  apply UInt8.toNat_inj.mp
  omega

/-- The encoding determines the bytes. -/
theorem encode_inj {bytes bytes' : List UInt8} (h : encode bytes = encode bytes') :
    bytes = bytes' := by
  induction bytes using encode.induct generalizing bytes' with
  | case1 =>
      rcases bytes' with _ | ⟨a, _ | ⟨b, _ | ⟨c, rest⟩⟩⟩
      · rfl
      all_goals cases h
  | case2 a =>
      have ha := a.toNat_lt
      rcases bytes' with _ | ⟨a', _ | ⟨b', _ | ⟨c', rest'⟩⟩⟩
      · cases h
      · have ha' := a'.toNat_lt
        simp only [encode, List.cons.injEq, and_true] at h
        have h₁ := letter_inj (by omega) (by omega) h.1
        have h₂ := letter_inj (by omega) (by omega) h.2
        rw [byte_ext h₁ (by omega)]
      · have hb' := b'.toNat_lt
        simp only [encode, List.cons.injEq] at h
        exact absurd h.2.2.1.symm (letter_ne_pad (by omega))
      · have hc' := c'.toNat_lt
        have hb' := b'.toNat_lt
        simp only [encode, List.cons.injEq] at h
        exact absurd h.2.2.1.symm (letter_ne_pad (by omega))
  | case3 a b =>
      have ha := a.toNat_lt
      have hb := b.toNat_lt
      rcases bytes' with _ | ⟨a', _ | ⟨b', _ | ⟨c', rest'⟩⟩⟩
      · cases h
      · simp only [encode, List.cons.injEq] at h
        exact absurd h.2.2.1 (letter_ne_pad (by omega))
      · have ha' := a'.toNat_lt
        have hb' := b'.toNat_lt
        simp only [encode, List.cons.injEq, and_true] at h
        have h₁ := letter_inj (by omega) (by omega) h.1
        have h₂ := letter_inj (by omega) (by omega) h.2.1
        have h₃ := letter_inj (by omega) (by omega) h.2.2
        rw [byte_ext h₁ (by omega), @byte_ext b b' (by omega) (by omega)]
      · have hc' := c'.toNat_lt
        simp only [encode, List.cons.injEq] at h
        exact absurd h.2.2.2.1.symm (letter_ne_pad (by omega))
  | case4 a b c rest ih =>
      have ha := a.toNat_lt
      have hb := b.toNat_lt
      have hc := c.toNat_lt
      rcases bytes' with _ | ⟨a', _ | ⟨b', _ | ⟨c', rest'⟩⟩⟩
      · cases h
      · simp only [encode, List.cons.injEq] at h
        exact absurd h.2.2.1 (letter_ne_pad (by omega))
      · simp only [encode, List.cons.injEq] at h
        exact absurd h.2.2.2.1 (letter_ne_pad (by omega))
      · have ha' := a'.toNat_lt
        have hb' := b'.toNat_lt
        have hc' := c'.toNat_lt
        simp only [encode, List.cons.injEq] at h
        obtain ⟨h₁, h₂, h₃, h₄, hrest⟩ := h
        have h₁ := letter_inj (by omega) (by omega) h₁
        have h₂ := letter_inj (by omega) (by omega) h₂
        have h₃ := letter_inj (by omega) (by omega) h₃
        have h₄ := letter_inj (by omega) (by omega) h₄
        have hab : a = a' := byte_ext h₁ (by omega)
        have hbb : b = b' := byte_ext (by omega) (by omega)
        have hcc : c = c' := byte_ext (by omega) (by omega)
        rw [hab, hbb, hcc, ih hrest]

theorem encodeString_inj {bytes bytes' : List UInt8} (h : encodeString bytes = encodeString bytes') :
    bytes = bytes' := by
  apply encode_inj
  rw [← utf8_ofAscii (encode_ascii bytes), ← utf8_ofAscii (encode_ascii bytes')]
  exact congrArg utf8 h

/-! ### Reading it back -/

/-- The six bits of a letter. -/
def sextet (b : UInt8) : Option Nat :=
  if 65 ≤ b ∧ b ≤ 90 then some (b.toNat - 65)
  else if 97 ≤ b ∧ b ≤ 122 then some (b.toNat - 71)
  else if 48 ≤ b ∧ b ≤ 57 then some (b.toNat + 4)
  else if b = 43 then some 62
  else if b = 47 then some 63
  else none

/-- The byte of a group that ends with two pads; the bits left over are
zero. -/
def lastByte (w x : Nat) : Option (List UInt8) :=
  if x % 16 = 0 then some [UInt8.ofNat (w * 4 + x / 16)] else none

/-- The bytes of a group that ends with one pad. -/
def lastBytes (w x y : Nat) : Option (List UInt8) :=
  if y % 4 = 0 then
    some [UInt8.ofNat (w * 4 + x / 16), UInt8.ofNat (x % 16 * 16 + y / 4)]
  else none

/-- The bytes of a whole group. -/
def group (w x y z : Nat) : List UInt8 :=
  [UInt8.ofNat (w * 4 + x / 16), UInt8.ofNat (x % 16 * 16 + y / 4), UInt8.ofNat (y % 4 * 64 + z)]

/-- The bytes of an encoding.  Pads are required, and only at the end. -/
def decode : List UInt8 → Option (List UInt8)
  | [] => some []
  | w :: x :: y :: z :: rest =>
      (sextet w).bind fun w => (sextet x).bind fun x =>
        if rest = [] ∧ z = pad then
          if y = pad then lastByte w x else (sextet y).bind fun y => lastBytes w x y
        else (sextet y).bind fun y => (sextet z).bind fun z =>
          (decode rest).map (group w x y z ++ ·)
  | _ => none

theorem sextet_letter {n : Nat} (hn : n < 64) : sextet (letter n) = some n := by
  have h : ∀ n : Fin 64, sextet (letter n) = some n.val := by decide +kernel
  exact h ⟨n, hn⟩

/-- A byte from its number. -/
theorem ofNat_eq {a : UInt8} {n : Nat} (h : n = a.toNat) : UInt8.ofNat n = a := by
  rw [h, UInt8.ofNat_toNat]

theorem decode_encode (bytes : List UInt8) : decode (encode bytes) = some bytes := by
  induction bytes using encode.induct with
  | case1 => rfl
  | case2 a =>
      have ha := a.toNat_lt
      rw [encode, decode, sextet_letter (by omega), sextet_letter (by omega), Option.bind_some,
        Option.bind_some, if_pos ⟨rfl, rfl⟩, if_pos rfl, lastByte, if_pos (by omega),
        @ofNat_eq a _ (by omega)]
  | case3 a b =>
      have ha := a.toNat_lt
      have hb := b.toNat_lt
      have hpad : letter (b.toNat % 16 * 4) ≠ pad := letter_ne_pad (by omega)
      rw [encode, decode, sextet_letter (by omega), sextet_letter (by omega), Option.bind_some,
        Option.bind_some, if_pos ⟨rfl, rfl⟩, if_neg hpad, sextet_letter (by omega),
        Option.bind_some, lastBytes, if_pos (by omega), @ofNat_eq a _ (by omega),
        @ofNat_eq b _ (by omega)]
  | case4 a b c rest ih =>
      have ha := a.toNat_lt
      have hb := b.toNat_lt
      have hc := c.toNat_lt
      have hpad : letter (c.toNat % 64) ≠ pad := letter_ne_pad (by omega)
      rw [encode, decode, sextet_letter (by omega), sextet_letter (by omega), Option.bind_some,
        Option.bind_some, if_neg fun h => hpad h.2, sextet_letter (by omega),
        sextet_letter (by omega), Option.bind_some, Option.bind_some, ih, Option.map_some, group,
        @ofNat_eq a _ (by omega), @ofNat_eq b _ (by omega), @ofNat_eq c _ (by omega)]
      rfl

/-- The bytes of an encoded string. -/
def decodeString (value : String) : Option (List UInt8) := decode (utf8 value)

theorem decodeString_encodeString (bytes : List UInt8) :
    decodeString (encodeString bytes) = some bytes := by
  rw [decodeString, encodeString, utf8_ofAscii (encode_ascii bytes), decode_encode]

end Base64

end Basis
