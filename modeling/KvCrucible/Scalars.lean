/-
KvCrucible/Scalars.lean

The wire spellings of the scalar wrappers (`ir.rs`): decimal cursors and
hexadecimal digests.

Both readers work on the bytes of a string.  `DecimalU64.fromStr` reads the
printed numbers and nothing else, because what passes its guards is a
canonical digit list; `decodeSha256` reads the printed digests, because a pair
of nibbles is the spelling of one byte.  So every accepted value has one
spelling.
-/
import KvCrucible.Basis.Decimal
import KvCrucible.Basis.Except
import KvCrucible.Ir

namespace KvCrucible

open Basis

/-- `ScalarError`. -/
inductive ScalarError where
  | emptyDecimal
  | leadingZero
  | invalidDecimal
  | invalidBase64
  | nonCanonicalBase64
  | invalidDigest
  deriving DecidableEq

/-! ### Decimal integers -/

/-- `u64::checked_mul`. -/
def checkedMul (a b : Nat) : Option Nat :=
  if a * b < 2 ^ 64 then some (a * b) else none

/-- One digit of `str::parse::<u64>`. -/
def parseDigit (value : Nat) (byte : UInt8) : Option Nat :=
  if isDigit byte then (checkedMul value 10).bind fun tens => checkedAdd tens (digitValue byte)
  else none

/-- `str::parse::<u64>`: an optional plus sign, then at least one digit. -/
def parseU64 (bytes : List UInt8) : Option UInt64 :=
  let digits := if bytes.head? = some 43 then bytes.tail else bytes
  if digits = [] then none else (digits.foldlM parseDigit 0).map UInt64.ofNat

/-- `<DecimalU64 as Display>::fmt`. -/
def DecimalU64.toString (value : DecimalU64) : String := ToString.toString value.get.toNat

/-- `DecimalU64::from_str`. -/
def DecimalU64.fromStr (value : String) : Except ScalarError DecimalU64 := do
  rejectIf (utf8 value = []) .emptyDecimal
  rejectIf (1 < len value ∧ (utf8 value).head? = some 48) .leadingZero
  rejectIf (¬ (utf8 value).all isDigit) .invalidDecimal
  let number ← okOr (parseU64 (utf8 value)) .invalidDecimal
  return ⟨number⟩

/-- Digits are read up to the largest `u64`. -/
theorem foldlM_parseDigit {digits : List UInt8} (h : ∀ b ∈ digits, isDigit b = true) :
    ∀ {value : Nat}, value < 2 ^ 64 → digits.foldlM parseDigit value =
      if positional digits value < 2 ^ 64 then some (positional digits value) else none := by
  induction digits with
  | nil =>
      intro value hvalue
      exact (if_pos hvalue).symm
  | cons b digits ih =>
      intro value hvalue
      have hb := h b List.mem_cons_self
      have hrest : ∀ c ∈ digits, isDigit c = true := fun c hc => h c (List.mem_cons_of_mem _ hc)
      rw [List.foldlM_cons, positional_cons, parseDigit, if_pos hb]
      by_cases hroom : value * 10 + digitValue b < 2 ^ 64
      · have hmul : checkedMul value 10 = some (value * 10) := if_pos (by omega)
        have hadd : checkedAdd (value * 10) (digitValue b) = some (value * 10 + digitValue b) :=
          if_pos hroom
        rw [hmul, Option.bind_some, hadd]
        exact ih hrest hroom
      · have hnone : ((checkedMul value 10).bind fun tens => checkedAdd tens (digitValue b)) =
            none := by
          rw [Option.bind_eq_none_iff]
          intro tens htens
          by_cases hmul : value * 10 < 2 ^ 64
          · obtain rfl : value * 10 = tens := Option.some.inj ((if_pos hmul).symm.trans htens)
            exact checkedAdd_eq_none.mpr (by omega)
          · exact absurd ((if_neg hmul).symm.trans htens) (Option.some_ne_none _).symm
        have hover : ¬ positional digits (value * 10 + digitValue b) < 2 ^ 64 := by
          have hle := Nat.le_mul_of_pos_right (value * 10 + digitValue b)
            (Nat.pow_pos (n := digits.length) (by decide : 0 < 10))
          rw [positional_eq]
          omega
        rw [hnone, if_neg hover]
        rfl

/-- `str::parse::<u64>` on digits. -/
theorem parseU64_digits {digits : List UInt8} (h : CanonicalDigits digits) : parseU64 digits =
    if positional digits 0 < 2 ^ 64 then some (UInt64.ofNat (positional digits 0)) else none := by
  have hplus : digits.head? ≠ some 43 := by
    intro hhead
    have hdigit := h.digit 43 (List.mem_of_mem_head? hhead)
    cases hdigit
  unfold parseU64
  simp only [if_neg hplus, if_neg h.ne_nil]
  rw [foldlM_parseDigit h.digit (by decide)]
  by_cases hlt : positional digits 0 < 2 ^ 64
  · rw [if_pos hlt, if_pos hlt]
    rfl
  · rw [if_neg hlt, if_neg hlt]
    rfl

/-- The guards of `from_str` leave the canonical digit lists. -/
theorem DecimalU64.fromStr_eq_ok {value : String} {n : DecimalU64} :
    DecimalU64.fromStr value = .ok n ↔
      CanonicalDigits (utf8 value) ∧ parseU64 (utf8 value) = some n.get := by
  unfold DecimalU64.fromStr
  simp only [bind_eq_ok, rejectIf_eq_ok, okOr_eq_ok, pure_eq_ok, exists_and_left, exists_const,
    not_not, List.all_eq_true]
  constructor
  · rintro ⟨hne, hzero, hdigit, number, hnumber, rfl⟩
    rw [len, ← length_utf8] at hzero
    exact ⟨⟨hdigit, hne, fun hlen hhead => hzero ⟨hlen, hhead⟩⟩, hnumber⟩
  · rintro ⟨hcanon, hnumber⟩
    refine ⟨hcanon.ne_nil, ?_, hcanon.digit, n.get, hnumber, rfl⟩
    rw [len, ← length_utf8]
    exact fun hzero => hcanon.head hzero.1 hzero.2

/-- `from_str` reads the printed numbers. -/
theorem DecimalU64.fromStr_iff {value : String} {n : DecimalU64} :
    DecimalU64.fromStr value = .ok n ↔ value = n.toString := by
  have hprinted : value = n.toString ↔ utf8 value = numeral n.get.toNat := utf8_inj.symm
  rw [DecimalU64.fromStr_eq_ok, hprinted, ← canonical_iff_numeral, and_congr_right_iff]
  intro hcanon
  rw [parseU64_digits hcanon]
  by_cases hlt : positional (utf8 value) 0 < 2 ^ 64
  · rw [if_pos hlt, Option.some.injEq, ← UInt64.toNat_inj, UInt64.toNat_ofNat_of_lt' hlt]
  · have hne : positional (utf8 value) 0 ≠ n.get.toNat := by
      intro heq
      exact hlt (heq ▸ n.get.toNat_lt)
    rw [if_neg hlt]
    exact iff_of_false (Option.some_ne_none _).symm hne

/-! ### Digests -/

/-- `HEX`. -/
def hexDigits : List UInt8 :=
  [48, 49, 50, 51, 52, 53, 54, 55, 56, 57, 97, 98, 99, 100, 101, 102]

/-- `HEX[index]`, which is in range for a nibble. -/
def hexDigit (nibble : UInt8) : UInt8 := hexDigits.getD nibble.toNat 0

/-- `encode_hex`. -/
def encodeHex (bytes : Vector UInt8 32) : String :=
  bytes.toList.foldl (fun encoded (byte : UInt8) =>
    (encoded.push (asciiChar (hexDigit (byte >>> 4)))).push
      (asciiChar (hexDigit (byte &&& 0x0f)))) ""

/-- `decode_nibble`. -/
def decodeNibble (byte : UInt8) : Option UInt8 :=
  if 48 ≤ byte ∧ byte ≤ 57 then some (byte - 48)
  else if 97 ≤ byte ∧ byte ≤ 102 then some (byte - 97 + 10)
  else none

/-- `chunks_exact(2)`. -/
def chunksExact : List UInt8 → List (UInt8 × UInt8)
  | first :: second :: rest => (first, second) :: chunksExact rest
  | _ => []

/-- The loop body of `decode_sha256`, before the assignment. -/
def decodePair (pair : UInt8 × UInt8) : Except ScalarError UInt8 := do
  let high ← okOr (decodeNibble pair.1) .invalidDigest
  let low ← okOr (decodeNibble pair.2) .invalidDigest
  return (high <<< 4) ||| low

/-- The loop of `decode_sha256`: `decoded[index]` is assigned in order. -/
def decodePairs (decoded : Vector UInt8 32) (pairs : List ((UInt8 × UInt8) × Nat)) :
    Except ScalarError (Vector UInt8 32) :=
  pairs.foldlM (fun decoded pair => do
    let byte ← decodePair pair.1
    return decoded.setIfInBounds pair.2 byte) decoded

/-- `decode_sha256`. -/
def decodeSha256 (value : String) : Except ScalarError (Vector UInt8 32) := do
  rejectIf (len value ≠ 64) .invalidDigest
  decodePairs (Vector.replicate 32 0) (chunksExact (utf8 value)).zipIdx

/-- The two digits of a byte. -/
def hexPair (byte : UInt8) : List UInt8 := [hexDigit (byte >>> 4), hexDigit (byte &&& 0x0f)]

theorem hexDigit_ascii (nibble : UInt8) : hexDigit nibble < 128 := by
  by_cases h : nibble.toNat < 16
  · rw [hexDigit]
    interval_cases nibble.toNat <;> decide
  · have hlength : hexDigits.length ≤ nibble.toNat := Nat.le_of_not_lt h
    rw [hexDigit, List.getD_eq_default _ _ hlength]
    decide

theorem decodeNibble_hexDigit {nibble : UInt8} (h : nibble < 16) :
    decodeNibble (hexDigit nibble) = some nibble := by
  have hlt : nibble.toNat < 16 := UInt8.lt_iff_toNat_lt.mp h
  have hself : nibble = UInt8.ofNat nibble.toNat := UInt8.ofNat_toNat.symm
  rw [hself]
  interval_cases nibble.toNat <;> rfl

/-- What decodes to a nibble is the nibble's digit. -/
theorem decodeNibble_eq_some {byte nibble : UInt8} :
    decodeNibble byte = some nibble ↔ nibble < 16 ∧ byte = hexDigit nibble := by
  constructor
  · intro h
    have hself : byte = UInt8.ofNat byte.toNat := UInt8.ofNat_toNat.symm
    unfold decodeNibble at h
    by_cases hdigit : 48 ≤ byte ∧ byte ≤ 57
    · rw [if_pos hdigit] at h
      obtain rfl := Option.some.inj h
      have hlow : 48 ≤ byte.toNat := UInt8.le_iff_toNat_le.mp hdigit.1
      have hhigh : byte.toNat ≤ 57 := UInt8.le_iff_toNat_le.mp hdigit.2
      rw [hself]
      interval_cases byte.toNat <;> decide
    · rw [if_neg hdigit] at h
      by_cases hletter : 97 ≤ byte ∧ byte ≤ 102
      · rw [if_pos hletter] at h
        obtain rfl := Option.some.inj h
        have hlow : 97 ≤ byte.toNat := UInt8.le_iff_toNat_le.mp hletter.1
        have hhigh : byte.toNat ≤ 102 := UInt8.le_iff_toNat_le.mp hletter.2
        rw [hself]
        interval_cases byte.toNat <;> decide
      · rw [if_neg hletter] at h
        cases h
  · rintro ⟨hlt, rfl⟩
    exact decodeNibble_hexDigit hlt

/-! ### Nibbles of a byte -/

theorem toNat_high (byte : UInt8) : (byte >>> 4).toNat = byte.toNat / 16 := by
  rw [UInt8.toNat_shiftRight]
  exact Nat.shiftRight_eq_div_pow byte.toNat 4

theorem toNat_low (byte : UInt8) : (byte &&& 0x0f).toNat = byte.toNat % 16 := by
  rw [UInt8.toNat_and]
  exact Nat.and_two_pow_sub_one_eq_mod byte.toNat 4

/-- Two nibbles make up the byte with these nibbles. -/
theorem toNat_join {high low : UInt8} (hhigh : high < 16) (hlow : low < 16) :
    ((high <<< 4) ||| low).toNat = high.toNat * 16 + low.toNat := by
  have hhigh : high.toNat < 16 := UInt8.lt_iff_toNat_lt.mp hhigh
  have hlow : low.toNat < 2 ^ 4 := UInt8.lt_iff_toNat_lt.mp hlow
  have hshift : (high <<< 4).toNat = high.toNat <<< 4 := by
    rw [UInt8.toNat_shiftLeft]
    show high.toNat <<< 4 % 2 ^ 8 = high.toNat <<< 4
    rw [Nat.shiftLeft_eq, Nat.mod_eq_of_lt (by omega)]
  rw [UInt8.toNat_or, hshift, ← Nat.shiftLeft_add_eq_or_of_lt hlow, Nat.shiftLeft_eq]

theorem high_lt (byte : UInt8) : byte >>> 4 < 16 := by
  have hbyte := byte.toNat_lt
  apply UInt8.lt_iff_toNat_lt.mpr
  rw [toNat_high]
  show byte.toNat / 16 < 16
  omega

theorem low_lt (byte : UInt8) : byte &&& 0x0f < 16 := by
  apply UInt8.lt_iff_toNat_lt.mpr
  rw [toNat_low]
  exact Nat.mod_lt _ (by decide)

theorem join_nibbles (byte : UInt8) : ((byte >>> 4) <<< 4) ||| (byte &&& 0x0f) = byte := by
  apply UInt8.toNat_inj.mp
  rw [toNat_join (high_lt byte) (low_lt byte), toNat_high, toNat_low]
  omega

theorem nibbles_join {high low : UInt8} (hhigh : high < 16) (hlow : low < 16) :
    ((high <<< 4) ||| low) >>> 4 = high ∧ ((high <<< 4) ||| low) &&& 0x0f = low := by
  have hjoin := toNat_join hhigh hlow
  have hlt : low.toNat < 16 := UInt8.lt_iff_toNat_lt.mp hlow
  constructor
  · apply UInt8.toNat_inj.mp
    rw [toNat_high, hjoin]
    omega
  · apply UInt8.toNat_inj.mp
    rw [toNat_low, hjoin]
    omega

/-- A pair of digits is read as the byte it spells. -/
theorem decodePair_eq_ok {pair : UInt8 × UInt8} {byte : UInt8} :
    decodePair pair = .ok byte ↔ [pair.1, pair.2] = hexPair byte := by
  unfold decodePair
  simp only [bind_eq_ok, okOr_eq_ok, pure_eq_ok, decodeNibble_eq_some]
  constructor
  · rintro ⟨high, ⟨hhigh, hfirst⟩, low, ⟨hlow, hsecond⟩, rfl⟩
    obtain ⟨hupper, hlower⟩ := nibbles_join hhigh hlow
    rw [hexPair, hupper, hlower, hfirst, hsecond]
  · intro h
    obtain ⟨hfirst, hrest⟩ := List.cons.inj h
    exact ⟨_, ⟨high_lt byte, hfirst⟩, _, ⟨low_lt byte, (List.cons.inj hrest).1⟩,
      join_nibbles byte⟩

/-! ### Digests as lists of pairs -/

theorem utf8_encodeHex (digest : Vector UInt8 32) :
    utf8 (encodeHex digest) = digest.toList.flatMap hexPair := by
  have hpush : ∀ (text : String) (byte : UInt8), utf8 (text.push (asciiChar (hexDigit byte))) =
      utf8 text ++ [hexDigit byte] := by
    intro text byte
    rw [← String.append_singleton, utf8_append, String.singleton_eq_ofList, utf8_ofList]
    rw [List.flatMap_cons, encode_asciiChar (hexDigit_ascii byte)]
    rfl
  have hfold : ∀ (bytes : List UInt8) (text : String),
      utf8 (bytes.foldl (fun encoded (byte : UInt8) =>
        (encoded.push (asciiChar (hexDigit (byte >>> 4)))).push
          (asciiChar (hexDigit (byte &&& 0x0f)))) text) = utf8 text ++ bytes.flatMap hexPair := by
    intro bytes
    induction bytes with
    | nil =>
        intro text
        exact (List.append_nil _).symm
    | cons byte bytes ih =>
        intro text
        rw [List.foldl_cons, ih, hpush, hpush, List.append_assoc, List.append_assoc,
          List.flatMap_cons]
        rfl
  exact hfold digest.toList ""

theorem length_flatMap_hexPair (bytes : List UInt8) :
    (bytes.flatMap hexPair).length = 2 * bytes.length := by
  induction bytes with
  | nil => rfl
  | cons byte bytes ih =>
      rw [List.flatMap_cons, List.length_append, ih, List.length_cons]
      show 2 + _ = _
      omega

/-- The assignments of the loop, from `index` on. -/
theorem decodePairs_eq_ok {pairs : List (UInt8 × UInt8)} :
    ∀ {index : Nat} {decoded digest : Vector UInt8 32}, index + pairs.length = 32 →
      (decodePairs decoded (pairs.zipIdx index) = .ok digest ↔
        pairs.mapM decodePair = .ok (digest.toList.drop index) ∧
          digest.toList.take index = decoded.toList.take index) := by
  induction pairs with
  | nil =>
      intro index decoded digest hlength
      obtain rfl : index = 32 := hlength
      have hfull : ∀ v : Vector UInt8 32, v.toList.take 32 = v.toList :=
        fun v => List.take_of_length_le (Nat.le_of_eq v.length_toList)
      have hdrop : digest.toList.drop 32 = [] :=
        List.drop_of_length_le (Nat.le_of_eq digest.length_toList)
      rw [hfull, hfull, hdrop, Vector.toList_inj]
      constructor
      · intro h
        exact ⟨rfl, (Except.ok.inj h).symm⟩
      · rintro ⟨-, rfl⟩
        rfl
  | cons pair pairs ih =>
      intro index decoded digest hlength
      have hindex : index < 32 := by
        rw [List.length_cons] at hlength
        omega
      have hin : index < digest.toList.length := by rwa [Vector.length_toList]
      have hset : ∀ byte, (decoded.setIfInBounds index byte).toList.take (index + 1) =
          decoded.toList.take index ++ [byte] := by
        intro byte
        rw [Vector.toList_setIfInBounds, List.take_add_one, List.take_set_of_le (Nat.le_refl index),
          List.getElem?_set_self (by rwa [Vector.length_toList])]
        rfl
      have hdigest : digest.toList.take (index + 1) =
          digest.toList.take index ++ [digest.toList[index]] := by
        rw [List.take_add_one, List.getElem?_eq_getElem hin]
        rfl
      have hstep : decodePairs decoded ((pair :: pairs).zipIdx index) =
          (decodePair pair >>= fun byte =>
            decodePairs (decoded.setIfInBounds index byte) (pairs.zipIdx (index + 1))) := by
        rw [List.zipIdx_cons, decodePairs, List.foldlM_cons, bind_assoc]
        rfl
      rw [hstep, List.drop_eq_getElem_cons hin, List.mapM_cons]
      simp only [bind_eq_ok, pure_eq_ok, List.cons.injEq]
      constructor
      · rintro ⟨byte, hbyte, hrest⟩
        obtain ⟨hmap, htake⟩ := (ih (by rw [List.length_cons] at hlength; omega)).mp hrest
        rw [hset, hdigest] at htake
        obtain ⟨hbefore, hlast⟩ := List.append_inj' htake rfl
        exact ⟨⟨byte, hbyte, _, hmap, (List.cons.inj hlast).1.symm, rfl⟩, hbefore⟩
      · rintro ⟨⟨byte, hbyte, _, hmap, rfl, rfl⟩, hbefore⟩
        refine ⟨_, hbyte, (ih (by rw [List.length_cons] at hlength; omega)).mpr ⟨hmap, ?_⟩⟩
        rw [hset, hdigest, hbefore]

/-- Reading pairs is undoing their spelling. -/
theorem mapM_decodePair {bytes : List UInt8} :
    ∀ {text : List UInt8}, text.length = 2 * bytes.length →
      ((chunksExact text).mapM decodePair = .ok bytes ↔ text = bytes.flatMap hexPair) := by
  induction bytes with
  | nil =>
      intro text hlength
      obtain rfl := List.length_eq_zero_iff.mp hlength
      exact iff_of_true rfl rfl
  | cons byte bytes ih =>
      intro text hlength
      obtain ⟨first, second, rest, rfl⟩ : ∃ first second rest, text = first :: second :: rest := by
        cases text with
        | nil => cases hlength
        | cons first rest =>
            cases rest with
            | nil => rw [List.length_cons, List.length_cons] at hlength; simp at hlength; omega
            | cons second rest => exact ⟨first, second, rest, rfl⟩
      have hrest : rest.length = 2 * bytes.length := by
        rw [List.length_cons, List.length_cons, List.length_cons] at hlength
        omega
      rw [chunksExact, List.mapM_cons, List.flatMap_cons]
      simp only [bind_eq_ok, pure_eq_ok, List.cons.injEq, decodePair_eq_ok]
      constructor
      · rintro ⟨_, hpair, _, hmap, rfl, rfl⟩
        rw [← (ih hrest).mp hmap, ← hpair]
        rfl
      · intro h
        obtain ⟨hpair, htail⟩ : [first, second] = hexPair byte ∧ rest = bytes.flatMap hexPair :=
          List.append_inj h rfl
        exact ⟨_, hpair, _, (ih hrest).mpr htail, rfl, rfl⟩

theorem length_chunksExact {n : Nat} :
    ∀ {text : List UInt8}, text.length = 2 * n → (chunksExact text).length = n := by
  induction n with
  | zero =>
      intro text hlength
      obtain rfl := List.length_eq_zero_iff.mp hlength
      rfl
  | succ n ih =>
      intro text hlength
      cases text with
      | nil => cases hlength
      | cons first rest =>
          cases rest with
          | nil => rw [List.length_singleton] at hlength; omega
          | cons second rest =>
              rw [List.length_cons, List.length_cons] at hlength
              rw [chunksExact, List.length_cons, ih (by omega)]

/-- `decode_sha256` reads the printed digests. -/
theorem decodeSha256_iff {value : String} {digest : Vector UInt8 32} :
    decodeSha256 value = .ok digest ↔ value = encodeHex digest := by
  have hprinted : value = encodeHex digest ↔ utf8 value = digest.toList.flatMap hexPair := by
    rw [← utf8_inj, utf8_encodeHex]
  have hlen : len value = (utf8 value).length := (length_utf8 value).symm
  unfold decodeSha256
  simp only [bind_eq_ok, rejectIf_eq_ok, exists_and_left, exists_const, not_not]
  rw [hprinted, hlen]
  constructor
  · rintro ⟨hlength, hpairs⟩
    have hchunks : (chunksExact (utf8 value)).length = 32 := length_chunksExact hlength
    obtain ⟨hmap, -⟩ := (decodePairs_eq_ok (by rw [hchunks])).mp hpairs
    rw [List.drop_zero] at hmap
    exact (mapM_decodePair (by rw [hlength, Vector.length_toList])).mp hmap
  · intro htext
    have hlength : (utf8 value).length = 64 := by
      rw [htext, length_flatMap_hexPair, Vector.length_toList]
    have hchunks : (chunksExact (utf8 value)).length = 32 := length_chunksExact hlength
    refine ⟨hlength, (decodePairs_eq_ok (by rw [hchunks])).mpr ⟨?_, rfl⟩⟩
    rw [List.drop_zero]
    exact (mapM_decodePair (by rw [hlength, Vector.length_toList])).mpr htext

/-! ### One spelling each -/

/-- The readers accept exactly the printed values: a cursor or an integer hash
has its decimal printing for a spelling, a digest its lower-case hexadecimal
printing, and neither has another.  The largest cursor is read, the next
number is not. -/
theorem scalars_have_one_spelling :
    (∀ (value : String) (n : DecimalU64),
      DecimalU64.fromStr value = .ok n ↔ value = n.toString) ∧
    (∀ (value : String) (digest : Vector UInt8 32),
      decodeSha256 value = .ok digest ↔ value = encodeHex digest) ∧
    (∀ n : DecimalU64, DecimalU64.fromStr n.toString = .ok n) ∧
    (∀ digest : Vector UInt8 32, decodeSha256 (encodeHex digest) = .ok digest) ∧
    DecimalU64.fromStr "18446744073709551615" = .ok ⟨18446744073709551615⟩ ∧
    DecimalU64.fromStr "18446744073709551616" = .error .invalidDecimal :=
  ⟨fun _ _ => DecimalU64.fromStr_iff, fun _ _ => decodeSha256_iff,
    fun _ => DecimalU64.fromStr_iff.mpr rfl, fun _ => decodeSha256_iff.mpr rfl, by decide, by decide⟩

end KvCrucible
