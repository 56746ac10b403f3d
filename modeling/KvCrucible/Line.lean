/-
KvCrucible/Line.lean

Decoding one physical line (`decode_line` in `codec.rs`).

The conversion of a JSON tree into a typed record is derived by a third-party
library from the types of `ir.rs`; it is a parameter here.
-/
import KvCrucible.Budgets

namespace KvCrucible

open Basis

/-- `str::from_utf8` succeeds. -/
def isUtf8 (bytes : List UInt8) : Bool := (ByteArray.mk bytes.toArray).validateUTF8

/-- `Utf8Error::valid_up_to`: the longest valid start. -/
def validUpTo (bytes : List UInt8) : Nat :=
  Nat.findGreatest (fun n => isUtf8 (bytes.take n) = true) bytes.length

/-- Space and tab. -/
def isPadding (byte : UInt8) : Bool := byte == 32 || byte == 9

/-- `decode_line`. -/
def decodeLine (reader : Reader) (convert : Json → Option Record) (input : List UInt8)
    (limits : Limits) : Except CodecError ValidatedRecord := do
  validateLimits limits
  enforceLineLimit (payloadLength input) limits.maxLineBytes.toNat
  let payload ← splitPayload input
  rejectIf (payload.all isPadding) .emptyLine
  rejectIf (¬ isUtf8 payload) (.invalidUtf8 (validUpTo payload))
  let value ← decodeValue reader payload limits
  let record ← okOr (convert value) .schema
  (ValidatedRecord.new record limits).mapError .validation

/-! ### Lines that pass -/

/-- The bytes of a string are valid. -/
theorem isUtf8_utf8 (s : String) : isUtf8 (utf8 s) = true := by
  unfold isUtf8 utf8
  rw [ByteArray.validateUTF8_eq_true_iff, Array.toArray_toList]
  exact s.isValidUTF8

/-- The scan passes a text without digits and minus signs. -/
theorem classifyFrom_of_no_number {text : List UInt8} : ∀ {inString escaped : Bool}
    {previous : Option UInt8}, (∀ b ∈ text, isNumberStart b = false) →
      classifyFrom ⟨text, inString, escaped, previous⟩ = .ok () := by
  induction text with
  | nil => exact fun _ => classifyFrom_done rfl
  | cons b text ih =>
      intro inString escaped previous h
      obtain ⟨hb, htext⟩ := List.forall_mem_cons.mp h
      have hnumber : numberAt ⟨b :: text, inString, escaped, previous⟩ b = none := by
        rw [numberAt, hb]
        rfl
      -- In every state the loop moves on by one byte.
      obtain ⟨⟨rest, inString', escaped', previous'⟩, hstep, hrest⟩ : ∃ s : ScanState,
          classifyStep ⟨b :: text, inString, escaped, previous⟩ = .next s ∧ s.text = text := by
        unfold classifyStep
        dsimp only
        split_ifs
        · exact ⟨_, rfl, text_stringStep _ _ _⟩
        · exact ⟨_, rfl, rfl⟩
        · exact ⟨_, rfl, rfl⟩
        · rw [hnumber]
          exact ⟨_, rfl, rfl⟩
      obtain rfl : rest = text := hrest
      rw [classifyFrom_next hstep]
      exact ih htext

/-! ### Failures -/

/-- A number is the only reason to stop the scan. -/
theorem classifyStep_failed {s : ScanState} {error : CodecError}
    (h : classifyStep s = .failed error) : error = .nonIntegerNumber ∨ error = .unsafeInteger := by
  have htoken : ∀ token, classifyToken s token = .failed error →
      error = .nonIntegerNumber ∨ error = .unsafeInteger := by
    intro token h
    unfold classifyToken at h
    by_cases hnon : token.nonInteger = true
    · rw [if_pos hnon] at h
      exact .inl (ScanStep.failed.inj h).symm
    · rw [if_neg hnon] at h
      by_cases hlarge : integerExceedsSafeRange token.integer = true
      · rw [if_pos hlarge] at h
        exact .inr (ScanStep.failed.inj h).symm
      · rw [if_neg hlarge] at h
        cases h
  unfold classifyStep at h
  split at h
  · cases h
  · rename_i byte rest _
    split_ifs at h
    split at h
    · rename_i token _
      exact htoken token h
    · cases h

/-- The scan fails for a number only. -/
theorem classifyFrom_eq_error {s : ScanState} {error : CodecError}
    (h : classifyFrom s = .error error) : error = .nonIntegerNumber ∨ error = .unsafeInteger := by
  induction s using classifyFrom.induct with
  | case1 s hstep =>
      rw [classifyFrom_done hstep] at h
      cases h
  | case2 s failure hstep =>
      rw [classifyFrom_failed hstep] at h
      obtain rfl := Except.error.inj h
      exact classifyStep_failed hstep
  | case3 s s' hstep ih =>
      rw [classifyFrom_next hstep] at h
      exact ih h

/-- No failure of the decoder is one of validation. -/
theorem decodeValue_ne_validation {reader : Reader} {text : List UInt8} {limits : Limits}
    {error : ValidationError} : decodeValue reader text limits ≠ .error (.validation error) := by
  intro h
  rcases bind_eq_error h with h | ⟨_, -, h⟩
  · rcases classifyFrom_eq_error h with h | h
    · cases h
    · cases h
  rcases bind_eq_error h with h | ⟨_, -, h⟩
  · obtain ⟨failure, -, h⟩ := mapError_eq_error.mp h
    cases failure with
    | reader => cases h
    | policy failure => cases failure <;> cases h
  rcases bind_eq_error h with h | ⟨_, -, h⟩
  · obtain ⟨-, h⟩ := rejectIf_eq_error.mp h
    cases h
  · cases h

theorem validatedRecord_new_eq_error {record : Record} {limits : Limits} {error : ValidationError}
    (h : ValidatedRecord.new record limits = .error error) :
    record.validate limits = .error error := by
  unfold ValidatedRecord.new at h
  split at h
  · cases h
  · rename_i herror
    rw [herror, Except.error.inj h]

theorem validatedRecord_new_error {record : Record} {limits : Limits} {error : ValidationError}
    (h : record.validate limits = .error error) :
    ValidatedRecord.new record limits = .error error := by
  unfold ValidatedRecord.new
  split
  · rename_i hok
    cases h.symm.trans hok
  · rename_i herror
    rw [Except.error.inj (herror.symm.trans h)]

/-- A line that fails validation has been decoded and converted. -/
theorem decodeLine_validation {reader : Reader} {convert : Json → Option Record}
    {input : List UInt8} {limits : Limits} {error : ValidationError}
    (h : decodeLine reader convert input limits = .error (.validation error)) :
    limits.maxDepth.toNat ≤ maxJsonDepth ∧ ∃ payload json record,
      decodeValue reader payload limits = .ok json ∧ convert json = some record ∧
        record.validate limits = .error error := by
  rcases bind_eq_error h with h | ⟨_, hlimits, h⟩
  · obtain ⟨-, h⟩ := rejectIf_eq_error.mp h
    cases h
  rcases bind_eq_error h with h | ⟨_, -, h⟩
  · obtain ⟨-, h⟩ := rejectIf_eq_error.mp h
    cases h
  rcases bind_eq_error h with h | ⟨payload, -, h⟩
  · rcases bind_eq_error h with h | ⟨_, -, h⟩
    · obtain ⟨-, h⟩ := rejectIf_eq_error.mp h
      cases h
    rcases bind_eq_error h with h | ⟨_, -, h⟩
    · obtain ⟨-, h⟩ := rejectIf_eq_error.mp h
      cases h
    · cases h
  rcases bind_eq_error h with h | ⟨_, -, h⟩
  · obtain ⟨-, h⟩ := rejectIf_eq_error.mp h
    cases h
  rcases bind_eq_error h with h | ⟨_, -, h⟩
  · obtain ⟨-, h⟩ := rejectIf_eq_error.mp h
    cases h
  rcases bind_eq_error h with h | ⟨json, hvalue, h⟩
  · exact absurd h decodeValue_ne_validation
  rcases bind_eq_error h with h | ⟨record, hrecord, h⟩
  · obtain ⟨-, h⟩ := okOr_eq_error.mp h
    cases h
  obtain ⟨failure, hnew, h⟩ := mapError_eq_error.mp h
  obtain rfl := CodecError.validation.inj h
  exact ⟨Nat.not_lt.mp (rejectIf_eq_ok.mp hlimits), payload, json, record, hvalue,
    okOr_eq_ok.mp hrecord, validatedRecord_new_eq_error hnew⟩

/-- A line that is decoded and converted, but is not valid. -/
theorem decodeLine_of_invalid {reader : Reader} {convert : Json → Option Record}
    {input payload : List UInt8} {limits : Limits} {json : Json} {record : Record}
    {error : ValidationError} (hlimits : validateLimits limits = .ok ())
    (hlength : enforceLineLimit (payloadLength input) limits.maxLineBytes.toNat = .ok ())
    (hpayload : splitPayload input = .ok payload) (hblank : ¬ payload.all isPadding = true)
    (hutf8 : isUtf8 payload = true) (hvalue : decodeValue reader payload limits = .ok json)
    (hrecord : convert json = some record) (herror : record.validate limits = .error error) :
    decodeLine reader convert input limits = .error (.validation error) := by
  unfold decodeLine
  rw [hlimits, hlength, hpayload]
  show (rejectIf (payload.all isPadding = true) _ >>= _) = _
  rw [rejectIf_neg hblank]
  show (rejectIf (¬ isUtf8 payload = true) _ >>= _) = _
  rw [rejectIf_neg (not_not.mpr hutf8)]
  show (decodeValue reader payload limits >>= _) = _
  rw [hvalue]
  show (okOr (convert json) _ >>= _) = _
  rw [hrecord]
  show (ValidatedRecord.new record limits).mapError _ = _
  rw [validatedRecord_new_error herror]
  rfl

end KvCrucible
