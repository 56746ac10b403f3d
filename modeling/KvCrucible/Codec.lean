/-
KvCrucible/Codec.lean

The failures of the strict record codec and the framing of one physical line
(`codec.rs`).

Positions in an error (`valid_up_to`, `line`, `column`) come from the UTF-8
and JSON readers of the platform; they are carried as numbers.
-/
import KvCrucible.Basis.Decimal
import KvCrucible.Validate

namespace KvCrucible

open Basis

/-- `codec::Resource`. -/
inductive CodecResource where
  | lineBytes
  | jsonDepth
  | jsonValues
  | stringBytes
  | totalStringBytes
  | arrayItems
  | objectMembers
  deriving DecidableEq

/-- `codec::Error`. -/
inductive CodecError where
  | emptyLine
  | invalidFraming
  | invalidUtf8 (validUpTo : Nat)
  | jsonSyntax (line column : Nat)
  | duplicateKey
  | nonIntegerNumber
  | unsafeInteger
  | resourceLimit (resource : CodecResource) (maximum observed : Nat)
  | invalidLimits (maximum : Nat)
  | schema
  | validation (error : ValidationError)
  | canonicalization
  deriving DecidableEq

/-! ### Framing -/

/-- `validate_limits`. -/
def validateLimits (limits : Limits) : Except CodecError Unit :=
  rejectIf (limits.maxDepth.toNat > maxJsonDepth) (.invalidLimits maxJsonDepth)

/-- `<[u8]>::strip_suffix`. -/
def stripSuffix (input suffix : List UInt8) : Option (List UInt8) :=
  if suffix <:+ input then some (input.take (input.length - suffix.length)) else none

/-- The payload of a line without its terminator, LF or CRLF. -/
def withoutTerminator (input : List UInt8) : List UInt8 :=
  ((stripSuffix input [13, 10]).or (stripSuffix input [10])).getD input

/-- `split_payload`. -/
def splitPayload (input : List UInt8) : Except CodecError (List UInt8) := do
  let payload := withoutTerminator input
  rejectIf (10 ∈ payload ∨ 13 ∈ payload) .invalidFraming
  rejectIf (payload = []) .emptyLine
  return payload

/-- `payload_length`. -/
def payloadLength (input : List UInt8) : Nat :=
  if [13, 10] <:+ input then input.length - 2
  else if [10] <:+ input then input.length - 1
  else input.length

/-- `enforce_line_limit`. -/
def enforceLineLimit (actual maximum : Nat) : Except CodecError Unit :=
  rejectIf (actual > maximum) (.resourceLimit .lineBytes maximum actual)

end KvCrucible
