/-
KvCrucible/Limits.lean

Fixed-width arithmetic and the resource ceilings shared by decoding,
validation, normalization and the delivery fold (`limits.rs`).

Counters and cursors of the model are natural numbers.  Where the source
adds or subtracts with a check, the model goes through `checkedAdd` and
`checkedSub`, so overflow of a `u64` is visible exactly where the source
tests for it.  `usize` is 64 bits wide.

The ceilings themselves keep the fixed-width types of the source: that a
ceiling fits its type is what makes a checked sum that overflows exceed the
ceiling as well.
-/
import Mathlib

namespace KvCrucible

/-! ### Checked arithmetic -/

/-- `u64::checked_add`. -/
def checkedAdd (a b : Nat) : Option Nat :=
  if a + b < 2 ^ 64 then some (a + b) else none

/-- `u64::checked_sub`. -/
def checkedSub (a b : Nat) : Option Nat :=
  if b ≤ a then some (a - b) else none

@[simp] theorem checkedAdd_eq_some {a b c : Nat} :
    checkedAdd a b = some c ↔ a + b = c ∧ c < 2 ^ 64 := by
  unfold checkedAdd
  split <;> simp <;> omega

@[simp] theorem checkedAdd_eq_none {a b : Nat} :
    checkedAdd a b = none ↔ 2 ^ 64 ≤ a + b := by
  simp [checkedAdd]

@[simp] theorem checkedSub_eq_some {a b c : Nat} :
    checkedSub a b = some c ↔ b ≤ a ∧ a - b = c := by
  simp [checkedSub]

@[simp] theorem checkedSub_eq_none {a b : Nat} :
    checkedSub a b = none ↔ a < b := by
  simp [checkedSub]

/-! ### Ceilings -/

/-- Hard stack-safety ceiling for configured JSON depth. -/
def maxJsonDepth : Nat := 64

/-- `Limits`: one inclusive ceiling per bounded resource. -/
structure Limits where
  maxLineBytes : UInt64
  maxTraceBytes : UInt64
  maxRecordsPerTrace : UInt64
  maxStreamsPerTrace : UInt64
  maxEnvelopesPerTrace : UInt64
  maxFaultSchedulesPerTrace : UInt64
  maxFaultActionsPerTrace : UInt64
  maxIdentityBytesPerTrace : UInt64
  maxOccurrencesPerSchedule : UInt64
  maxScheduleWorkPerTrace : UInt64
  maxFingerprintBytesPerTrace : UInt64
  maxRecentFingerprintsPerStream : UInt64
  maxPendingEnvelopesPerStream : UInt64
  maxPendingCanonicalBytesPerStream : UInt64
  maxGapSpanPerStream : UInt64
  maxCacheKeysPerStream : UInt64
  maxCacheIdentityBytesPerStream : UInt64
  maxDiagnosticCount : UInt64
  maxDepth : UInt64
  maxValues : UInt64
  maxStringBytes : UInt64
  maxIdentityBytes : UInt64
  maxTotalStringBytes : UInt64
  maxArrayItems : UInt64
  maxObjectMembers : UInt64
  maxMutationsPerEnvelope : UInt64
  maxHashesPerMutation : UInt64
  maxHashesPerEnvelope : UInt64
  maxOpaqueHashBytes : UInt64
  maxTokenIdsPerMutation : UInt64
  maxTokenCount : UInt64
  maxBlockSize : UInt32
  maxWorkerMetadata : UInt64
  maxFaultActions : UInt64
  maxDuplicateCopies : UInt16
  deriving DecidableEq

/-- `Limits::default`. -/
def Limits.default : Limits where
  maxLineBytes := 1024 * 1024
  maxTraceBytes := 64 * 1024 * 1024
  maxRecordsPerTrace := 100000
  maxStreamsPerTrace := 4096
  maxEnvelopesPerTrace := 65536
  maxFaultSchedulesPerTrace := 1024
  maxFaultActionsPerTrace := 65536
  maxIdentityBytesPerTrace := 16 * 1024 * 1024
  maxOccurrencesPerSchedule := 131072
  maxScheduleWorkPerTrace := 1000000
  maxFingerprintBytesPerTrace := 64 * 1024 * 1024
  maxRecentFingerprintsPerStream := 4096
  maxPendingEnvelopesPerStream := 1024
  maxPendingCanonicalBytesPerStream := 16 * 1024 * 1024
  maxGapSpanPerStream := 65536
  maxCacheKeysPerStream := 262144
  maxCacheIdentityBytesPerStream := 64 * 1024 * 1024
  maxDiagnosticCount := 1000000
  maxDepth := 32
  maxValues := 65536
  maxStringBytes := 16 * 1024
  maxIdentityBytes := 1024
  maxTotalStringBytes := 512 * 1024
  maxArrayItems := 16384
  maxObjectMembers := 256
  maxMutationsPerEnvelope := 1024
  maxHashesPerMutation := 4096
  maxHashesPerEnvelope := 8192
  maxOpaqueHashBytes := 256
  maxTokenIdsPerMutation := 16384
  maxTokenCount := 1048576
  maxBlockSize := 1048576
  maxWorkerMetadata := 256
  maxFaultActions := 4096
  maxDuplicateCopies := 1024

/-- The default depth passes its own stack-safety check. -/
theorem Limits.default_depth : Limits.default.maxDepth.toNat ≤ maxJsonDepth := by
  decide

end KvCrucible
