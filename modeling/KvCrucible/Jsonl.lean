/-
KvCrucible/Jsonl.lean

Bounded streaming ingestion of physical JSON Lines records (`jsonl.rs`).

The buffered reader underneath is any `BufRead`: it lends a buffer, and is
told how much of it was used.  A record is read byte by byte into a bounded
scratch buffer.  A carriage return is held back until the next byte says
whether it belongs to a terminator; the next byte may be in the next buffer.

Whoever allocates the scratch buffer is asked before it grows, and may refuse.
-/
import KvCrucible.Line

namespace KvCrucible

open Basis

/-! ### Buffered readers -/

/-- `std::io::BufRead`.  The category of an I/O failure is carried as a
number. -/
class BufRead (ρ : Type) where
  fillBuf : ρ → Except Nat (List UInt8) × ρ
  consume : ρ → Nat → ρ

/-- `BUFFER_GROWTH_BYTES`. -/
def bufferGrowthBytes : Nat := 8 * 1024

/-- `LocatedRecord`. -/
structure LocatedRecord where
  line : ℕ+
  record : ValidatedRecord

/-- `ReadError`. -/
inductive ReadError where
  | io (line : ℕ+) (kind : Nat)
  | lineTooLong (line : ℕ+) (maximum : Nat)
  | recordLimit (line : ℕ+) (maximum : Nat)
  | traceBytes (line : ℕ+) (maximum : Nat)
  | bufferAllocation (line : ℕ+)
  | codec (line : ℕ+) (error : CodecError)
  | lineNumberOverflow

/-- `NonZeroU64::new`. -/
def nonZero (n : Nat) : Option ℕ+ := if h : 0 < n then some ⟨n, h⟩ else none

/-- `next_line_number`. -/
def nextLineNumber (recordsRead : Nat) : Except ReadError ℕ+ := do
  let next ← okOr (checkedAdd recordsRead 1) .lineNumberOverflow
  okOr (nonZero next) .lineNumberOverflow

/-! ### The scratch buffer -/

/-- The scratch buffer: its bytes, and how many it has room for. -/
structure Scratch where
  bytes : List UInt8
  capacity : Nat

/-- `Vec::new`. -/
def Scratch.empty : Scratch where
  bytes := []
  capacity := 0

/-- `Vec::clear`. -/
def Scratch.clear (buffer : Scratch) : Scratch := { buffer with bytes := [] }

/-- `PushError`. -/
inductive PushError where
  | tooLong
  | allocation
  deriving DecidableEq

/-- Whether a buffer of a capacity may grow by a number of bytes. -/
abbrev ScratchAllocator := Nat → Nat → Bool

/-- The growth of a full buffer. -/
def Scratch.reserve (allocator : ScratchAllocator) (buffer : Scratch) (maximum : Nat) :
    Except PushError Scratch :=
  if buffer.bytes.length = buffer.capacity then
    let growth := min (maximum - buffer.bytes.length) bufferGrowthBytes
    if allocator buffer.capacity growth then
      .ok { buffer with capacity := buffer.bytes.length + growth }
    else .error .allocation
  else .ok buffer

/-- `push_bounded`. -/
def pushBounded (allocator : ScratchAllocator) (buffer : Scratch) (byte : UInt8) (maximum : Nat) :
    Except PushError Scratch := do
  rejectIf (buffer.bytes.length = maximum) .tooLong
  let buffer ← buffer.reserve allocator maximum
  return { buffer with bytes := buffer.bytes ++ [byte] }

/-- `map_push_error`. -/
def mapPushError (line : ℕ+) (maximum : Nat) : PushError → ReadError
  | .tooLong => .lineTooLong line maximum
  | .allocation => .bufferAllocation line

/-! ### One buffer -/

/-- What the loop over the bytes of one buffer changes. -/
structure LineState where
  scratch : Scratch
  pendingCr : Bool
  bytesRead : Nat
  consumed : Nat

/-- How the loop over the bytes of one buffer goes on or ends: `returned` is
an error that leaves the function before the buffer is consumed. -/
inductive ChunkEnd where
  | exhausted
  | complete
  | failed (error : ReadError)
  | returned (error : ReadError)

namespace LineState

variable (allocator : ScratchAllocator) (limits : Limits) (line : ℕ+)

/-- One more byte in the scratch buffer. -/
def push (s : LineState) (byte : UInt8) : Except ReadError LineState := do
  let scratch ← (pushBounded allocator s.scratch byte limits.maxLineBytes.toNat).mapError
    (mapPushError line limits.maxLineBytes.toNat)
  return { s with scratch := scratch }

/-- A carriage return that turns out to be part of the payload. -/
def flushCr (s : LineState) (byte : UInt8) : Except ReadError LineState :=
  if s.pendingCr && byte != 10 then do
    let s ← s.push allocator limits line 13
    return { s with pendingCr := false }
  else .ok s

/-- What a byte means once it is counted. -/
def classify (s : LineState) (byte : UInt8) : LineState × ChunkEnd :=
  if s.pendingCr then ({ s with pendingCr := false }, .complete)
  else if byte = 10 then (s, .complete)
  else if byte = 13 then ({ s with pendingCr := true }, .exhausted)
  else
    match s.push allocator limits line byte with
    | .error error => (s, .failed error)
    | .ok s => (s, .exhausted)

/-- One round of the loop over the bytes of a buffer. -/
def readByte (s : LineState) (byte : UInt8) : LineState × ChunkEnd :=
  match s.flushCr allocator limits line byte with
  | .error error => (s, .failed error)
  | .ok s =>
      if s.bytesRead ≥ limits.maxTraceBytes.toNat then
        (s, .failed (.traceBytes line limits.maxTraceBytes.toNat))
      else
        match checkedAdd s.bytesRead 1 with
        | none => (s, .returned (.traceBytes line limits.maxTraceBytes.toNat))
        | some bytesRead =>
            classify allocator limits line
              { s with bytesRead := bytesRead, consumed := s.consumed + 1 } byte

/-- The loop over the bytes of a buffer. -/
def readChunk (s : LineState) : List UInt8 → LineState × ChunkEnd
  | [] => (s, .exhausted)
  | byte :: rest =>
      match s.readByte allocator limits line byte with
      | (s, .exhausted) => s.readChunk rest
      | stopped => stopped

end LineState

/-! ### The reader -/

/-- `JsonlReader`. -/
structure JsonlReader (ρ : Type) where
  inner : ρ
  limits : Limits
  recordsRead : Nat
  bytesRead : Nat
  scratch : Scratch
  finished : Bool

namespace JsonlReader

variable {ρ : Type}

/-- `JsonlReader::new`. -/
def new (inner : ρ) (limits : Limits) : JsonlReader ρ where
  inner := inner
  limits := limits
  recordsRead := 0
  bytesRead := 0
  scratch := .empty
  finished := false

variable [BufRead ρ] (json : Reader) (convert : Json → Option Record)
  (allocator : ScratchAllocator)

/-- `decode_scratch`. -/
def decodeScratch (r : JsonlReader ρ) (line : ℕ+) :
    Except ReadError LocatedRecord × JsonlReader ρ :=
  match decodeLine json convert r.scratch.bytes r.limits with
  | .error error => (.error (.codec line error), r)
  | .ok record =>
      match checkedAdd r.recordsRead 1 with
      | none => (.error .lineNumberOverflow, r)
      | some recordsRead => (.ok ⟨line, record⟩, { r with recordsRead := recordsRead })

/-- `decode_scratch(line).map(Some)`. -/
def decodeRecord (r : JsonlReader ρ) (line : ℕ+) :
    Except ReadError (Option LocatedRecord) × JsonlReader ρ :=
  let (result, r) := r.decodeScratch json convert line
  (result.map some, r)

/-- The end of the input. -/
def readEnd (r : JsonlReader ρ) (line : ℕ+) (pendingCr : Bool) :
    Except ReadError (Option LocatedRecord) × JsonlReader ρ :=
  match if pendingCr then pushBounded allocator r.scratch 13 r.limits.maxLineBytes.toNat
    else .ok r.scratch with
  | .error error => (.error (mapPushError line r.limits.maxLineBytes.toNat error), r)
  | .ok scratch =>
      let r := { r with scratch := scratch }
      if scratch.bytes = [] then (.ok none, r) else r.decodeRecord json convert line

/-- A round of the loop over the buffers ends the record, or goes on with a
carriage return held back or not. -/
inductive LoopStep (ρ : Type) where
  | done (result : Except ReadError (Option LocatedRecord) × JsonlReader ρ)
  | again (r : JsonlReader ρ) (pendingCr : Bool)

/-- What follows the loop over the bytes of one buffer. -/
def afterChunk (r : JsonlReader ρ) (line : ℕ+) (inner : ρ) : LineState × ChunkEnd → LoopStep ρ
  | (s, .returned error) => .done (.error error,
      { r with inner := inner, scratch := s.scratch, bytesRead := s.bytesRead })
  | (s, .failed error) => .done (.error error, { r with
      inner := BufRead.consume inner s.consumed, scratch := s.scratch, bytesRead := s.bytesRead })
  | (s, .complete) => .done ({ r with
      inner := BufRead.consume inner s.consumed
      scratch := s.scratch
      bytesRead := s.bytesRead }.decodeRecord json convert line)
  | (s, .exhausted) => .again { r with
      inner := BufRead.consume inner s.consumed
      scratch := s.scratch
      bytesRead := s.bytesRead } s.pendingCr

/-- One round of the loop over the buffers. -/
def readStep (r : JsonlReader ρ) (line : ℕ+) (pendingCr : Bool) : LoopStep ρ :=
  match BufRead.fillBuf r.inner with
  | (.error kind, inner) => .done (.error (.io line kind), { r with inner := inner })
  | (.ok [], inner) =>
      .done ({ r with inner := inner }.readEnd json convert allocator line pendingCr)
  | (.ok (byte :: rest), inner) =>
      r.afterChunk json convert line inner (LineState.readChunk allocator r.limits line
        ⟨r.scratch, pendingCr, r.bytesRead, 0⟩ (byte :: rest))

end JsonlReader

/-! ### Bounds -/

/-- The scratch buffer and the count are within the limits. -/
def LineState.Within (limits : Limits) (s : LineState) : Prop :=
  s.scratch.bytes.length ≤ limits.maxLineBytes.toNat ∧ s.bytesRead ≤ limits.maxTraceBytes.toNat

theorem reserve_bytes {allocator : ScratchAllocator} {buffer buffer' : Scratch} {maximum : Nat}
    (h : buffer.reserve allocator maximum = .ok buffer') : buffer'.bytes = buffer.bytes := by
  unfold Scratch.reserve at h
  by_cases hfull : buffer.bytes.length = buffer.capacity
  · rw [if_pos hfull] at h
    by_cases hgrant : allocator buffer.capacity
        (min (maximum - buffer.bytes.length) bufferGrowthBytes) = true
    · rw [if_pos hgrant] at h
      rw [← Except.ok.inj h]
    · rw [if_neg hgrant] at h
      cases h
  · rw [if_neg hfull] at h
    rw [Except.ok.inj h]

/-- A byte is pushed below the ceiling. -/
theorem pushBounded_ok {allocator : ScratchAllocator} {buffer buffer' : Scratch} {byte : UInt8}
    {maximum : Nat} (h : pushBounded allocator buffer byte maximum = .ok buffer') :
    buffer.bytes.length ≠ maximum ∧ buffer'.bytes = buffer.bytes ++ [byte] := by
  obtain ⟨⟨⟩, hroom, h⟩ := bind_eq_ok.mp h
  obtain ⟨grown, hgrown, h⟩ := bind_eq_ok.mp h
  obtain rfl := pure_eq_ok.mp h
  refine ⟨rejectIf_eq_ok.mp hroom, ?_⟩
  show grown.bytes ++ [byte] = _
  rw [reserve_bytes hgrown]

namespace LineState

variable {allocator : ScratchAllocator} {limits : Limits} {line : ℕ+} {s s' : LineState}
  {byte : UInt8}

theorem push_ok (h : s.push allocator limits line byte = .ok s') : ∃ scratch,
    pushBounded allocator s.scratch byte limits.maxLineBytes.toNat = .ok scratch ∧
      s' = { s with scratch := scratch } := by
  obtain ⟨scratch, hpush, h⟩ := bind_eq_ok.mp h
  exact ⟨scratch, mapError_eq_ok.mp hpush, (pure_eq_ok.mp h).symm⟩

/-- A push keeps the bounds. -/
theorem Within.push (hs : s.Within limits) (h : s.push allocator limits line byte = .ok s') :
    s'.Within limits := by
  obtain ⟨scratch, hpush, rfl⟩ := push_ok h
  obtain ⟨hroom, hbytes⟩ := pushBounded_ok hpush
  refine ⟨?_, hs.2⟩
  have hle := hs.1
  show scratch.bytes.length ≤ _
  rw [hbytes, List.length_append, List.length_singleton]
  omega

theorem flushCr_ok (h : s.flushCr allocator limits line byte = .ok s') :
    s'.bytesRead = s.bytesRead ∧ s'.consumed = s.consumed := by
  unfold flushCr at h
  by_cases hflush : (s.pendingCr && byte != 10) = true
  · rw [if_pos hflush] at h
    obtain ⟨s₁, hpush, h⟩ := bind_eq_ok.mp h
    obtain ⟨scratch, -, rfl⟩ := push_ok hpush
    obtain rfl := pure_eq_ok.mp h
    exact ⟨rfl, rfl⟩
  · rw [if_neg hflush] at h
    obtain rfl := Except.ok.inj h
    exact ⟨rfl, rfl⟩

theorem Within.flushCr (hs : s.Within limits)
    (h : s.flushCr allocator limits line byte = .ok s') : s'.Within limits := by
  unfold LineState.flushCr at h
  by_cases hflush : (s.pendingCr && byte != 10) = true
  · rw [if_pos hflush] at h
    obtain ⟨s₁, hpush, h⟩ := bind_eq_ok.mp h
    obtain rfl := pure_eq_ok.mp h
    have hpushed := hs.push hpush
    exact hpushed
  · rw [if_neg hflush] at h
    obtain rfl := Except.ok.inj h
    exact hs

/-- Reading a byte into its meaning does not count it again. -/
theorem classify_bytesRead : (classify allocator limits line s byte).1.bytesRead = s.bytesRead ∧
    (classify allocator limits line s byte).1.consumed = s.consumed := by
  unfold classify
  split_ifs
  · exact ⟨rfl, rfl⟩
  · exact ⟨rfl, rfl⟩
  · exact ⟨rfl, rfl⟩
  · cases hpush : s.push allocator limits line byte with
    | error error => exact ⟨rfl, rfl⟩
    | ok s' =>
        obtain ⟨scratch, -, rfl⟩ := push_ok hpush
        exact ⟨rfl, rfl⟩

theorem Within.classify (hs : s.Within limits) :
    (LineState.classify allocator limits line s byte).1.Within limits := by
  unfold LineState.classify
  split_ifs
  · exact hs
  · exact hs
  · exact hs
  · cases hpush : s.push allocator limits line byte with
    | error error => exact hs
    | ok s' => exact hs.push hpush

/-- A byte that is used is counted. -/
theorem readByte_counted (hs : s.bytesRead < limits.maxTraceBytes.toNat)
    (hflush : s.flushCr allocator limits line byte = .ok s') :
    s.readByte allocator limits line byte = classify allocator limits line
      { s' with bytesRead := s'.bytesRead + 1, consumed := s'.consumed + 1 } byte := by
  obtain ⟨hread, -⟩ := flushCr_ok hflush
  have hmax := limits.maxTraceBytes.toNat_lt
  have hadd : checkedAdd s'.bytesRead 1 = some (s'.bytesRead + 1) :=
    checkedAdd_eq_some.mpr ⟨rfl, by omega⟩
  rw [readByte, hflush]
  dsimp only
  rw [if_neg (by omega), hadd]

/-- What reading a byte can do: the held carriage return does not fit, there
are no bytes left, or the byte is counted. -/
theorem readByte_cases : (∃ error, s.flushCr allocator limits line byte = .error error ∧
      s.readByte allocator limits line byte = (s, .failed error)) ∨
    (∃ s', s.flushCr allocator limits line byte = .ok s' ∧
      limits.maxTraceBytes.toNat ≤ s.bytesRead ∧ s.readByte allocator limits line byte =
        (s', .failed (.traceBytes line limits.maxTraceBytes.toNat))) ∨
    ∃ s', s.flushCr allocator limits line byte = .ok s' ∧
      s.bytesRead < limits.maxTraceBytes.toNat ∧
      s.readByte allocator limits line byte = classify allocator limits line
        { s' with bytesRead := s'.bytesRead + 1, consumed := s'.consumed + 1 } byte := by
  cases hflush : s.flushCr allocator limits line byte with
  | error error =>
      refine .inl ⟨error, rfl, ?_⟩
      rw [readByte, hflush]
  | ok s' =>
      obtain ⟨hread, -⟩ := flushCr_ok hflush
      by_cases hs : s.bytesRead < limits.maxTraceBytes.toNat
      · exact .inr (.inr ⟨s', rfl, hs, readByte_counted hs hflush⟩)
      · refine .inr (.inl ⟨s', rfl, Nat.not_lt.mp hs, ?_⟩)
        rw [readByte, hflush]
        dsimp only
        rw [if_pos (by omega)]

/-- A byte keeps the bounds. -/
theorem Within.readByte (hs : s.Within limits) :
    (LineState.readByte allocator limits line s byte).1.Within limits := by
  rcases @readByte_cases allocator limits line s byte with
    ⟨error, -, h⟩ | ⟨s', hflush, -, h⟩ | ⟨s', hflush, hlt, h⟩
  · rw [h]
    exact hs
  · rw [h]
    exact hs.flushCr hflush
  · rw [h]
    obtain ⟨hread, -⟩ := flushCr_ok hflush
    have hcounted : Within limits
        { s' with bytesRead := s'.bytesRead + 1, consumed := s'.consumed + 1 } := by
      refine ⟨(hs.flushCr hflush).1, ?_⟩
      show s'.bytesRead + 1 ≤ _
      omega
    exact hcounted.classify

/-- At every byte of a buffer the bounds hold. -/
theorem Within.readChunk {bytes : List UInt8} : ∀ {s : LineState}, s.Within limits →
    (LineState.readChunk allocator limits line s bytes).1.Within limits := by
  induction bytes with
  | nil => exact fun hs => hs
  | cons byte rest ih =>
      intro s hs
      have hbyte := @Within.readByte allocator limits line s byte hs
      rw [LineState.readChunk]
      rcases hstep : LineState.readByte allocator limits line s byte with ⟨s', _ | _ | _ | _⟩
      · rw [hstep] at hbyte
        exact ih hbyte
      all_goals
        rw [hstep] at hbyte
        exact hbyte

/-- A byte that does not end the line is one more byte. -/
theorem readByte_exhausted (h : s.readByte allocator limits line byte = (s', .exhausted)) :
    s'.bytesRead = s.bytesRead + 1 ∧ s'.consumed = s.consumed + 1 ∧
      s.bytesRead < limits.maxTraceBytes.toNat := by
  rcases @readByte_cases allocator limits line s byte with
    ⟨error, -, hread⟩ | ⟨s₁, -, -, hread⟩ | ⟨s₁, hflush, hlt, hread⟩
  · cases hread.symm.trans h
  · cases hread.symm.trans h
  · obtain ⟨hbytes, hconsumed⟩ := flushCr_ok hflush
    have hclassify := @classify_bytesRead allocator limits line
      { s₁ with bytesRead := s₁.bytesRead + 1, consumed := s₁.consumed + 1 } byte
    rw [← hread, h] at hclassify
    obtain ⟨hbytes', hconsumed'⟩ := hclassify
    exact ⟨by rw [hbytes', hbytes], by rw [hconsumed', hconsumed], hlt⟩

/-- A buffer that does not end the line is used up. -/
theorem readChunk_exhausted {bytes : List UInt8} : ∀ {s : LineState},
    s.readChunk allocator limits line bytes = (s', .exhausted) →
      s'.bytesRead = s.bytesRead + bytes.length ∧ s'.consumed = s.consumed + bytes.length := by
  induction bytes with
  | nil =>
      intro s h
      obtain rfl : s = s' := (Prod.mk.inj h).1
      exact ⟨rfl, rfl⟩
  | cons byte rest ih =>
      intro s h
      rw [LineState.readChunk] at h
      rcases hstep : s.readByte allocator limits line byte with ⟨s₁, _ | _ | _ | _⟩
      · rw [hstep] at h
        obtain ⟨hbytes, hconsumed⟩ := ih h
        obtain ⟨hbytes₁, hconsumed₁, -⟩ := readByte_exhausted hstep
        rw [List.length_cons]
        omega
      all_goals
        rw [hstep] at h
        cases (Prod.mk.inj h).2

/-- A buffer that does not end the line has a byte to count. -/
theorem lt_of_readChunk_exhausted {rest : List UInt8}
    (h : s.readChunk allocator limits line (byte :: rest) = (s', .exhausted)) :
    s.bytesRead < limits.maxTraceBytes.toNat := by
  rw [LineState.readChunk] at h
  rcases hstep : s.readByte allocator limits line byte with ⟨s₁, _ | _ | _ | _⟩
  · exact (readByte_exhausted hstep).2.2
  all_goals
    rw [hstep] at h
    cases (Prod.mk.inj h).2

/-- The loop over two buffers is the loop over one after the other. -/
theorem readChunk_append {first second : List UInt8} : ∀ {s : LineState},
    s.readChunk allocator limits line first = (s', .exhausted) →
      s.readChunk allocator limits line (first ++ second) =
        s'.readChunk allocator limits line second := by
  induction first with
  | nil =>
      intro s h
      obtain rfl : s = s' := (Prod.mk.inj h).1
      rfl
  | cons byte rest ih =>
      intro s h
      rw [List.cons_append, LineState.readChunk]
      rw [LineState.readChunk] at h
      rcases hstep : s.readByte allocator limits line byte with ⟨s₁, _ | _ | _ | _⟩
      · rw [hstep] at h
        exact ih h
      all_goals
        rw [hstep] at h
        cases (Prod.mk.inj h).2

/-- A line that ends does not see what follows. -/
theorem readChunk_stopped {first second : List UInt8} {stop : ChunkEnd}
    (hstop : stop ≠ .exhausted) : ∀ {s : LineState},
      s.readChunk allocator limits line first = (s', stop) →
        s.readChunk allocator limits line (first ++ second) = (s', stop) := by
  induction first with
  | nil =>
      intro s h
      exact absurd (Prod.mk.inj h).2.symm hstop
  | cons byte rest ih =>
      intro s h
      rw [List.cons_append, LineState.readChunk]
      rw [LineState.readChunk] at h
      rcases hstep : s.readByte allocator limits line byte with ⟨s₁, _ | _ | _ | _⟩
      · rw [hstep] at h
        exact ih h
      all_goals
        rw [hstep] at h
        exact h

/-- The count never overflows: the ceiling is met before. -/
theorem readByte_ne_returned {error : ReadError} :
    (s.readByte allocator limits line byte).2 ≠ .returned error := by
  rcases @readByte_cases allocator limits line s byte with
    ⟨_, -, hread⟩ | ⟨s', -, -, hread⟩ | ⟨s', -, -, hread⟩
  · rw [hread]
    exact fun h => by cases h
  · rw [hread]
    exact fun h => by cases h
  · rw [hread]
    unfold classify
    split_ifs
    · exact fun h => by cases h
    · exact fun h => by cases h
    · exact fun h => by cases h
    · split
      · exact fun h => by cases h
      · exact fun h => by cases h

theorem readChunk_ne_returned {bytes : List UInt8} {error : ReadError} : ∀ {s : LineState},
    (s.readChunk allocator limits line bytes).2 ≠ .returned error := by
  induction bytes with
  | nil => exact fun h => by cases h
  | cons byte rest ih =>
      intro s
      have hbyte := @readByte_ne_returned allocator limits line s byte error
      rw [LineState.readChunk]
      rcases hstep : s.readByte allocator limits line byte with ⟨s₁, _ | _ | _ | _⟩
      · exact ih
      all_goals
        rw [hstep] at hbyte
        exact hbyte

/-- No more is used than there is. -/
theorem consumed_readByte : (s.readByte allocator limits line byte).1.consumed ≤ s.consumed + 1 := by
  rcases @readByte_cases allocator limits line s byte with
    ⟨error, -, hread⟩ | ⟨s', hflush, -, hread⟩ | ⟨s', hflush, -, hread⟩
  · rw [hread]
    exact Nat.le_succ _
  · rw [hread, (flushCr_ok hflush).2]
    exact Nat.le_succ _
  · rw [hread, classify_bytesRead.2, (flushCr_ok hflush).2]

theorem consumed_readChunk {bytes : List UInt8} : ∀ {s : LineState},
    (s.readChunk allocator limits line bytes).1.consumed ≤ s.consumed + bytes.length := by
  induction bytes with
  | nil => exact Nat.le_refl _
  | cons byte rest ih =>
      intro s
      have hbyte := @consumed_readByte allocator limits line s byte
      rw [LineState.readChunk, List.length_cons]
      rcases hstep : s.readByte allocator limits line byte with ⟨s₁, _ | _ | _ | _⟩
      · rw [hstep] at hbyte
        have hrest := @ih s₁
        have hbyte : s₁.consumed ≤ s.consumed + 1 := hbyte
        show (s₁.readChunk allocator limits line rest).1.consumed ≤ _
        omega
      all_goals
        rw [hstep] at hbyte
        have hbyte : s₁.consumed ≤ s.consumed + 1 := hbyte
        show s₁.consumed ≤ _
        omega

/-- More bytes used before. -/
def shift (k : Nat) (s : LineState) : LineState := { s with consumed := s.consumed + k }

section Shift

variable {k : Nat}

theorem push_shift : (s.shift k).push allocator limits line byte =
    (s.push allocator limits line byte).map (shift k) := by
  unfold push
  show ((pushBounded allocator s.scratch byte limits.maxLineBytes.toNat).mapError _ >>= _) = _
  cases (pushBounded allocator s.scratch byte limits.maxLineBytes.toNat).mapError
      (mapPushError line limits.maxLineBytes.toNat) with
  | error error => rfl
  | ok scratch => rfl

theorem flushCr_shift : (s.shift k).flushCr allocator limits line byte =
    (s.flushCr allocator limits line byte).map (shift k) := by
  unfold flushCr
  show (if (s.pendingCr && byte != 10) = true then _ else _) = _
  by_cases hflush : (s.pendingCr && byte != 10) = true
  · rw [if_pos hflush, if_pos hflush, push_shift]
    cases s.push allocator limits line 13 with
    | error error => rfl
    | ok s' => rfl
  · rw [if_neg hflush, if_neg hflush]
    rfl

theorem classify_shift : classify allocator limits line (s.shift k) byte =
    ((classify allocator limits line s byte).1.shift k,
      (classify allocator limits line s byte).2) := by
  unfold classify
  show (if s.pendingCr = true then _ else _) = _
  by_cases hpending : s.pendingCr = true
  · rw [if_pos hpending, if_pos hpending]
    rfl
  rw [if_neg hpending, if_neg hpending]
  by_cases hlf : byte = 10
  · rw [if_pos hlf, if_pos hlf]
  rw [if_neg hlf, if_neg hlf]
  by_cases hcr : byte = 13
  · rw [if_pos hcr, if_pos hcr]
    rfl
  rw [if_neg hcr, if_neg hcr, push_shift]
  cases s.push allocator limits line byte with
  | error error => rfl
  | ok s' => rfl

theorem readByte_shift : (s.shift k).readByte allocator limits line byte =
    ((s.readByte allocator limits line byte).1.shift k,
      (s.readByte allocator limits line byte).2) := by
  rw [readByte, readByte, flushCr_shift]
  cases s.flushCr allocator limits line byte with
  | error error => rfl
  | ok s' =>
      show (if s'.bytesRead ≥ limits.maxTraceBytes.toNat then _ else _) = _
      dsimp only
      by_cases hmax : s'.bytesRead ≥ limits.maxTraceBytes.toNat
      · rw [if_pos hmax, if_pos hmax]
      · rw [if_neg hmax, if_neg hmax]
        have hread : (s'.shift k).bytesRead = s'.bytesRead := rfl
        rw [hread]
        cases checkedAdd s'.bytesRead 1 with
        | none => rfl
        | some bytesRead =>
            have hcount : ({ s'.shift k with
                bytesRead := bytesRead, consumed := (s'.shift k).consumed + 1 } : LineState) =
                shift k { s' with bytesRead := bytesRead, consumed := s'.consumed + 1 } := by
              unfold shift
              rw [Nat.add_right_comm]
            dsimp only
            rw [hcount, classify_shift]

/-- How much was used before does not matter. -/
theorem readChunk_shift {bytes : List UInt8} : ∀ {s : LineState},
    (s.shift k).readChunk allocator limits line bytes =
      ((s.readChunk allocator limits line bytes).1.shift k,
        (s.readChunk allocator limits line bytes).2) := by
  induction bytes with
  | nil => exact rfl
  | cons byte rest ih =>
      intro s
      rw [LineState.readChunk, LineState.readChunk, readByte_shift]
      rcases hstep : s.readByte allocator limits line byte with ⟨s₁, _ | _ | _ | _⟩
      · exact ih
      all_goals rfl

end Shift

end LineState

/-! ### The loop over the buffers -/

namespace JsonlReader

variable {ρ : Type} [BufRead ρ] {json : Reader} {convert : Json → Option Record}
  {allocator : ScratchAllocator} {r r' : JsonlReader ρ} {line : ℕ+} {pendingCr pendingCr' : Bool}

theorem readStep_io {kind : Nat} {inner : ρ} (h : BufRead.fillBuf r.inner = (.error kind, inner)) :
    r.readStep json convert allocator line pendingCr =
      .done (.error (.io line kind), { r with inner := inner }) := by
  rw [readStep, h]

theorem readStep_end {inner : ρ} (h : BufRead.fillBuf r.inner = (.ok [], inner)) :
    r.readStep json convert allocator line pendingCr =
      .done ({ r with inner := inner }.readEnd json convert allocator line pendingCr) := by
  rw [readStep, h]

theorem readStep_chunk {inner : ρ} {byte : UInt8} {rest : List UInt8}
    (h : BufRead.fillBuf r.inner = (.ok (byte :: rest), inner)) :
    r.readStep json convert allocator line pendingCr =
      r.afterChunk json convert line inner (LineState.readChunk allocator r.limits line
        ⟨r.scratch, pendingCr, r.bytesRead, 0⟩ (byte :: rest)) := by
  rw [readStep, h]

/-- A round that goes on has counted a byte. -/
theorem readStep_again (h : r.readStep json convert allocator line pendingCr =
    .again r' pendingCr') : r'.limits = r.limits ∧ r.bytesRead < r'.bytesRead ∧
      r.bytesRead < r.limits.maxTraceBytes.toNat := by
  rcases hfill : BufRead.fillBuf r.inner with ⟨kind | available, inner⟩
  · rw [readStep_io hfill] at h
    cases h
  cases available with
  | nil =>
      rw [readStep_end hfill] at h
      cases h
  | cons byte rest =>
      rw [readStep_chunk hfill] at h
      rcases hchunk : LineState.readChunk allocator r.limits line
          ⟨r.scratch, pendingCr, r.bytesRead, 0⟩ (byte :: rest) with ⟨s, _ | _ | _ | _⟩
      · rw [hchunk] at h
        obtain ⟨rfl, -⟩ := LoopStep.again.inj h
        have hbytes : s.bytesRead = r.bytesRead + (byte :: rest).length :=
          (LineState.readChunk_exhausted hchunk).1
        rw [List.length_cons] at hbytes
        have hmore : r.bytesRead < s.bytesRead := by omega
        exact ⟨rfl, hmore, LineState.lt_of_readChunk_exhausted hchunk⟩
      all_goals
        rw [hchunk] at h
        cases h

end JsonlReader

/-- The loop over the buffers of `read_record`.  It ends because every round
that goes on counts a byte, and bytes are counted up to a ceiling. -/
def JsonlReader.readLoop {ρ : Type} [BufRead ρ] (json : Reader) (convert : Json → Option Record)
    (allocator : ScratchAllocator) (line : ℕ+) (r : JsonlReader ρ) (pendingCr : Bool) :
    Except ReadError (Option LocatedRecord) × JsonlReader ρ :=
  match _h : r.readStep json convert allocator line pendingCr with
  | .done result => result
  | .again r' pendingCr' => readLoop json convert allocator line r' pendingCr'
termination_by r.limits.maxTraceBytes.toNat - r.bytesRead
decreasing_by
  obtain ⟨hlimits, hmore, hroom⟩ := readStep_again _h
  rw [hlimits]
  omega

namespace JsonlReader

section Loop

variable {ρ : Type} [BufRead ρ] {json : Reader} {convert : Json → Option Record}
  {allocator : ScratchAllocator} {r r' : JsonlReader ρ} {line : ℕ+} {pendingCr pendingCr' : Bool}

theorem readLoop_done {result : Except ReadError (Option LocatedRecord) × JsonlReader ρ}
    (h : r.readStep json convert allocator line pendingCr = .done result) :
    r.readLoop json convert allocator line pendingCr = result := by
  rw [readLoop]
  split
  · rename_i h'
    exact LoopStep.done.inj (h'.symm.trans h)
  · rename_i h'
    cases h'.symm.trans h

theorem readLoop_again (h : r.readStep json convert allocator line pendingCr =
    .again r' pendingCr') : r.readLoop json convert allocator line pendingCr =
      r'.readLoop json convert allocator line pendingCr' := by
  rw [readLoop]
  split
  · rename_i h'
    cases h'.symm.trans h
  · rename_i h'
    obtain ⟨rfl, rfl⟩ := LoopStep.again.inj (h'.symm.trans h)
    rfl

/-- A round decides everything that follows. -/
theorem readLoop_congr (h : r.readStep json convert allocator line pendingCr =
    r'.readStep json convert allocator line pendingCr') :
    r.readLoop json convert allocator line pendingCr =
      r'.readLoop json convert allocator line pendingCr' := by
  cases hstep : r.readStep json convert allocator line pendingCr with
  | done result => rw [readLoop_done hstep, readLoop_done (h.symm.trans hstep)]
  | again next nextCr => rw [readLoop_again hstep, readLoop_again (h.symm.trans hstep)]

end Loop

section Calls

variable {ρ : Type} [BufRead ρ] (json : Reader) (convert : Json → Option Record)
  (allocator : ScratchAllocator)

/-- `ensure_record_limit_or_eof`. -/
def ensureRecordLimitOrEof (r : JsonlReader ρ) (line : ℕ+) :
    Except ReadError (Option LocatedRecord) × JsonlReader ρ :=
  match BufRead.fillBuf r.inner with
  | (.error kind, inner) => (.error (.io line kind), { r with inner := inner })
  | (.ok [], inner) => (.ok none, { r with inner := inner })
  | (.ok (_ :: _), inner) =>
      (.error (.recordLimit line r.limits.maxRecordsPerTrace.toNat), { r with inner := inner })

/-- `read_record`. -/
def readRecord (r : JsonlReader ρ) : Except ReadError (Option LocatedRecord) × JsonlReader ρ :=
  match nextLineNumber r.recordsRead with
  | .error error => (.error error, r)
  | .ok line =>
      if r.recordsRead ≥ r.limits.maxRecordsPerTrace.toNat then r.ensureRecordLimitOrEof line
      else { r with scratch := r.scratch.clear }.readLoop json convert allocator line false

/-- `Iterator::next`. -/
def next (r : JsonlReader ρ) : Option (Except ReadError LocatedRecord) × JsonlReader ρ :=
  if r.finished then (none, r)
  else
    match r.readRecord json convert allocator with
    | (.ok (some record), r) => (some (.ok record), r)
    | (.ok none, r) => (none, { r with finished := true })
    | (.error error, r) => (some (.error error), { r with finished := true })

/-- A number of calls of `next`, with what they return. -/
def nexts (r : JsonlReader ρ) :
    Nat → List (Option (Except ReadError LocatedRecord)) × JsonlReader ρ
  | 0 => ([], r)
  | n + 1 =>
      let (item, r) := r.next json convert allocator
      let (items, r) := nexts r n
      (item :: items, r)

end Calls

end JsonlReader

end KvCrucible
