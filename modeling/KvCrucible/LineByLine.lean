/-
KvCrucible/LineByLine.lean

Streaming ingestion is decoding line by line.

While a line is read, the scratch buffer holds what was read of it, except for
a carriage return at its end (`Reads`).  At the terminator that is the payload
of the line, at the end of the input the carriage return is added.  A payload
decodes as the line it comes from, so that within the limits the items are the
decoded lines, up to the first failure (`itemsOf`).
-/
import KvCrucible.Streaming
import KvCrucible.TypedBudgets

namespace KvCrucible

open Basis

/-! ### Payloads -/

/-- The last byte is a carriage return. -/
def endsCr (bytes : List UInt8) : Bool := bytes.getLast? == some 13

/-- A line without a carriage return at its end. -/
def withoutCr (bytes : List UInt8) : List UInt8 := if endsCr bytes then bytes.dropLast else bytes

theorem endsCr_iff {bytes : List UInt8} : endsCr bytes = true ↔ ∃ front, bytes = front ++ [13] := by
  rw [endsCr, beq_iff_eq, List.getLast?_eq_some_iff]

theorem endsCr_concat (bytes : List UInt8) (b : UInt8) :
    endsCr (bytes ++ [b]) = (b == 13) := by
  rw [endsCr, List.getLast?_concat]
  rfl

theorem withoutCr_of_not {bytes : List UInt8} (h : endsCr bytes = false) :
    withoutCr bytes = bytes := by
  rw [withoutCr, h]
  exact if_neg Bool.false_ne_true

theorem withoutCr_concat (bytes : List UInt8) : withoutCr (bytes ++ [13]) = bytes := by
  rw [withoutCr, endsCr_concat]
  exact (if_pos rfl).trans List.dropLast_concat

theorem length_withoutCr_le (bytes : List UInt8) : (withoutCr bytes).length ≤ bytes.length := by
  unfold withoutCr
  split
  · rw [List.length_dropLast]
    omega
  · exact Nat.le_refl _

theorem le_length_withoutCr (bytes : List UInt8) : bytes.length ≤ (withoutCr bytes).length + 1 := by
  unfold withoutCr
  split
  · rw [List.length_dropLast]
    omega
  · exact Nat.le_succ _

/-- The carriage return at the end is all that is missing. -/
theorem length_withoutCr_mono (bytes more : List UInt8) :
    (withoutCr bytes).length ≤ (withoutCr (bytes ++ more)).length := by
  cases more with
  | nil => rw [List.append_nil]
  | cons b more =>
      have hle := le_length_withoutCr (bytes ++ b :: more)
      have hshort := length_withoutCr_le bytes
      rw [List.length_append, List.length_cons] at hle
      omega

theorem not_suffix_of_notMem {line front : List UInt8} (h : (10 : UInt8) ∉ line) :
    ¬ front ++ [10] <:+ line := by
  rintro ⟨start, rfl⟩
  apply h
  rw [← List.append_assoc]
  exact List.mem_append_right _ List.mem_cons_self

/-- A line without terminator is its own payload. -/
theorem withoutTerminator_of_notMem {line : List UInt8} (h : (10 : UInt8) ∉ line) :
    withoutTerminator line = line := by
  have hlf : ¬ [10] <:+ line := @not_suffix_of_notMem line [] h
  have hcrlf : ¬ [13, 10] <:+ line := @not_suffix_of_notMem line [13] h
  rw [withoutTerminator, stripSuffix, stripSuffix, if_neg hlf, if_neg hcrlf]
  rfl

/-- The payload of a terminated line. -/
theorem withoutTerminator_concat (line : List UInt8) :
    withoutTerminator (line ++ [10]) = withoutCr line := by
  have hlf : [10] <:+ line ++ [10] := List.suffix_append _ _
  by_cases hcr : endsCr line = true
  · obtain ⟨front, rfl⟩ := endsCr_iff.mp hcr
    have hcrlf : [13, 10] <:+ front ++ [13] ++ [10] := by
      rw [List.append_assoc]
      exact List.suffix_append _ _
    rw [withoutTerminator, stripSuffix, if_pos hcrlf, withoutCr_concat, List.append_assoc]
    show (front ++ [13, 10]).take _ = front
    rw [List.length_append]
    exact List.take_left
  · have hcrlf : ¬ [13, 10] <:+ line ++ [10] := by
      rintro ⟨start, heq⟩
      apply hcr
      have hfront : start ++ [13] ++ [10] = line ++ [10] := by
        rw [List.append_assoc]
        exact heq
      exact endsCr_iff.mpr ⟨start, (List.append_inj_left' hfront rfl).symm⟩
    rw [withoutTerminator, stripSuffix, stripSuffix, if_neg hcrlf, if_pos hlf,
      withoutCr_of_not (Bool.not_eq_true _ ▸ hcr)]
    show (line ++ [10]).take _ = line
    rw [List.length_append]
    exact List.take_left

theorem notMem_withoutCr {line : List UInt8} (h : (10 : UInt8) ∉ line) :
    (10 : UInt8) ∉ withoutCr line := by
  unfold withoutCr
  split
  · exact fun hmem => h (List.mem_of_mem_dropLast hmem)
  · exact h

theorem payloadLength_eq (input : List UInt8) :
    payloadLength input = (withoutTerminator input).length := by
  unfold payloadLength withoutTerminator stripSuffix
  by_cases hcrlf : [13, 10] <:+ input
  · rw [if_pos hcrlf, if_pos hcrlf]
    exact (List.length_take_of_le (Nat.sub_le _ _)).symm
  · rw [if_neg hcrlf, if_neg hcrlf]
    by_cases hlf : [10] <:+ input
    · rw [if_pos hlf, if_pos hlf]
      exact (List.length_take_of_le (Nat.sub_le _ _)).symm
    · rw [if_neg hlf, if_neg hlf]
      rfl

/-- Decoding depends on the payload only. -/
theorem decodeLine_congr {json : Reader} {convert : Json → Option Record} {input input' : List UInt8}
    {limits : Limits} (h : withoutTerminator input = withoutTerminator input') :
    decodeLine json convert input limits = decodeLine json convert input' limits := by
  have hsplit : splitPayload input = splitPayload input' := by
    unfold splitPayload
    rw [h]
  unfold decodeLine
  rw [payloadLength_eq, payloadLength_eq, h, hsplit]

/-- A line that is decoded is not empty. -/
theorem payload_ne_nil {json : Reader} {convert : Json → Option Record} {input : List UInt8}
    {limits : Limits} {record : ValidatedRecord}
    (h : decodeLine json convert input limits = .ok record) : withoutTerminator input ≠ [] := by
  obtain ⟨_, -, h⟩ := bind_eq_ok.mp h
  obtain ⟨_, -, h⟩ := bind_eq_ok.mp h
  obtain ⟨payload, hsplit, -⟩ := bind_eq_ok.mp h
  obtain ⟨_, -, hsplit⟩ := bind_eq_ok.mp hsplit
  obtain ⟨_, hne, -⟩ := bind_eq_ok.mp hsplit
  exact rejectIf_eq_ok.mp hne

/-! ### Reading one line -/

section Reading

variable {allocator : ScratchAllocator} {limits : Limits} {line : ℕ+} {s : LineState}
  {bytes : List UInt8} {byte : UInt8}

/-- What has been read of a line is in the scratch buffer, or held back. -/
structure Reads (bytes : List UInt8) (s : LineState) : Prop where
  scratch : s.scratch.bytes = withoutCr bytes
  pendingCr : s.pendingCr = endsCr bytes

/-- Below the ceiling a byte is pushed. -/
theorem pushBounded_total {buffer : Scratch} {maximum : Nat}
    (hgrants : ∀ capacity growth, allocator capacity growth = true)
    (hroom : buffer.bytes.length < maximum) : ∃ buffer',
      pushBounded allocator buffer byte maximum = .ok buffer' ∧
        buffer'.bytes = buffer.bytes ++ [byte] := by
  obtain ⟨grown, hgrown⟩ : ∃ grown, buffer.reserve allocator maximum = .ok grown := by
    unfold Scratch.reserve
    by_cases hfull : buffer.bytes.length = buffer.capacity
    · rw [if_pos hfull, if_pos (hgrants _ _)]
      exact ⟨_, rfl⟩
    · rw [if_neg hfull]
      exact ⟨_, rfl⟩
  have hpush : pushBounded allocator buffer byte maximum =
      .ok { grown with bytes := grown.bytes ++ [byte] } :=
    bind_ok (rejectIf_neg hroom.ne) (bind_ok hgrown rfl)
  exact ⟨_, hpush, (pushBounded_ok hpush).2⟩

theorem push_total (hgrants : ∀ capacity growth, allocator capacity growth = true)
    (hroom : s.scratch.bytes.length < limits.maxLineBytes.toNat) : ∃ scratch,
      s.push allocator limits line byte = .ok { s with scratch := scratch } ∧
        scratch.bytes = s.scratch.bytes ++ [byte] := by
  obtain ⟨scratch, hpush, hbytes⟩ := @pushBounded_total allocator byte s.scratch _ hgrants hroom
  exact ⟨scratch, bind_ok (mapError_eq_ok.mpr hpush) rfl, hbytes⟩

/-- A held carriage return is released by a byte of the payload. -/
theorem flushCr_total (hgrants : ∀ capacity growth, allocator capacity growth = true)
    (hs : Reads bytes s) (hbyte : byte ≠ 10)
    (hroom : bytes.length ≤ limits.maxLineBytes.toNat) : ∃ scratch,
      s.flushCr allocator limits line byte = .ok { s with scratch := scratch, pendingCr := false } ∧
        scratch.bytes = bytes := by
  unfold LineState.flushCr
  rw [bne_iff_ne.mpr hbyte, Bool.and_true, hs.pendingCr]
  by_cases hcr : endsCr bytes = true
  · obtain ⟨front, rfl⟩ := endsCr_iff.mp hcr
    have hfront : s.scratch.bytes = front := hs.scratch.trans (withoutCr_concat front)
    rw [List.length_append, List.length_singleton] at hroom
    obtain ⟨scratch, hpush, hbytes⟩ := @push_total allocator limits line s 13 hgrants
      (by rw [hfront]; omega)
    rw [if_pos hcr]
    exact ⟨scratch, bind_ok hpush rfl, by rw [hbytes, hfront]⟩
  · have hcr : endsCr bytes = false := Bool.not_eq_true _ ▸ hcr
    have hpending : s.pendingCr = false := hs.pendingCr.trans hcr
    rw [if_neg (by rw [hcr]; exact Bool.false_ne_true)]
    refine ⟨s.scratch, ?_, hs.scratch.trans (withoutCr_of_not hcr)⟩
    rw [← hpending]

/-- A byte of the payload is read. -/
theorem readByte_payload (hgrants : ∀ capacity growth, allocator capacity growth = true)
    (hs : Reads bytes s) (hbyte : byte ≠ 10)
    (hroom : (withoutCr (bytes ++ [byte])).length ≤ limits.maxLineBytes.toNat)
    (hbytes : s.bytesRead < limits.maxTraceBytes.toNat) : ∃ s',
      s.readByte allocator limits line byte = (s', .exhausted) ∧ Reads (bytes ++ [byte]) s' := by
  have hheld : bytes.length ≤ limits.maxLineBytes.toNat := by
    have hle := le_length_withoutCr (bytes ++ [byte])
    rw [List.length_append, List.length_singleton] at hle
    omega
  obtain ⟨scratch, hflush, hscratch⟩ :=
    @flushCr_total allocator limits line s bytes byte hgrants hs hbyte hheld
  rw [LineState.readByte_counted hbytes hflush]
  unfold LineState.classify
  rw [if_neg Bool.false_ne_true, if_neg hbyte]
  by_cases hcr : byte = 13
  · rw [if_pos hcr, hcr]
    refine ⟨_, rfl, ?_, ?_⟩
    · exact hscratch.trans (withoutCr_concat bytes).symm
    · exact (endsCr_concat bytes 13).symm
  · have hends : endsCr (bytes ++ [byte]) = false := by
      rw [endsCr_concat]
      exact beq_false_of_ne hcr
    rw [withoutCr_of_not hends, List.length_append, List.length_singleton] at hroom
    obtain ⟨scratch', hpush, hpushed⟩ := @push_total allocator limits line
      ⟨scratch, false, s.bytesRead + 1, s.consumed + 1⟩ byte hgrants
      (by rw [hscratch]; omega)
    rw [if_neg hcr, hpush]
    refine ⟨_, rfl, ?_, hends.symm⟩
    rw [withoutCr_of_not hends]
    show scratch'.bytes = bytes ++ [byte]
    rw [hpushed, hscratch]

/-- A stretch of the payload is read. -/
theorem readChunk_payload (hgrants : ∀ capacity growth, allocator capacity growth = true)
    {more : List UInt8} : ∀ {s : LineState} {bytes : List UInt8}, Reads bytes s →
      (10 : UInt8) ∉ more → (withoutCr (bytes ++ more)).length ≤ limits.maxLineBytes.toNat →
        s.bytesRead + more.length ≤ limits.maxTraceBytes.toNat → ∃ s',
          s.readChunk allocator limits line more = (s', .exhausted) ∧ Reads (bytes ++ more) s' := by
  induction more with
  | nil =>
      intro s bytes hs _ _ _
      rw [List.append_nil]
      exact ⟨s, rfl, hs⟩
  | cons byte rest ih =>
      intro s bytes hs hlf hroom hbytes
      obtain ⟨hbyte, hrest⟩ := not_or.mp (List.mem_cons.not.mp hlf)
      have happend : bytes ++ byte :: rest = bytes ++ [byte] ++ rest := by
        rw [List.append_assoc, List.singleton_append]
      rw [List.length_cons] at hbytes
      rw [happend] at hroom ⊢
      obtain ⟨s₁, hstep, hs₁⟩ := @readByte_payload allocator limits line s bytes byte hgrants hs
        (Ne.symm hbyte) ((length_withoutCr_mono _ _).trans hroom) (by omega)
      obtain ⟨hcount, -, -⟩ := LineState.readByte_exhausted hstep
      rw [LineState.readChunk, hstep]
      exact ih hs₁ hrest hroom (by omega)

/-- The line feed completes the line. -/
theorem readByte_lf (hs : Reads bytes s) (hbytes : s.bytesRead < limits.maxTraceBytes.toNat) :
    ∃ s', s.readByte allocator limits line 10 = (s', .complete) ∧
      s'.scratch.bytes = withoutCr bytes ∧ s'.bytesRead = s.bytesRead + 1 ∧
        s'.consumed = s.consumed + 1 := by
  have hflush : s.flushCr allocator limits line 10 = .ok s := by
    unfold LineState.flushCr
    rw [bne_self_eq_false, Bool.and_false]
    exact if_neg Bool.false_ne_true
  rw [LineState.readByte_counted hbytes hflush]
  unfold LineState.classify
  by_cases hpending : s.pendingCr = true
  · rw [if_pos hpending]
    exact ⟨_, rfl, hs.scratch, rfl, rfl⟩
  · rw [if_neg hpending, if_pos rfl]
    exact ⟨_, rfl, hs.scratch, rfl, rfl⟩

/-- A terminated line is read to its end. -/
theorem readChunk_line (hgrants : ∀ capacity growth, allocator capacity growth = true)
    {payload rest : List UInt8} (hs : Reads [] s) (hlf : (10 : UInt8) ∉ payload)
    (hroom : (withoutCr payload).length ≤ limits.maxLineBytes.toNat)
    (hbytes : s.bytesRead + payload.length + 1 ≤ limits.maxTraceBytes.toNat) : ∃ s',
      s.readChunk allocator limits line (payload ++ 10 :: rest) = (s', .complete) ∧
        s'.scratch.bytes = withoutCr payload ∧ s'.bytesRead = s.bytesRead + payload.length + 1 ∧
          s'.consumed = s.consumed + payload.length + 1 := by
  obtain ⟨s₁, hpayload, hs₁⟩ := @readChunk_payload allocator limits line hgrants payload s [] hs hlf
    hroom (by omega)
  obtain ⟨hcount, hused⟩ := LineState.readChunk_exhausted hpayload
  obtain ⟨s₂, hlast, hscratch, hcount₂, hused₂⟩ := @readByte_lf allocator limits line s₁ payload hs₁
    (by omega)
  refine ⟨s₂, ?_, hscratch, by rw [hcount₂, hcount], by rw [hused₂, hused]⟩
  rw [LineState.readChunk_append hpayload, LineState.readChunk, hlast]

end Reading

/-! ### Reading all lines -/

section Lines

variable {json : Reader} {convert : Json → Option Record} {allocator : ScratchAllocator}
  {r : JsonlReader (List UInt8)}

/-- The reader after a line. -/
def afterLine (r : JsonlReader (List UInt8)) (rest : List UInt8) (scratch : Scratch) (bytes : Nat) :
    JsonlReader (List UInt8) :=
  { r with inner := rest, scratch := scratch, bytesRead := r.bytesRead + bytes }

theorem nextLineNumber_eq {n : Nat} (h : n + 1 < 2 ^ 64) : nextLineNumber n = .ok n.succPNat := by
  have hadd : checkedAdd n 1 = some (n + 1) := checkedAdd_eq_some.mpr ⟨rfl, h⟩
  have hnonzero : nonZero (n + 1) = some n.succPNat := dif_pos (Nat.succ_pos n)
  exact bind_ok (okOr_eq_ok.mpr hadd) (okOr_eq_ok.mpr hnonzero)

theorem readRecord_below (hnumber : r.recordsRead + 1 < 2 ^ 64)
    (hrecords : r.recordsRead < r.limits.maxRecordsPerTrace.toNat) :
    r.readRecord json convert allocator = { r with scratch := r.scratch.clear }.readLoop json convert
      allocator r.recordsRead.succPNat false := by
  rw [JsonlReader.readRecord, nextLineNumber_eq hnumber]
  exact if_neg (Nat.not_le.mpr hrecords)

/-- The end of the input ends the reader. -/
theorem readRecord_nil (hnumber : r.recordsRead + 1 < 2 ^ 64) (hinner : r.inner = []) :
    ∃ r', r.readRecord json convert allocator = (.ok none, r') := by
  obtain ⟨inner, limits, recordsRead, bytesRead, scratch, finished⟩ := r
  obtain rfl : inner = [] := hinner
  by_cases hrecords : recordsRead < limits.maxRecordsPerTrace.toNat
  · rw [readRecord_below hnumber hrecords,
      JsonlReader.readLoop_done (JsonlReader.readStep_end rfl)]
    exact ⟨_, rfl⟩
  · rw [JsonlReader.readRecord, nextLineNumber_eq hnumber]
    exact ⟨_, if_pos (Nat.not_lt.mp hrecords)⟩

/-- A terminated line is decoded. -/
theorem readRecord_terminated (hgrants : ∀ capacity growth, allocator capacity growth = true)
    {payload rest : List UInt8} (hinner : r.inner = payload ++ 10 :: rest)
    (hnumber : r.recordsRead + 1 < 2 ^ 64)
    (hrecords : r.recordsRead < r.limits.maxRecordsPerTrace.toNat) (hlf : (10 : UInt8) ∉ payload)
    (hroom : (withoutCr payload).length ≤ r.limits.maxLineBytes.toNat)
    (hbytes : r.bytesRead + payload.length + 1 ≤ r.limits.maxTraceBytes.toNat) : ∃ scratch,
      scratch.bytes = withoutCr payload ∧ r.readRecord json convert allocator =
        (afterLine r rest scratch (payload.length + 1)).decodeRecord json convert
          r.recordsRead.succPNat := by
  obtain ⟨inner, limits, recordsRead, bytesRead, scratch, finished⟩ := r
  obtain rfl : inner = payload ++ 10 :: rest := hinner
  obtain ⟨s, hchunk, hscratch, hcount, hused⟩ := @readChunk_line allocator limits
    recordsRead.succPNat ⟨scratch.clear, false, bytesRead, 0⟩ hgrants payload rest ⟨rfl, rfl⟩ hlf
    hroom hbytes
  refine ⟨s.scratch, hscratch, ?_⟩
  rw [readRecord_below hnumber hrecords]
  apply JsonlReader.readLoop_done
  obtain ⟨byte, tail, htail⟩ : ∃ byte tail, payload ++ 10 :: rest = byte :: tail :=
    List.exists_cons_of_ne_nil (List.append_ne_nil_of_right_ne_nil _ (List.cons_ne_nil _ _))
  have hrest : (BufRead.consume (byte :: tail) s.consumed : List UInt8) = rest := by
    show (byte :: tail).drop s.consumed = rest
    rw [← htail, hused, Nat.zero_add, ← List.drop_drop, List.drop_left]
    rfl
  rw [htail] at hchunk ⊢
  refine (JsonlReader.readStep_chunk rfl).trans ?_
  show JsonlReader.afterChunk json convert _ _ (byte :: tail) (LineState.readChunk allocator limits
    recordsRead.succPNat ⟨scratch.clear, false, bytesRead, 0⟩ (byte :: tail)) = _
  rw [hchunk, JsonlReader.afterChunk, hrest, hcount]
  rfl

/-- A last line without terminator is decoded. -/
theorem readRecord_unterminated (hgrants : ∀ capacity growth, allocator capacity growth = true)
    {payload : List UInt8} (hinner : r.inner = payload) (hne : payload ≠ [])
    (hnumber : r.recordsRead + 1 < 2 ^ 64)
    (hrecords : r.recordsRead < r.limits.maxRecordsPerTrace.toNat) (hlf : (10 : UInt8) ∉ payload)
    (hroom : payload.length ≤ r.limits.maxLineBytes.toNat)
    (hbytes : r.bytesRead + payload.length ≤ r.limits.maxTraceBytes.toNat) : ∃ scratch,
      scratch.bytes = payload ∧ r.readRecord json convert allocator =
        (afterLine r [] scratch payload.length).decodeRecord json convert
          r.recordsRead.succPNat := by
  obtain ⟨inner, limits, recordsRead, bytesRead, scratch, finished⟩ := r
  obtain rfl : inner = payload := hinner
  obtain ⟨s, hchunk, hs⟩ := @readChunk_payload allocator limits recordsRead.succPNat hgrants inner
    ⟨scratch.clear, false, bytesRead, 0⟩ [] ⟨rfl, rfl⟩ hlf
    ((length_withoutCr_le _).trans hroom) hbytes
  obtain ⟨hcount, hused⟩ := LineState.readChunk_exhausted hchunk
  obtain ⟨byte, tail, rfl⟩ := List.exists_cons_of_ne_nil hne
  have hrest : (BufRead.consume (byte :: tail) s.consumed : List UInt8) = [] := by
    show (byte :: tail).drop s.consumed = []
    rw [hused, Nat.zero_add]
    exact List.drop_length
  -- at the end of the input the held carriage return belongs to the line
  obtain ⟨scratch', hend, hscratch⟩ : ∃ scratch',
      (if s.pendingCr = true then pushBounded allocator s.scratch 13 limits.maxLineBytes.toNat
        else .ok s.scratch) = .ok scratch' ∧ scratch'.bytes = byte :: tail := by
    have hstored : s.scratch.bytes = withoutCr (byte :: tail) := hs.scratch
    have hpending : s.pendingCr = endsCr (byte :: tail) := hs.pendingCr
    by_cases hcr : endsCr (byte :: tail) = true
    · obtain ⟨front, hfront⟩ := endsCr_iff.mp hcr
      rw [hfront, withoutCr_concat] at hstored
      have hroom : (byte :: tail).length ≤ limits.maxLineBytes.toNat := hroom
      rw [hfront, List.length_append, List.length_singleton] at hroom
      obtain ⟨scratch', hpush, hpushed⟩ := @pushBounded_total allocator 13 s.scratch
        limits.maxLineBytes.toNat hgrants (by rw [hstored]; omega)
      refine ⟨scratch', ?_, by rw [hpushed, hstored, hfront]⟩
      rw [hpending, if_pos hcr]
      exact hpush
    · refine ⟨s.scratch, ?_, hstored.trans (withoutCr_of_not (Bool.not_eq_true _ ▸ hcr))⟩
      rw [hpending, if_neg hcr]
  refine ⟨scratch', hscratch, ?_⟩
  rw [readRecord_below hnumber hrecords]
  have hagain := @JsonlReader.readStep_chunk _ _ json convert allocator
    ⟨byte :: tail, limits, recordsRead, bytesRead, scratch.clear, finished⟩ recordsRead.succPNat
    false _ _ _ rfl
  rw [hchunk, JsonlReader.afterChunk, hrest] at hagain
  rw [JsonlReader.readLoop_again hagain, JsonlReader.readLoop_done (JsonlReader.readStep_end rfl)]
  unfold JsonlReader.readEnd
  dsimp only
  rw [hend]
  dsimp only
  rw [if_neg (by rw [hscratch]; exact List.cons_ne_nil _ _), hcount]
  rfl

/-- The items of the decoded lines, up to the first failure. -/
def itemsOf (decode : List UInt8 → Except CodecError ValidatedRecord) :
    Nat → List (List UInt8) → List (Except ReadError LocatedRecord)
  | _, [] => []
  | recordsRead, line :: rest =>
      match decode line with
      | .ok record => .ok ⟨recordsRead.succPNat, record⟩ :: itemsOf decode (recordsRead + 1) rest
      | .error error => [.error (.codec recordsRead.succPNat error)]

/-- What a number of calls of a fused iterator returns. -/
def yields {α : Type} : List α → Nat → List (Option α)
  | _, 0 => []
  | [], n + 1 => none :: yields [] n
  | item :: items, n + 1 => some item :: yields items n

theorem yields_nil {α : Type} (n : Nat) : yields ([] : List α) n = List.replicate n none := by
  induction n with
  | zero => rfl
  | succ n ih => rw [yields, ih, List.replicate_succ]

theorem next_of_error {line : ℕ+} {rest : List UInt8} {scratch : Scratch} {k : Nat}
    {error : CodecError} (hopen : r.finished = false)
    (hread : r.readRecord json convert allocator =
      (afterLine r rest scratch k).decodeRecord json convert line)
    (hdecode : decodeLine json convert scratch.bytes r.limits = .error error) :
    (r.next json convert allocator).1 = some (.error (.codec line error)) := by
  have hresult : (afterLine r rest scratch k).decodeRecord json convert line =
      (.error (.codec line error), afterLine r rest scratch k) := by
    unfold JsonlReader.decodeRecord JsonlReader.decodeScratch
    dsimp only [afterLine]
    rw [hdecode]
    rfl
  rw [JsonlReader.next, if_neg (by rw [hopen]; exact Bool.false_ne_true), hread, hresult]

theorem next_of_ok {line : ℕ+} {rest : List UInt8} {scratch : Scratch} {k : Nat}
    {record : ValidatedRecord} (hopen : r.finished = false) (hnumber : r.recordsRead + 1 < 2 ^ 64)
    (hread : r.readRecord json convert allocator =
      (afterLine r rest scratch k).decodeRecord json convert line)
    (hdecode : decodeLine json convert scratch.bytes r.limits = .ok record) :
    r.next json convert allocator = (some (.ok ⟨line, record⟩),
      { afterLine r rest scratch k with recordsRead := r.recordsRead + 1 }) := by
  have hadd : checkedAdd r.recordsRead 1 = some (r.recordsRead + 1) :=
    checkedAdd_eq_some.mpr ⟨rfl, hnumber⟩
  have hresult : (afterLine r rest scratch k).decodeRecord json convert line =
      (.ok (some ⟨line, record⟩),
        { afterLine r rest scratch k with recordsRead := r.recordsRead + 1 }) := by
    unfold JsonlReader.decodeRecord JsonlReader.decodeScratch
    dsimp only [afterLine]
    rw [hdecode]
    dsimp only
    rw [hadd]
    rfl
  rw [JsonlReader.next, if_neg (by rw [hopen]; exact Bool.false_ne_true), hread, hresult]

/-- A line that fails ends the run. -/
theorem nexts_of_error {item : Except ReadError LocatedRecord} {error : ReadError} (n : Nat)
    (h : (r.next json convert allocator).1 = some item) (herror : item = .error error) :
    (r.nexts json convert allocator n).1 = yields [item] n := by
  cases n with
  | zero => rfl
  | succ n =>
      have hfinished := JsonlReader.next_finishes (.inr ⟨error, herror ▸ h⟩)
      show (r.next json convert allocator).1 :: ((r.next json convert allocator).2.nexts json convert
        allocator n).1 = _
      rw [h, JsonlReader.nexts_finished hfinished, yields, yields_nil]

/-- Nothing is left to read. -/
theorem nexts_of_nil (n : Nat) (hinner : r.inner = []) (hopen : r.finished = false)
    (hnumber : r.recordsRead + 1 < 2 ^ 64) :
    (r.nexts json convert allocator n).1 = yields [] n := by
  cases n with
  | zero => rfl
  | succ n =>
      obtain ⟨r', hread⟩ := @readRecord_nil json convert allocator r hnumber hinner
      have hnext : r.next json convert allocator = (none, { r' with finished := true }) := by
        rw [JsonlReader.next, if_neg (by rw [hopen]; exact Bool.false_ne_true), hread]
      have hfinished : (r.next json convert allocator).2.finished = true := by
        rw [hnext]
      show (r.next json convert allocator).1 :: ((r.next json convert allocator).2.nexts json convert
        allocator n).1 = _
      rw [JsonlReader.nexts_finished hfinished, hnext, yields, yields_nil]

/-- A record, and what the reader returns after it. -/
theorem nexts_of_ok {line : ℕ+} {rest : List UInt8} {scratch : Scratch} {k : Nat}
    {record : ValidatedRecord} {items : List (Except ReadError LocatedRecord)} (n : Nat)
    (hopen : r.finished = false) (hnumber : r.recordsRead + 1 < 2 ^ 64)
    (hread : r.readRecord json convert allocator =
      (afterLine r rest scratch k).decodeRecord json convert line)
    (hdecode : decodeLine json convert scratch.bytes r.limits = .ok record)
    (hrest : ∀ n, (({ afterLine r rest scratch k with recordsRead := r.recordsRead + 1 } :
      JsonlReader (List UInt8)).nexts json convert allocator n).1 = yields items n) :
    (r.nexts json convert allocator n).1 = yields (.ok ⟨line, record⟩ :: items) n := by
  cases n with
  | zero => rfl
  | succ n =>
      show (r.next json convert allocator).1 :: ((r.next json convert allocator).2.nexts json convert
        allocator n).1 = _
      rw [next_of_ok hopen hnumber hread hdecode, hrest n, yields]

/-- Within the limits the items are those of the lines.  Two bytes go with
every record except for the last one, so that records are never counted up to
the end of their range. -/
theorem nexts_eq_itemsOf (hgrants : ∀ capacity growth, allocator capacity growth = true)
    (limits : Limits) (bytes : List UInt8) : ∀ (n : Nat) {r : JsonlReader (List UInt8)},
      r.inner = bytes → r.limits = limits → r.finished = false →
      2 * r.recordsRead ≤ r.bytesRead + 1 → (bytes ≠ [] → 2 * r.recordsRead ≤ r.bytesRead) →
      r.bytesRead + bytes.length ≤ limits.maxTraceBytes.toNat →
      r.recordsRead + (lines 10 bytes).length ≤ limits.maxRecordsPerTrace.toNat →
      (∀ line ∈ lines 10 bytes, (withoutTerminator line).length ≤ limits.maxLineBytes.toNat) →
        (r.nexts json convert allocator n).1 = yields
          (itemsOf (fun line => decodeLine json convert line limits) r.recordsRead (lines 10 bytes))
          n := by
  have hmax := limits.maxTraceBytes.toNat_lt
  induction bytes using @inductionOnLines _ _ (10 : UInt8) with
  | nil =>
      intro n r hinner _ hopen hcount _ hbytes _ _
      rw [List.length_nil] at hbytes
      exact nexts_of_nil n hinner hopen (by omega)
  | last line hne hlf =>
      intro n r hinner hlimits hopen hcount hmore hbytes hrecords hpayloads
      subst hlimits
      rw [lines_unterminated hne hlf] at hrecords hpayloads ⊢
      have hhalf := hmore hne
      have hroom := hpayloads line List.mem_cons_self
      rw [withoutTerminator_of_notMem hlf] at hroom
      rw [List.length_singleton] at hrecords
      obtain ⟨scratch, hscratch, hread⟩ := @readRecord_unterminated json convert allocator r hgrants
        line hinner hne (by omega) (by omega) hlf hroom hbytes
      rw [itemsOf]
      cases hdecode : decodeLine json convert line r.limits with
      | error error => exact nexts_of_error n (next_of_error hopen hread (hscratch ▸ hdecode)) rfl
      | ok record =>
          refine nexts_of_ok n hopen (by omega) hread (hscratch ▸ hdecode) fun n => ?_
          refine nexts_of_nil n rfl hopen ?_
          show r.recordsRead + 1 + 1 < 2 ^ 64
          omega
  | cons line rest hlf ih =>
      intro n r hinner hlimits hopen hcount hmore hbytes hrecords hpayloads
      subst hlimits
      rw [lines_terminated hlf] at hrecords hpayloads ⊢
      obtain ⟨hroom, hrooms⟩ := List.forall_mem_cons.mp hpayloads
      have hhalf := hmore (List.append_ne_nil_of_right_ne_nil _ (List.cons_ne_nil _ _))
      rw [withoutTerminator_concat] at hroom
      rw [List.length_append, List.length_cons] at hbytes
      rw [List.length_cons] at hrecords
      obtain ⟨scratch, hscratch, hread⟩ := @readRecord_terminated json convert allocator r hgrants
        line rest hinner (by omega) (by omega) hlf hroom (by omega)
      have hsame : decodeLine json convert scratch.bytes r.limits =
          decodeLine json convert (line ++ [10]) r.limits := by
        apply decodeLine_congr
        rw [hscratch, withoutTerminator_concat, withoutTerminator_of_notMem (notMem_withoutCr hlf)]
      rw [itemsOf]
      cases hdecode : decodeLine json convert (line ++ [10]) r.limits with
      | error error =>
          exact nexts_of_error n (next_of_error hopen hread (hsame.trans hdecode)) rfl
      | ok record =>
          have hpayload := payload_ne_nil hdecode
          rw [withoutTerminator_concat] at hpayload
          have hlength : 0 < line.length := by
            have hle := length_withoutCr_le line
            have hpos := List.length_pos_of_ne_nil hpayload
            omega
          refine nexts_of_ok n hopen (by omega) hread (hsame.trans hdecode) fun n => ?_
          refine ih n rfl rfl hopen ?_ (fun _ => ?_) ?_ ?_ hrooms
          · show 2 * (r.recordsRead + 1) ≤ r.bytesRead + (line.length + 1) + 1
            omega
          · show 2 * (r.recordsRead + 1) ≤ r.bytesRead + (line.length + 1)
            omega
          · show r.bytesRead + (line.length + 1) + rest.length ≤ r.limits.maxTraceBytes.toNat
            omega
          · show r.recordsRead + 1 + (lines 10 rest).length ≤ r.limits.maxRecordsPerTrace.toNat
            omega

end Lines

/-- Streaming ingestion does not depend on buffering, is fused and bounded,
and within the limits decodes line by line. -/
theorem jsonl_reads_lines (json : Reader) (convert : Json → Option Record)
    (allocator : ScratchAllocator) {ρ ρ' : Type} [BufRead ρ] [BufRead ρ']
    {Presents : ρ → List UInt8 → Prop} {Presents' : ρ' → List UInt8 → Prop}
    (hpresentation : Presentation Presents) (hpresentation' : Presentation Presents')
    (hgrants : ∀ capacity growth, allocator capacity growth = true) (limits : Limits)
    (bytes : List UInt8) (src : ρ) (src' : ρ') (hsrc : Presents src bytes)
    (hsrc' : Presents' src' bytes) :
    (∀ n, ((JsonlReader.new src limits).nexts json convert allocator n).1 =
        ((JsonlReader.new src' limits).nexts json convert allocator n).1 ∧
      ((JsonlReader.new src limits).nexts json convert allocator n).2.recordsRead =
        ((JsonlReader.new src' limits).nexts json convert allocator n).2.recordsRead ∧
      ((JsonlReader.new src limits).nexts json convert allocator n).2.bytesRead =
        ((JsonlReader.new src' limits).nexts json convert allocator n).2.bytesRead) ∧
    (∀ n r, ((JsonlReader.new src limits).nexts json convert allocator n).2 = r →
      ((r.next json convert allocator).1 = none ∨
        ∃ error, (r.next json convert allocator).1 = some (.error error)) →
      ∀ k, ((r.next json convert allocator).2.nexts json convert allocator k).1 =
        List.replicate k none) ∧
    (∀ n r, ((JsonlReader.new src limits).nexts json convert allocator n).2 = r →
      r.scratch.bytes.length ≤ limits.maxLineBytes.toNat ∧
        r.bytesRead ≤ limits.maxTraceBytes.toNat ∧
      ∀ (s : LineState) (chunk : List UInt8) (line : ℕ+), s.Within limits →
        (s.readChunk allocator limits line chunk).1.Within limits) ∧
    (bytes.length ≤ limits.maxTraceBytes.toNat →
      (lines 10 bytes).length ≤ limits.maxRecordsPerTrace.toNat →
      (∀ line ∈ lines 10 bytes, (withoutTerminator line).length ≤ limits.maxLineBytes.toNat) →
        ∀ n, ((JsonlReader.new src limits).nexts json convert allocator n).1 =
          yields (itemsOf (fun line => decodeLine json convert line limits) 0 (lines 10 bytes))
            n) := by
  have hflat : ∀ n, InStep Presents ((JsonlReader.new src limits).nexts json convert allocator n)
      ((JsonlReader.new bytes limits).nexts json convert allocator n) :=
    fun n => nexts_inStep hpresentation n hsrc
  have hflat' : ∀ n, InStep Presents' ((JsonlReader.new src' limits).nexts json convert allocator n)
      ((JsonlReader.new bytes limits).nexts json convert allocator n) :=
    fun n => nexts_inStep hpresentation' n hsrc'
  refine ⟨fun n => ?_, ?_, ?_, fun hbytes hrecords hpayloads n => ?_⟩
  · obtain ⟨hitems, left, -, hafter⟩ := hflat n
    obtain ⟨hitems', left', -, hafter'⟩ := hflat' n
    have hsame := hafter.symm.trans hafter'
    exact ⟨hitems.trans hitems'.symm, congrArg JsonlReader.recordsRead hsame,
      congrArg JsonlReader.bytesRead hsame⟩
  · rintro n r rfl hstop k
    rw [JsonlReader.nexts_finished (JsonlReader.next_finishes hstop)]
  · rintro n r rfl
    have hbounded := @JsonlReader.Bounded.nexts _ json convert allocator limits _ n
      (JsonlReader.new src limits) ⟨rfl, Nat.zero_le _, Nat.zero_le _⟩
    exact ⟨hbounded.scratch, hbounded.bytesRead, fun s chunk line hs => hs.readChunk⟩
  · rw [(hflat n).1]
    refine nexts_eq_itemsOf hgrants limits bytes n rfl rfl rfl (Nat.zero_le _)
      (fun _ => Nat.zero_le _) ?_ ?_ hpayloads
    · exact (Nat.zero_add _).trans_le hbytes
    · exact (Nat.zero_add _).trans_le hrecords

namespace Sample

/-- A blank line, its terminator in two chunks. -/
def splitTerminator : Chunks := ⟨[[32, 13], [10]], by decide⟩

/-- The same line in one chunk. -/
def oneChunk : Chunks := ⟨[[32, 13, 10]], by decide⟩

/-- A blank line has no record, and nothing comes after it. -/
theorem jsonl_reads_blank_line :
    ((JsonlReader.new splitTerminator Limits.default).nexts headerReader convert (fun _ _ => true)
      2).1 = [some (.error (.codec 1 .emptyLine)), none] ∧
    ((JsonlReader.new splitTerminator Limits.default).nexts headerReader convert (fun _ _ => true)
      2).1 = ((JsonlReader.new oneChunk Limits.default).nexts headerReader convert (fun _ _ => true)
      2).1 := by
  have h := jsonl_reads_lines headerReader convert (fun _ _ => true) presentation_chunks
    presentation_chunks (fun _ _ => rfl) Limits.default [32, 13, 10] splitTerminator oneChunk rfl rfl
  refine ⟨(h.2.2.2 (by decide) (by decide) (by decide) 2).trans ?_, (h.1 2).1⟩
  rfl

end Sample

end KvCrucible
