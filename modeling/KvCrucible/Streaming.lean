/-
KvCrucible/Streaming.lean

Streaming ingestion does not depend on buffering.

`Presentation` says that a source lends the bytes of a string in some pieces,
and nothing once they are used up.  The simplest source lends all bytes at
once; a reader over any presentation stays in step with the reader over that
one (`InStep`), so that two presentations of the same bytes are read alike.
-/
import KvCrucible.Basis.Lines
import KvCrucible.Jsonl

namespace KvCrucible

open Basis

/-! ### Sources -/

/-- A source lends the bytes of a string in pieces, and nothing once they are
used up. -/
structure Presentation {ρ : Type} [BufRead ρ] (Presents : ρ → List UInt8 → Prop) : Prop where
  fillBuf : ∀ {src bytes}, Presents src bytes → ∃ available src',
    BufRead.fillBuf src = (.ok available, src') ∧ available <+: bytes ∧
      (available = [] → bytes = []) ∧ Presents src' bytes ∧
        ∀ n ≤ available.length, Presents (BufRead.consume src' n) (bytes.drop n)

/-- The bytes of a string, lent all at once. -/
instance : BufRead (List UInt8) where
  fillBuf := fun bytes => (.ok bytes, bytes)
  consume := fun bytes n => bytes.drop n

/-- Successive chunks, none of them empty. -/
structure Chunks where
  pieces : List (List UInt8)
  nonempty : ∀ piece ∈ pieces, piece ≠ []

/-- The chunks that are left when some bytes of the first one are used. -/
def useBytes (n : Nat) : List (List UInt8) → List (List UInt8)
  | [] => []
  | piece :: rest => if n < piece.length then piece.drop n :: rest else rest

theorem useBytes_nonempty {pieces : List (List UInt8)} (h : ∀ piece ∈ pieces, piece ≠ []) (n : Nat) :
    ∀ piece ∈ useBytes n pieces, piece ≠ [] := by
  cases pieces with
  | nil => exact h
  | cons piece rest =>
      obtain ⟨-, hrest⟩ := List.forall_mem_cons.mp h
      rw [useBytes]
      by_cases hn : n < piece.length
      · rw [if_pos hn]
        refine List.forall_mem_cons.mpr ⟨List.ne_nil_of_length_pos ?_, hrest⟩
        rw [List.length_drop]
        omega
      · rw [if_neg hn]
        exact hrest

instance : BufRead Chunks where
  fillBuf := fun src => (.ok (src.pieces.headD []), src)
  consume := fun src n => ⟨useBytes n src.pieces, useBytes_nonempty src.nonempty n⟩

/-- Chunks present the string they make up. -/
theorem presentation_chunks :
    Presentation fun (src : Chunks) bytes => src.pieces.flatten = bytes where
  fillBuf := by
    rintro src bytes rfl
    refine ⟨src.pieces.headD [], src, rfl, ?_, ?_, rfl, ?_⟩
    · cases src.pieces with
      | nil => exact List.prefix_refl _
      | cons piece rest => exact List.prefix_append _ _
    · have hnonempty := src.nonempty
      cases hpieces : src.pieces with
      | nil => exact fun _ => rfl
      | cons piece rest =>
          intro hempty
          rw [hpieces] at hnonempty
          exact absurd hempty (hnonempty piece List.mem_cons_self)
    · intro n hn
      obtain ⟨pieces, hnonempty⟩ := src
      cases pieces with
      | nil => exact (List.drop_nil).symm
      | cons piece rest =>
          show (useBytes n (piece :: rest)).flatten = (piece ++ rest.flatten).drop n
          rw [useBytes]
          by_cases hlt : n < piece.length
          · rw [if_pos hlt, List.drop_append_of_le_length hlt.le]
            rfl
          · have heq : n = piece.length := Nat.le_antisymm hn (Nat.not_lt.mp hlt)
            rw [if_neg hlt, heq, List.drop_left]

/-! ### In step with the simplest source -/

section InStep

variable {ρ : Type} {Presents : ρ → List UInt8 → Prop}

/-- The reader with all its bytes lent at once. -/
def JsonlReader.over (r : JsonlReader ρ) (bytes : List UInt8) : JsonlReader (List UInt8) where
  inner := bytes
  limits := r.limits
  recordsRead := r.recordsRead
  bytesRead := r.bytesRead
  scratch := r.scratch
  finished := r.finished

/-- The same result, and readers that differ in their sources only, which
present the same bytes. -/
def InStep {α : Type} (Presents : ρ → List UInt8 → Prop) (out : α × JsonlReader ρ)
    (out' : α × JsonlReader (List UInt8)) : Prop :=
  out.1 = out'.1 ∧ ∃ bytes, Presents out.2.inner bytes ∧ out'.2 = out.2.over bytes

variable {json : Reader} {convert : Json → Option Record} {allocator : ScratchAllocator}
  {r : JsonlReader ρ} {bytes : List UInt8} {line : ℕ+} {pendingCr : Bool}

theorem decodeScratch_inStep (h : Presents r.inner bytes) : InStep Presents
    (r.decodeScratch json convert line) ((r.over bytes).decodeScratch json convert line) := by
  unfold JsonlReader.decodeScratch
  dsimp only [JsonlReader.over]
  cases decodeLine json convert r.scratch.bytes r.limits with
  | error error => exact ⟨rfl, bytes, h, rfl⟩
  | ok record =>
      cases checkedAdd r.recordsRead 1 with
      | none => exact ⟨rfl, bytes, h, rfl⟩
      | some recordsRead => exact ⟨rfl, bytes, h, rfl⟩

theorem decodeRecord_inStep (h : Presents r.inner bytes) : InStep Presents
    (r.decodeRecord json convert line) ((r.over bytes).decodeRecord json convert line) := by
  obtain ⟨hresult, hafter⟩ := @decodeScratch_inStep _ Presents json convert r bytes line h
  refine ⟨?_, hafter⟩
  show (r.decodeScratch json convert line).1.map some = _
  rw [hresult]
  rfl

theorem readEnd_inStep (h : Presents r.inner bytes) : InStep Presents
    (r.readEnd json convert allocator line pendingCr)
    ((r.over bytes).readEnd json convert allocator line pendingCr) := by
  unfold JsonlReader.readEnd
  dsimp only [JsonlReader.over]
  cases if pendingCr = true then pushBounded allocator r.scratch 13 r.limits.maxLineBytes.toNat
      else .ok r.scratch with
  | error error => exact ⟨rfl, bytes, h, rfl⟩
  | ok scratch =>
      dsimp only
      by_cases hempty : scratch.bytes = []
      · rw [if_pos hempty, if_pos hempty]
        exact ⟨rfl, bytes, h, rfl⟩
      · rw [if_neg hempty, if_neg hempty]
        exact @decodeRecord_inStep _ Presents json convert { r with scratch := scratch } bytes line h

/-- What follows a buffer that was read in two parts. -/
theorem afterChunk_shift {first more : List UInt8} {s : LineState} {stop : ChunkEnd}
    {scratch : Scratch} {bytesRead : Nat} (hstop : ∀ error, stop ≠ .returned error) :
    (r.over (first ++ more)).afterChunk json convert line (first ++ more)
        (s.shift first.length, stop) =
      ({ r with scratch := scratch, bytesRead := bytesRead }.over more).afterChunk json convert line
        more (s, stop) := by
  have hinner : (BufRead.consume (first ++ more) (s.shift first.length).consumed : List UInt8) =
      BufRead.consume more s.consumed := by
    show (first ++ more).drop (s.consumed + first.length) = more.drop s.consumed
    rw [Nat.add_comm, ← List.drop_drop, List.drop_left]
  cases stop with
  | returned error => exact absurd rfl (hstop error)
  | failed error =>
      rw [JsonlReader.afterChunk, JsonlReader.afterChunk, hinner]
      rfl
  | complete =>
      rw [JsonlReader.afterChunk, JsonlReader.afterChunk, hinner]
      rfl
  | exhausted =>
      rw [JsonlReader.afterChunk, JsonlReader.afterChunk, hinner]
      rfl

/-- The bytes of a first buffer can be taken away before the rest is read. -/
theorem readLoop_skip {first more : List UInt8} {s : LineState} (hne : first ≠ [])
    (h : LineState.readChunk allocator r.limits line ⟨r.scratch, pendingCr, r.bytesRead, 0⟩ first =
      (s, .exhausted)) :
    (r.over (first ++ more)).readLoop json convert allocator line pendingCr =
      ({ r with scratch := s.scratch, bytesRead := s.bytesRead }.over more).readLoop json convert
        allocator line s.pendingCr := by
  obtain ⟨byte, rest, rfl⟩ := List.exists_cons_of_ne_nil hne
  have hconsumed : s.consumed = 0 + (byte :: rest).length := (LineState.readChunk_exhausted h).2
  rw [Nat.zero_add] at hconsumed
  cases more with
  | nil =>
      have hinner : (BufRead.consume (byte :: rest) s.consumed : List UInt8) = [] := by
        rw [hconsumed]
        exact List.drop_length
      apply JsonlReader.readLoop_again
      rw [List.append_nil]
      refine (JsonlReader.readStep_chunk rfl).trans ?_
      show (r.over (byte :: rest)).afterChunk json convert line (byte :: rest)
        (LineState.readChunk allocator r.limits line ⟨r.scratch, pendingCr, r.bytesRead, 0⟩
          (byte :: rest)) = _
      rw [h, JsonlReader.afterChunk, hinner]
      rfl
  | cons next more =>
      have hshift : s = LineState.shift (byte :: rest).length
          ⟨s.scratch, s.pendingCr, s.bytesRead, 0⟩ := by
        rw [LineState.shift, Nat.zero_add, ← hconsumed]
      have hchunk : LineState.readChunk allocator r.limits line
          ⟨r.scratch, pendingCr, r.bytesRead, 0⟩ (byte :: rest ++ next :: more) =
            ((LineState.readChunk allocator r.limits line ⟨s.scratch, s.pendingCr, s.bytesRead, 0⟩
                (next :: more)).1.shift (byte :: rest).length,
              (LineState.readChunk allocator r.limits line ⟨s.scratch, s.pendingCr, s.bytesRead, 0⟩
                (next :: more)).2) := by
        rw [LineState.readChunk_append h, ← LineState.readChunk_shift, ← hshift]
      apply JsonlReader.readLoop_congr
      refine (JsonlReader.readStep_chunk rfl).trans (Eq.trans ?_
        (JsonlReader.readStep_chunk rfl).symm)
      show (r.over (byte :: rest ++ next :: more)).afterChunk json convert line
        (byte :: rest ++ next :: more) (LineState.readChunk allocator r.limits line
          ⟨r.scratch, pendingCr, r.bytesRead, 0⟩ (byte :: rest ++ next :: more)) = _
      rw [hchunk]
      exact afterChunk_shift fun error => LineState.readChunk_ne_returned

variable [BufRead ρ]

/-- The loop over the buffers of a presentation stays in step. -/
theorem readLoop_inStep (hpresents : Presentation Presents) : ∀ (n : Nat) {r : JsonlReader ρ}
    {bytes : List UInt8} {pendingCr : Bool}, r.limits.maxTraceBytes.toNat - r.bytesRead = n →
      Presents r.inner bytes → InStep Presents
        (r.readLoop json convert allocator line pendingCr)
        ((r.over bytes).readLoop json convert allocator line pendingCr) := by
  intro n
  induction n using Nat.strong_induction_on with
  | _ n ih =>
      intro r bytes pendingCr hn h
      obtain ⟨available, src', hfill, hprefix, hend, hsrc, hconsume⟩ := hpresents.fillBuf h
      cases available with
      | nil =>
          obtain rfl := hend rfl
          rw [JsonlReader.readLoop_done (JsonlReader.readStep_end hfill),
            JsonlReader.readLoop_done (JsonlReader.readStep_end rfl)]
          exact @readEnd_inStep _ Presents json convert allocator { r with inner := src' } [] line
            pendingCr hsrc
      | cons byte rest =>
          obtain ⟨more, rfl⟩ := hprefix
          have hstep := @JsonlReader.readStep_chunk _ _ json convert allocator r line pendingCr _ _
            _ hfill
          have hflat := @JsonlReader.readStep_chunk _ _ json convert allocator
            (r.over (byte :: rest ++ more)) line pendingCr _ _ _ rfl
          rcases hchunk : LineState.readChunk allocator r.limits line
            ⟨r.scratch, pendingCr, r.bytesRead, 0⟩ (byte :: rest) with ⟨s, stop⟩
          have hused : s.consumed ≤ 0 + (byte :: rest).length := by
            have hle := @LineState.consumed_readChunk allocator r.limits line (byte :: rest)
              ⟨r.scratch, pendingCr, r.bytesRead, 0⟩
            rw [hchunk] at hle
            exact hle
          rw [Nat.zero_add] at hused
          rw [hchunk] at hstep
          by_cases hstop : stop = .exhausted
          · subst hstop
            have hall : s.consumed = 0 + (byte :: rest).length :=
              (LineState.readChunk_exhausted hchunk).2
            obtain ⟨-, hmore, hroom⟩ := JsonlReader.readStep_again hstep
            rw [JsonlReader.readLoop_again hstep, readLoop_skip (List.cons_ne_nil _ _) hchunk]
            refine ih _ ?_ rfl ?_
            · show r.limits.maxTraceBytes.toNat - s.bytesRead < n
              have hmore : r.bytesRead < s.bytesRead := hmore
              omega
            · have hrest := hconsume s.consumed hused
              rw [hall, Nat.zero_add, List.drop_left] at hrest
              show Presents (BufRead.consume src' s.consumed) more
              rw [hall, Nat.zero_add]
              exact hrest
          · have hflatChunk : LineState.readChunk allocator r.limits line
                ⟨r.scratch, pendingCr, r.bytesRead, 0⟩ (byte :: (rest ++ more)) = (s, stop) :=
              LineState.readChunk_stopped hstop hchunk
            have hflat : (r.over (byte :: rest ++ more)).readStep json convert allocator line
                pendingCr = (r.over (byte :: rest ++ more)).afterChunk json convert line
                  (byte :: rest ++ more) (s, stop) :=
              hflat.trans (congrArg _ hflatChunk)
            cases stop with
            | exhausted => exact absurd rfl hstop
            | returned error =>
                rw [JsonlReader.readLoop_done hstep, JsonlReader.readLoop_done hflat]
                exact ⟨rfl, _, hsrc, rfl⟩
            | failed error =>
                rw [JsonlReader.readLoop_done hstep, JsonlReader.readLoop_done hflat]
                exact ⟨rfl, _, hconsume _ hused, rfl⟩
            | complete =>
                rw [JsonlReader.readLoop_done hstep, JsonlReader.readLoop_done hflat]
                exact @decodeRecord_inStep _ Presents json convert
                  { r with
                    inner := BufRead.consume src' s.consumed
                    scratch := s.scratch
                    bytesRead := s.bytesRead } _ line (hconsume _ hused)

theorem ensureRecordLimitOrEof_inStep (hpresents : Presentation Presents)
    (h : Presents r.inner bytes) : InStep Presents (r.ensureRecordLimitOrEof line)
      ((r.over bytes).ensureRecordLimitOrEof line) := by
  obtain ⟨available, src', hfill, hprefix, hend, hsrc, -⟩ := hpresents.fillBuf h
  unfold JsonlReader.ensureRecordLimitOrEof
  rw [hfill]
  cases available with
  | nil =>
      obtain rfl := hend rfl
      exact ⟨rfl, [], hsrc, rfl⟩
  | cons byte rest =>
      obtain ⟨more, rfl⟩ := hprefix
      exact ⟨rfl, _, hsrc, rfl⟩

theorem readRecord_inStep (hpresents : Presentation Presents) (h : Presents r.inner bytes) :
    InStep Presents (r.readRecord json convert allocator)
      ((r.over bytes).readRecord json convert allocator) := by
  unfold JsonlReader.readRecord
  cases hnext : nextLineNumber r.recordsRead with
  | error error =>
      have hnext' : nextLineNumber (r.over bytes).recordsRead = .error error := hnext
      rw [hnext']
      exact ⟨rfl, bytes, h, rfl⟩
  | ok line =>
      have hnext' : nextLineNumber (r.over bytes).recordsRead = .ok line := hnext
      rw [hnext']
      dsimp only
      by_cases hfull : r.recordsRead ≥ r.limits.maxRecordsPerTrace.toNat
      · have hfull' : (r.over bytes).recordsRead ≥
            (r.over bytes).limits.maxRecordsPerTrace.toNat := hfull
        rw [if_pos hfull, if_pos hfull']
        exact ensureRecordLimitOrEof_inStep hpresents h
      · have hfull' : ¬ (r.over bytes).recordsRead ≥
            (r.over bytes).limits.maxRecordsPerTrace.toNat := hfull
        rw [if_neg hfull, if_neg hfull']
        exact @readLoop_inStep _ Presents json convert allocator line _ hpresents _
          { r with scratch := r.scratch.clear } bytes false rfl h

theorem next_inStep (hpresents : Presentation Presents) (h : Presents r.inner bytes) :
    InStep Presents (r.next json convert allocator)
      ((r.over bytes).next json convert allocator) := by
  obtain ⟨hresult, bytes', hpresents', hafter⟩ :=
    @readRecord_inStep _ Presents json convert allocator r bytes _ hpresents h
  unfold JsonlReader.next
  show InStep Presents (if r.finished = true then _ else _) (if r.finished = true then _ else _)
  by_cases hfinished : r.finished = true
  · rw [if_pos hfinished, if_pos hfinished]
    exact ⟨rfl, bytes, h, rfl⟩
  rw [if_neg hfinished, if_neg hfinished]
  rcases hread : r.readRecord json convert allocator with ⟨error | _ | record, r'⟩
  all_goals
    rw [hread] at hresult hpresents' hafter
    have hflat : (r.over bytes).readRecord json convert allocator = (_, r'.over bytes') :=
      Prod.ext hresult.symm hafter
    rw [hflat]
    exact ⟨rfl, bytes', hpresents', rfl⟩

/-- The results of any number of calls stay the same. -/
theorem nexts_inStep (hpresents : Presentation Presents) : ∀ (n : Nat) {r : JsonlReader ρ}
    {bytes : List UInt8}, Presents r.inner bytes →
      InStep Presents (r.nexts json convert allocator n)
        ((r.over bytes).nexts json convert allocator n) := by
  intro n
  induction n with
  | zero => exact fun {r bytes} h => ⟨rfl, bytes, h, rfl⟩
  | succ n ih =>
      intro r bytes h
      obtain ⟨hitem, bytes', hpresents', hafter⟩ :=
        @next_inStep _ Presents json convert allocator r bytes _ hpresents h
      obtain ⟨hitems, hlast⟩ := ih hpresents'
      rw [← hafter] at hitems hlast
      exact ⟨congrArg₂ List.cons hitem hitems, hlast⟩

end InStep

/-! ### Bounds and fusing -/

namespace JsonlReader

variable {ρ : Type} {json : Reader} {convert : Json → Option Record} {allocator : ScratchAllocator}
  {r : JsonlReader ρ} {line : ℕ+} {pendingCr : Bool} {limits : Limits}

/-- The scratch buffer and the count of a reader are within its limits. -/
structure Bounded (limits : Limits) (r : JsonlReader ρ) : Prop where
  limits_eq : r.limits = limits
  scratch : r.scratch.bytes.length ≤ limits.maxLineBytes.toNat
  bytesRead : r.bytesRead ≤ limits.maxTraceBytes.toNat

theorem Bounded.decodeRecord (h : r.Bounded limits) :
    (r.decodeRecord json convert line).2.Bounded limits := by
  show (r.decodeScratch json convert line).2.Bounded limits
  unfold JsonlReader.decodeScratch
  cases decodeLine json convert r.scratch.bytes r.limits with
  | error error => exact h
  | ok record =>
      cases checkedAdd r.recordsRead 1 with
      | none => exact h
      | some recordsRead => exact ⟨h.limits_eq, h.scratch, h.bytesRead⟩

theorem Bounded.readEnd (h : r.Bounded limits) :
    (r.readEnd json convert allocator line pendingCr).2.Bounded limits := by
  have hscratch : ∀ {scratch : Scratch}, (if pendingCr = true then
      pushBounded allocator r.scratch 13 r.limits.maxLineBytes.toNat else .ok r.scratch) =
        .ok scratch → ({ r with scratch := scratch } : JsonlReader ρ).Bounded limits := by
    intro scratch hpush
    have hold := h.scratch
    by_cases hpending : pendingCr = true
    · rw [if_pos hpending] at hpush
      obtain ⟨hroom, hbytes⟩ := pushBounded_ok hpush
      refine ⟨h.limits_eq, ?_, h.bytesRead⟩
      show scratch.bytes.length ≤ _
      rw [hbytes, List.length_append, List.length_singleton]
      rw [h.limits_eq] at hroom
      omega
    · rw [if_neg hpending] at hpush
      rw [← Except.ok.inj hpush]
      exact ⟨h.limits_eq, hold, h.bytesRead⟩
  unfold JsonlReader.readEnd
  cases hpush : if pendingCr = true then
      pushBounded allocator r.scratch 13 r.limits.maxLineBytes.toNat else .ok r.scratch with
  | error error => exact h
  | ok scratch =>
      have hafter := hscratch hpush
      dsimp only
      by_cases hempty : scratch.bytes = []
      · rw [if_pos hempty]
        exact hafter
      · rw [if_neg hempty]
        exact hafter.decodeRecord

variable [BufRead ρ]

theorem Bounded.readLoop : ∀ (n : Nat) {r : JsonlReader ρ} {pendingCr : Bool},
    r.limits.maxTraceBytes.toNat - r.bytesRead = n → r.Bounded limits →
      (r.readLoop json convert allocator line pendingCr).2.Bounded limits := by
  intro n
  induction n using Nat.strong_induction_on with
  | _ n ih =>
      intro r pendingCr hn h
      rcases hfill : BufRead.fillBuf r.inner with ⟨kind | available, inner⟩
      · rw [readLoop_done (readStep_io hfill)]
        exact ⟨h.limits_eq, h.scratch, h.bytesRead⟩
      cases available with
      | nil =>
          have hinner : ({ r with inner := inner } : JsonlReader ρ).Bounded limits :=
            ⟨h.limits_eq, h.scratch, h.bytesRead⟩
          rw [readLoop_done (readStep_end hfill)]
          exact hinner.readEnd
      | cons byte rest =>
          have hstep := @readStep_chunk _ _ json convert allocator r line pendingCr _ _ _ hfill
          have hstart : LineState.Within r.limits ⟨r.scratch, pendingCr, r.bytesRead, 0⟩ := by
            rw [h.limits_eq]
            exact ⟨h.scratch, h.bytesRead⟩
          have hwithin := @LineState.Within.readChunk allocator _ line (byte :: rest) _ hstart
          rcases hchunk : LineState.readChunk allocator r.limits line
            ⟨r.scratch, pendingCr, r.bytesRead, 0⟩ (byte :: rest) with ⟨s, _ | _ | _ | _⟩
          all_goals
            rw [hchunk] at hwithin hstep
            have hafter : ∀ inner, ({ r with
                inner := inner, scratch := s.scratch, bytesRead := s.bytesRead } :
                  JsonlReader ρ).Bounded limits :=
              fun _ => ⟨h.limits_eq, h.limits_eq ▸ hwithin.1, h.limits_eq ▸ hwithin.2⟩
          · obtain ⟨-, hmore, hroom⟩ := readStep_again hstep
            rw [readLoop_again hstep]
            refine ih _ ?_ rfl (hafter _)
            have hmore : r.bytesRead < s.bytesRead := hmore
            show r.limits.maxTraceBytes.toNat - s.bytesRead < n
            omega
          · rw [readLoop_done hstep]
            exact (hafter _).decodeRecord
          · rw [readLoop_done hstep]
            exact hafter _
          · rw [readLoop_done hstep]
            exact hafter _

theorem Bounded.readRecord (h : r.Bounded limits) :
    (r.readRecord json convert allocator).2.Bounded limits := by
  unfold JsonlReader.readRecord
  cases nextLineNumber r.recordsRead with
  | error error => exact h
  | ok line =>
      dsimp only
      by_cases hfull : r.recordsRead ≥ r.limits.maxRecordsPerTrace.toNat
      · rw [if_pos hfull]
        unfold ensureRecordLimitOrEof
        rcases BufRead.fillBuf r.inner with ⟨kind | _ | _, inner⟩
        all_goals exact ⟨h.limits_eq, h.scratch, h.bytesRead⟩
      · rw [if_neg hfull]
        exact Bounded.readLoop _ rfl ⟨h.limits_eq, Nat.zero_le _, h.bytesRead⟩

theorem Bounded.next (h : r.Bounded limits) :
    (r.next json convert allocator).2.Bounded limits := by
  unfold JsonlReader.next
  by_cases hfinished : r.finished = true
  · rw [if_pos hfinished]
    exact h
  rw [if_neg hfinished]
  have hread := @Bounded.readRecord _ json convert allocator r limits _ h
  rcases hresult : r.readRecord json convert allocator with ⟨error | _ | record, r'⟩
  all_goals
    rw [hresult] at hread
    exact ⟨hread.limits_eq, hread.scratch, hread.bytesRead⟩

theorem Bounded.nexts : ∀ (n : Nat) {r : JsonlReader ρ}, r.Bounded limits →
    (r.nexts json convert allocator n).2.Bounded limits := by
  intro n
  induction n with
  | zero => exact fun {r} h => h
  | succ n ih => exact fun {r} h => ih h.next

/-- A finished reader returns nothing. -/
theorem nexts_finished (h : r.finished = true) : ∀ n,
    r.nexts json convert allocator n = (List.replicate n none, r) := by
  have hnext : r.next json convert allocator = (none, r) := by
    rw [JsonlReader.next, if_pos h]
  intro n
  induction n with
  | zero => rfl
  | succ n ih =>
      rw [JsonlReader.nexts, hnext]
      dsimp only
      rw [ih, List.replicate_succ]

/-- The first error and the end finish a reader. -/
theorem next_finishes (h : (r.next json convert allocator).1 = none ∨
    ∃ error, (r.next json convert allocator).1 = some (.error error)) :
    (r.next json convert allocator).2.finished = true := by
  unfold JsonlReader.next at h ⊢
  by_cases hfinished : r.finished = true
  · rw [if_pos hfinished]
    exact hfinished
  rw [if_neg hfinished] at h ⊢
  rcases hread : r.readRecord json convert allocator with ⟨error | _ | record, r'⟩
  · rfl
  · rfl
  · rw [hread] at h
    rcases h with h | ⟨error, h⟩
    · cases h
    · cases Option.some.inj h

end JsonlReader

end KvCrucible
