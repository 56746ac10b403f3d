/-
KvCrucible/RoundTrip.lean

Decoding what was encoded.

The line of a record is decoded to that record under the limits it was encoded
with: the plain text that was checked before and the canonical text that is
written have the same values, strings and depths, so that no budget can refuse
one and pass the other.  A file of such lines is read back as its records, with
their line numbers, however it is buffered.
-/
import KvCrucible.Encode
import KvCrucible.LineByLine

namespace KvCrucible

open Basis Basis.JsonText

/-! ### One line -/

/-- A text that is a value is not only white space. -/
theorem IsText.not_padding {text : List UInt8} {value : Syntax} (h : IsText text value) :
    ¬ text.all isPadding = true := by
  obtain ⟨bs, bs', hbefore, hvalue, -⟩ := h
  -- white space is followed by the first byte of the value
  have hhead : ∃ b ∈ bs, isPadding b = false := by
    cases hvalue with
    | null => exact ⟨_, List.mem_cons_self, rfl⟩
    | true => exact ⟨_, List.mem_cons_self, rfl⟩
    | false => exact ⟨_, List.mem_cons_self, rfl⟩
    | number literal =>
        have hdigit : ∃ b ∈ literal.integer, isDigit b = true := by
          obtain ⟨b, hb⟩ := List.exists_mem_of_ne_nil _ literal.canonical.ne_nil
          exact ⟨b, hb, literal.canonical.digit b hb⟩
        obtain ⟨b, hb, hdigit⟩ := hdigit
        refine ⟨b, ?_, ?_⟩
        · simp [NumberLiteral.bytes, hb]
        · rw [isPadding, Bool.or_eq_false_iff, beq_eq_false_iff_ne, beq_eq_false_iff_ne]
          constructor
          · rintro rfl
            cases hdigit
          · rintro rfl
            cases hdigit
    | string hquoted => exact ⟨34, hquoted.1 ▸ List.mem_cons_self, rfl⟩
    | emptyArray => exact ⟨_, List.mem_cons_self, rfl⟩
    | array => exact ⟨_, List.mem_cons_self, rfl⟩
    | emptyObject => exact ⟨_, List.mem_cons_self, rfl⟩
    | object => exact ⟨_, List.mem_cons_self, rfl⟩
  have hmem : ∀ {bs rest : List UInt8}, Blank bs rest → ∀ b ∈ rest, b ∈ bs := by
    intro bs rest h
    induction h with
    | nil => exact fun _ hb => hb
    | cons _ _ ih => exact fun b hb => List.mem_cons_of_mem _ (ih b hb)
  obtain ⟨b, hb, hpadding⟩ := hhead
  rw [List.all_eq_true]
  intro hall
  have htrue := hall b (hmem hbefore b hb)
  rw [hpadding] at htrue
  cases htrue

theorem validatedRecord_new_eq_ok {value : Record} {record : ValidatedRecord} {limits : Limits} :
    ValidatedRecord.new value limits = .ok record ↔
      record.asRecord = value ∧ value.validate limits = .ok () := by
  unfold ValidatedRecord.new
  split
  · rename_i hvalid
    constructor
    · intro h
      obtain rfl := Except.ok.inj h
      exact ⟨rfl, hvalid⟩
    · rintro ⟨rfl, -⟩
      rfl
  · rename_i herror
    refine iff_of_false (fun h => by cases h) fun h => ?_
    cases h.2.symm.trans herror

theorem splitPayload_eq_ok {input payload : List UInt8} :
    splitPayload input = .ok payload ↔
      withoutTerminator input = payload ∧ ¬ (10 ∈ payload ∨ 13 ∈ payload) ∧ payload ≠ [] := by
  simp only [splitPayload, bind_eq_ok, rejectIf_eq_ok, pure_eq_ok]
  constructor
  · rintro ⟨_, hframing, _, hnil, rfl⟩
    exact ⟨rfl, hframing, hnil⟩
  · rintro ⟨rfl, hframing, hnil⟩
    exact ⟨(), hframing, (), hnil, rfl⟩

/-- What a line and its record meet when the one is decoded to the other. -/
structure Decodes (reader : Reader) (convert : Json → Option Record) (limits : Limits)
    (payload : List UInt8) (record : Record) : Prop where
  depth : limits.maxDepth.toNat ≤ maxJsonDepth
  length : payload.length ≤ limits.maxLineBytes.toNat
  framing : ¬ (10 ∈ payload ∨ 13 ∈ payload)
  nonempty : payload ≠ []
  visible : ¬ payload.all isPadding = true
  utf8 : isUtf8 payload = true
  value : ∃ json, decodeValue reader payload limits = .ok json ∧ convert json = some record
  valid : record.validate limits = .ok ()

/-- When a line is decoded. -/
theorem decodeLine_eq_ok {reader : Reader} {convert : Json → Option Record} {input : List UInt8}
    {limits : Limits} {record : ValidatedRecord} :
    decodeLine reader convert input limits = .ok record ↔
      Decodes reader convert limits (withoutTerminator input) record.asRecord := by
  simp only [decodeLine, validateLimits, enforceLineLimit, bind_eq_ok, rejectIf_eq_ok,
    splitPayload_eq_ok, okOr_eq_ok, mapError_eq_ok, validatedRecord_new_eq_ok, payloadLength_eq]
  constructor
  · rintro ⟨_, hdepth, _, hlength, _, ⟨rfl, hframing, hnil⟩, _, hvisible, _, hutf8, json, hvalue,
      _, hconvert, rfl, hvalid⟩
    exact ⟨Nat.not_lt.mp hdepth, Nat.not_lt.mp hlength, hframing, hnil, hvisible, not_not.mp hutf8,
      ⟨json, hvalue, hconvert⟩, hvalid⟩
  · rintro ⟨hdepth, hlength, hframing, hnil, hvisible, hutf8, ⟨json, hvalue, hconvert⟩, hvalid⟩
    exact ⟨(), Nat.not_lt.mpr hdepth, (), Nat.not_lt.mpr hlength, _, ⟨rfl, hframing, hnil⟩, (),
      hvisible, (), not_not.mpr hutf8, json, hvalue, _, hconvert, rfl, hvalid⟩

/-- The line of a printed tree that is within the budgets and is that of a
valid record. -/
theorem decodeLine_printed {reader : Reader} {convert : Json → Option Record} {text : List UInt8}
    {tree : Json} {record : ValidatedRecord} {limits : Limits} (hprints : Prints reader text tree)
    (hprint : Printable tree) (hrecord : convert tree = some record.asRecord)
    (hdepth : limits.maxDepth.toNat ≤ maxJsonDepth)
    (hvalid : record.asRecord.validate limits = .ok ())
    (hfit : text.length ≤ limits.maxLineBytes.toNat) (hbudgets : WithinBudgets limits tree) :
    decodeLine reader convert (text ++ [10]) limits = .ok record := by
  obtain ⟨value, _, htext, -⟩ := hprints.read
  have hcr : endsCr text = false := by
    rw [← Bool.not_eq_true]
    intro hends
    obtain ⟨front, rfl⟩ := endsCr_iff.mp hends
    exact hprints.line.2 (List.mem_append_right _ List.mem_cons_self)
  have hpayload : withoutTerminator (text ++ [10]) = text :=
    (withoutTerminator_concat text).trans (withoutCr_of_not hcr)
  rw [decodeLine_eq_ok, hpayload]
  exact {
    depth := hdepth
    length := hfit
    framing := fun h => h.elim hprints.line.1 hprints.line.2
    nonempty := by
      rintro rfl
      exact IsText.not_padding htext rfl
    visible := IsText.not_padding htext
    utf8 := hprints.utf8
    value := ⟨tree, (hprints.decodeValue_eq_ok hprint hdepth).mpr ⟨hbudgets, rfl⟩, hrecord⟩
    valid := hvalid }

/-- What was encoded is decoded. -/
theorem decodeLine_encoded {serde : Serializers} {reader : Reader} {record : ValidatedRecord}
    {limits : Limits} {bytes : List UInt8} (hordered : record.asRecord.Ordered)
    (hserde : serde.Faithful reader record.asRecord.toJson)
    (h : encodeLine serde reader record limits = .ok bytes) :
    decodeLine reader fromValue bytes limits = .ok record := by
  obtain ⟨hdepth, hvalid, -, hbudgets, hfit, rfl⟩ := (encodeLine_eq_ok hordered hserde).mp h
  exact decodeLine_printed hserde.canonical_prints (Record.printable hvalid hordered)
    record.asRecord.read_toJson hdepth hvalid hfit hbudgets

/-! ### Whole files -/

/-- The records of a file with their line numbers. -/
def located : Nat → List ValidatedRecord → List (Except ReadError LocatedRecord)
  | _, [] => []
  | recordsRead, record :: rest =>
      .ok ⟨recordsRead.succPNat, record⟩ :: located (recordsRead + 1) rest

section Files

variable {serde : Serializers} {reader : Reader} {limits : Limits}
  {records : List ValidatedRecord} {file : List (List UInt8)}

/-- The lines of a file are the encoded records. -/
theorem lines_encoded (hordered : ∀ record ∈ records, record.asRecord.Ordered)
    (hserde : ∀ record ∈ records, serde.Faithful reader record.asRecord.toJson)
    (h : List.Forall₂ (fun record bytes => encodeLine serde reader record limits = .ok bytes)
      records file) : lines 10 file.flatten = file := by
  induction h with
  | nil => rfl
  | @cons record bytes records file hline _ ih =>
      obtain ⟨hrecord, hrecords⟩ := List.forall_mem_cons.mp hordered
      obtain ⟨hfirst, hrest⟩ := List.forall_mem_cons.mp hserde
      obtain ⟨-, -, -, -, -, rfl⟩ := (encodeLine_eq_ok hrecord hfirst).mp hline
      rw [List.flatten_cons, List.append_assoc]
      show lines 10 (_ ++ 10 :: file.flatten) = _
      rw [lines_terminated hfirst.canonical_prints.line.1, ih hrecords hrest]

/-- Decoding line by line gives the records back. -/
theorem itemsOf_encoded (hordered : ∀ record ∈ records, record.asRecord.Ordered)
    (hserde : ∀ record ∈ records, serde.Faithful reader record.asRecord.toJson)
    (h : List.Forall₂ (fun record bytes => encodeLine serde reader record limits = .ok bytes)
      records file) : ∀ recordsRead,
      itemsOf (fun line => decodeLine reader fromValue line limits) recordsRead file =
        located recordsRead records := by
  induction h with
  | nil => exact fun _ => rfl
  | @cons record bytes records file hline _ ih =>
      intro recordsRead
      obtain ⟨hrecord, hrecords⟩ := List.forall_mem_cons.mp hordered
      obtain ⟨hfirst, hrest⟩ := List.forall_mem_cons.mp hserde
      rw [itemsOf, decodeLine_encoded hrecord hfirst hline]
      show _ :: itemsOf _ (recordsRead + 1) file = _
      rw [ih hrecords hrest, located]

end Files

/-- A line that was encoded is one line, is decoded to its record, and no other
record has it. -/
theorem line_round_trip {serde : Serializers} {reader : Reader} {limits : Limits}
    (record : ValidatedRecord) (bytes : List UInt8) (hordered : record.asRecord.Ordered)
    (hserde : serde.Faithful reader record.asRecord.toJson)
    (h : encodeLine serde reader record limits = .ok bytes) :
    (∃ text, bytes = text ++ [10] ∧ 10 ∉ text ∧ 13 ∉ text ∧
      text.length ≤ limits.maxLineBytes.toNat) ∧
    decodeLine reader fromValue bytes limits = .ok record ∧
    (∀ decoded, decodeLine reader fromValue bytes limits = .ok decoded →
      encodeLine serde reader decoded limits = .ok bytes) ∧
    ∀ record' : ValidatedRecord, record'.asRecord.Ordered →
      serde.Faithful reader record'.asRecord.toJson →
        encodeLine serde reader record' limits = .ok bytes → record' = record := by
  have hdecode := decodeLine_encoded hordered hserde h
  obtain ⟨-, -, -, -, hfit, hbytes⟩ := (encodeLine_eq_ok hordered hserde).mp h
  refine ⟨⟨_, hbytes, hserde.canonical_prints.line.1, hserde.canonical_prints.line.2, hfit⟩,
    hdecode, fun decoded hdecoded => ?_, fun record' hordered' hserde' h' => ?_⟩
  · obtain rfl := Except.ok.inj (hdecode.symm.trans hdecoded)
    exact h
  · exact Except.ok.inj ((decodeLine_encoded hordered' hserde' h').symm.trans hdecode)

/-- A file of encoded records is read back, however it is buffered. -/
theorem file_round_trip {serde : Serializers} {reader : Reader} {limits : Limits}
    {allocator : ScratchAllocator} {ρ : Type} [BufRead ρ] {Presents : ρ → List UInt8 → Prop}
    (hpresentation : Presentation Presents)
    (hgrants : ∀ capacity growth, allocator capacity growth = true)
    (records : List ValidatedRecord) (file : List (List UInt8))
    (hordered : ∀ record ∈ records, record.asRecord.Ordered)
    (hserde : ∀ record ∈ records, serde.Faithful reader record.asRecord.toJson)
    (h : List.Forall₂ (fun record bytes => encodeLine serde reader record limits = .ok bytes)
      records file)
    (hbytes : file.flatten.length ≤ limits.maxTraceBytes.toNat)
    (hrecords : records.length ≤ limits.maxRecordsPerTrace.toNat) (src : ρ)
    (hsrc : Presents src file.flatten) (n : Nat) :
    ((JsonlReader.new src limits).nexts reader fromValue allocator n).1 =
      yields (located 0 records) n := by
  have hlines := lines_encoded hordered hserde h
  have hlength := h.length_eq
  have hpayloads : ∀ line ∈ lines 10 file.flatten,
      (withoutTerminator line).length ≤ limits.maxLineBytes.toNat := by
    rw [hlines]
    intro line hline
    obtain ⟨record, hrecord, hencoded⟩ := exists_of_forall₂ h.flip hline
    exact (decodeLine_eq_ok.mp
      (decodeLine_encoded (hordered record hrecord) (hserde record hrecord) hencoded)).length
  have hread := @nexts_eq_itemsOf reader fromValue allocator hgrants limits file.flatten n
    (JsonlReader.new file.flatten limits) rfl rfl rfl (Nat.zero_le _) (fun _ => Nat.zero_le _)
    ((Nat.zero_add _).trans_le hbytes) (by
      rw [hlines, ← hlength]
      exact (Nat.zero_add _).trans_le hrecords) hpayloads
  rw [(nexts_inStep hpresentation n hsrc).1]
  refine hread.trans ?_
  rw [hlines]
  exact congrArg (yields · n) (itemsOf_encoded hordered hserde h 0)

namespace Sample

/-- The line of the schedule is decoded to the schedule. -/
theorem line_round_trip_schedule :
    encodeLine serde (twoTexts declared inOrder) validSchedule Limits.default =
      .ok (printed inOrder ++ [10]) ∧
    decodeLine (twoTexts declared inOrder) fromValue (printed inOrder ++ [10]) Limits.default =
      .ok validSchedule :=
  ⟨encodeLine_schedule, (line_round_trip validSchedule _ schedule_ordered serde_faithful
    encodeLine_schedule).2.1⟩

theorem pieces_nonempty :
    ∀ piece ∈ [printed inOrder, 10 :: printed inOrder, [10]], piece ≠ [] := by
  simp only [List.forall_mem_cons]
  exact ⟨List.cons_ne_nil _ _, List.cons_ne_nil _ _, List.cons_ne_nil _ _, List.forall_mem_nil _⟩

/-- Two lines with the schedule, in three pieces. -/
def twoLines : Chunks := ⟨[printed inOrder, 10 :: printed inOrder, [10]], pieces_nonempty⟩

/-- The file is read back. -/
theorem file_round_trip_schedules :
    ((JsonlReader.new twoLines Limits.default).nexts (twoTexts declared inOrder) fromValue
      (fun _ _ => true) 3).1 =
        [some (.ok ⟨1, validSchedule⟩), some (.ok ⟨2, validSchedule⟩), none] := by
  have hfile : twoLines.pieces.flatten =
      [printed inOrder ++ [10], printed inOrder ++ [10]].flatten := by simp [twoLines]
  have hordered : ∀ record ∈ [validSchedule, validSchedule], record.asRecord.Ordered := by
    simp only [List.forall_mem_cons]
    exact ⟨schedule_ordered, schedule_ordered, List.forall_mem_nil _⟩
  have hserde : ∀ record ∈ [validSchedule, validSchedule],
      serde.Faithful (twoTexts declared inOrder) record.asRecord.toJson := by
    simp only [List.forall_mem_cons]
    exact ⟨serde_faithful, serde_faithful, List.forall_mem_nil _⟩
  refine (file_round_trip presentation_chunks (fun _ _ => rfl) [validSchedule, validSchedule]
    [printed inOrder ++ [10], printed inOrder ++ [10]] hordered hserde
    (.cons encodeLine_schedule (.cons encodeLine_schedule .nil)) ?_ (by decide) _ hfile 3).trans
    rfl
  decide +kernel

end Sample

end KvCrucible
