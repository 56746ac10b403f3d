/-
KvCrucible/Encode.lean

Encoding one record (`encode_line`, `preflight_record` and `CappedWriter` in
`codec.rs`).

Two serializers are not part of the repository: the plain one, whose text is
only read back by the decoder before anything is written, and the canonical
one, whose text becomes the line.  Both print the tree of the record, in texts
that list the members of an object in different orders.  The budgets of the
decoder do not depend on that order, which is why a line that was encoded is
also decoded.
-/
import KvCrucible.Basis.JsonPrint
import KvCrucible.Refusals
import KvCrucible.Schema

namespace KvCrucible

open Basis Basis.JsonText

/-! ### Bounded output -/

/-- `CappedWriter`. -/
structure CappedWriter where
  bytes : List UInt8
  maximum : Nat
  exceededAt : Option Nat

namespace CappedWriter

/-- `CappedWriter::new`. -/
def new (maximum : Nat) : CappedWriter where
  bytes := []
  maximum := maximum
  exceededAt := none

/-- `Write::write`: `false` is the `io::Error`, after which the serializer
stops. -/
def write (w : CappedWriter) (buffer : List UInt8) : Bool × CappedWriter :=
  let observed := saturatingAdd w.bytes.length buffer.length
  if observed > w.maximum then (false, { w with exceededAt := some observed })
  else (true, { w with bytes := w.bytes ++ buffer })

/-- The serializer's writes, up to and including the first rejected one. -/
def writeAll (w : CappedWriter) : List (List UInt8) → Bool × CappedWriter
  | [] => (true, w)
  | buffer :: rest =>
      match w.write buffer with
      | (true, w) => writeAll w rest
      | (false, w) => (false, w)

end CappedWriter

/-- The two serializers at the tree of a record: `serde_json::to_writer`, which
lists members in the order of declaration, and `serde_json_canonicalizer`. -/
structure Serializers where
  plain : Canonicalizer
  canonical : Canonicalizer

/-- The bytes a serializer leaves in a capped writer. -/
def cappedText (serializer : Canonicalizer) (tree : Json) (maximum : Nat) :
    Except CodecError (List UInt8) :=
  let (serialized, writer) := (CappedWriter.new maximum).writeAll (serializer.writes tree)
  match writer.exceededAt with
  | some observed => .error (.resourceLimit .lineBytes maximum observed)
  | none =>
      if serialized && serializer.accepts tree then .ok writer.bytes else .error .canonicalization

/-- `preflight_record`. -/
def preflightRecord (serde : Serializers) (reader : Reader) (record : ValidatedRecord)
    (limits : Limits) : Except CodecError Unit := do
  let text ← cappedText serde.plain record.asRecord.toJson limits.maxLineBytes.toNat
  rejectIf (¬ isUtf8 text) .canonicalization
  let _ ← decodeValue reader text limits
  return ()

/-- `encode_line`. -/
def encodeLine (serde : Serializers) (reader : Reader) (record : ValidatedRecord)
    (limits : Limits) : Except CodecError (List UInt8) := do
  validateLimits limits
  (record.asRecord.validate limits).mapError .validation
  preflightRecord serde reader record limits
  let output ← cappedText serde.canonical record.asRecord.toJson limits.maxLineBytes.toNat
  return output ++ [10]

/-! ### What the writer keeps -/

namespace CappedWriter

variable {w : CappedWriter} {buffer : List UInt8} {buffers : List (List UInt8)}

theorem write_of_le (h : w.bytes.length + buffer.length ≤ w.maximum) :
    w.write buffer = (true, { w with bytes := w.bytes ++ buffer }) := by
  have hle : saturatingAdd w.bytes.length buffer.length ≤ w.maximum :=
    (Nat.min_le_left _ _).trans h
  exact if_neg (Nat.not_lt.mpr hle)

theorem write_of_gt (hmaximum : w.maximum < 2 ^ 64 - 1)
    (h : w.maximum < w.bytes.length + buffer.length) : ∃ observed, w.maximum < observed ∧
      observed ≤ w.bytes.length + buffer.length ∧
      w.write buffer = (false, { w with exceededAt := some observed }) := by
  have hgt : w.maximum < saturatingAdd w.bytes.length buffer.length :=
    Nat.lt_min.mpr ⟨h, hmaximum⟩
  exact ⟨_, hgt, Nat.min_le_left _ _, if_pos hgt⟩

/-- What fits is kept, however it is split. -/
theorem writeAll_of_le : ∀ {w : CappedWriter}, w.bytes.length + buffers.flatten.length ≤ w.maximum →
    w.writeAll buffers = (true, { w with bytes := w.bytes ++ buffers.flatten }) := by
  induction buffers with
  | nil =>
      intro w _
      rw [writeAll, List.flatten_nil, List.append_nil]
  | cons buffer rest ih =>
      intro w h
      rw [List.flatten_cons, List.length_append] at h
      rw [writeAll, write_of_le (by omega)]
      show writeAll { w with bytes := w.bytes ++ buffer } rest = _
      have hrest : (w.bytes ++ buffer).length + rest.flatten.length ≤ w.maximum := by
        rw [List.length_append]
        omega
      rw [ih hrest, List.flatten_cons, List.append_assoc]

/-- What does not fit is noticed at the first buffer that is too long. -/
theorem writeAll_of_gt : ∀ {w : CappedWriter}, w.maximum < 2 ^ 64 - 1 →
    w.bytes.length ≤ w.maximum → w.maximum < w.bytes.length + buffers.flatten.length →
      ∃ w' observed, w.writeAll buffers = (false, w') ∧ w'.exceededAt = some observed ∧
        w.maximum < observed ∧ observed ≤ w.bytes.length + buffers.flatten.length := by
  induction buffers with
  | nil =>
      intro w _ hfit h
      exact absurd h (Nat.not_lt.mpr hfit)
  | cons buffer rest ih =>
      intro w hmaximum hfit h
      rw [List.flatten_cons, List.length_append] at h ⊢
      by_cases hbuffer : w.bytes.length + buffer.length ≤ w.maximum
      · have hlength : (w.bytes ++ buffer).length = w.bytes.length + buffer.length :=
          List.length_append
        obtain ⟨w', observed, hrun, hexceeded, hover, hle⟩ :=
          @ih { w with bytes := w.bytes ++ buffer } hmaximum (hlength.trans_le hbuffer) (by
            show w.maximum < (w.bytes ++ buffer).length + rest.flatten.length
            omega)
        dsimp only at hle
        rw [writeAll, write_of_le hbuffer]
        exact ⟨w', observed, hrun, hexceeded, hover, by omega⟩
      · obtain ⟨observed, hover, hle, hwrite⟩ := write_of_gt hmaximum (Nat.not_le.mp hbuffer)
        rw [writeAll, hwrite]
        exact ⟨_, observed, rfl, rfl, hover, by omega⟩

end CappedWriter

section CappedText

variable {serializer : Canonicalizer} {tree : Json} {maximum : UInt64}

/-- A text that is too long is refused with a length it reaches. -/
theorem cappedText_of_gt (hword : (serializer.text tree).length < 2 ^ 64)
    (h : maximum.toNat < (serializer.text tree).length) :
    ∃ observed, cappedText serializer tree maximum.toNat =
        .error (.resourceLimit .lineBytes maximum.toNat observed) ∧
      maximum.toNat < observed ∧ observed ≤ (serializer.text tree).length := by
  have hmaximum : maximum.toNat < 2 ^ 64 - 1 := by omega
  obtain ⟨w, observed, hrun, hexceeded, hover, hle⟩ := @CappedWriter.writeAll_of_gt
    (serializer.writes tree) (.new maximum.toNat) hmaximum (Nat.zero_le _)
    (h.trans_eq (Nat.zero_add _).symm)
  refine ⟨observed, ?_, hover, hle.trans_eq (Nat.zero_add _)⟩
  unfold cappedText
  rw [hrun]
  dsimp only
  rw [hexceeded]

/-- A text that a machine word can count passes exactly when it fits. -/
theorem cappedText_eq_ok {text : List UInt8} (hword : (serializer.text tree).length < 2 ^ 64) :
    cappedText serializer tree maximum.toNat = .ok text ↔
      (serializer.text tree).length ≤ maximum.toNat ∧ serializer.accepts tree = true ∧
        text = serializer.text tree := by
  by_cases hfit : (serializer.text tree).length ≤ maximum.toNat
  · have hrun := @CappedWriter.writeAll_of_le (serializer.writes tree) (.new maximum.toNat)
      ((Nat.zero_add _).trans_le hfit)
    unfold cappedText
    rw [hrun]
    show (if (true && serializer.accepts tree) = true then Except.ok (serializer.text tree)
      else Except.error CodecError.canonicalization) = Except.ok text ↔ _
    rw [Bool.true_and]
    by_cases haccepts : serializer.accepts tree = true
    · rw [if_pos haccepts, Except.ok.injEq]
      exact ⟨fun h => ⟨hfit, haccepts, h.symm⟩, fun h => h.2.2.symm⟩
    · rw [if_neg haccepts]
      exact iff_of_false (fun h => by cases h) fun h => haccepts h.2.1
  · obtain ⟨observed, herror, -⟩ := cappedText_of_gt hword (Nat.not_le.mp hfit)
    rw [herror]
    exact iff_of_false (fun h => by cases h) fun h => hfit h.1

/-- An accepted tree is only refused for the length of its text. -/
theorem cappedText_eq_error {error : CodecError} (hword : (serializer.text tree).length < 2 ^ 64)
    (haccepts : serializer.accepts tree = true)
    (h : cappedText serializer tree maximum.toNat = .error error) :
    ∃ observed, error = .resourceLimit .lineBytes maximum.toNat observed ∧
      maximum.toNat < observed ∧ observed ≤ (serializer.text tree).length := by
  by_cases hfit : (serializer.text tree).length ≤ maximum.toNat
  · rw [(cappedText_eq_ok hword).mpr ⟨hfit, haccepts, rfl⟩] at h
    cases h
  · obtain ⟨observed, herror, hover, hle⟩ := cappedText_of_gt hword (Nat.not_le.mp hfit)
    exact ⟨observed, Except.error.inj (h.symm.trans herror), hover, hle⟩

end CappedText

/-! ### Budgets do not depend on the order of members -/

/-- Every structural budget of a tree. -/
structure WithinBudgets (limits : Limits) (tree : Json) : Prop where
  depth : ∀ node ∈ tree.nodes 1, node.2 ≤ limits.maxDepth.toNat
  values : tree.valueCount ≤ limits.maxValues.toNat
  text : ∀ node ∈ tree.nodes 1, ∀ s ∈ node.1.texts, len s ≤ limits.maxStringBytes.toNat
  strings : tree.stringBytes ≤ limits.maxTotalStringBytes.toNat
  items : ∀ node ∈ tree.nodes 1, node.1.itemCount ≤ limits.maxArrayItems.toNat
  members : ∀ node ∈ tree.nodes 1, node.1.keys.length ≤ limits.maxObjectMembers.toNat

theorem nodeFits_sorted {limits : Limits} {node : Json × Nat} (hkeys : node.1.keys.Nodup) :
    NodeFits limits (node.1.sorted, node.2) ↔ NodeFits limits node := by
  have hperm := Json.keys_sorted hkeys
  have htexts := Json.texts_sorted hkeys
  constructor
  · intro h
    exact
      { depth := h.depth
        text := fun s hs => h.text s (htexts.symm.subset hs)
        items := (Json.itemCount_sorted node.1).symm.trans_le h.items
        members := hperm.length_eq.symm.trans_le h.members
        keys := hkeys }
  · intro h
    exact
      { depth := h.depth
        text := fun s hs => h.text s (htexts.subset hs)
        items := (Json.itemCount_sorted node.1).trans_le h.items
        members := hperm.length_eq.trans_le h.members
        keys := hperm.nodup_iff.mpr hkeys }

theorem treeFits_sorted {limits : Limits} {tree : Json} (hdistinct : tree.DistinctKeys) :
    TreeFits limits 1 tree.sorted ↔ TreeFits limits 1 tree := by
  unfold TreeFits
  have hperm := @Json.nodes_sorted tree 1 hdistinct
  have hall : (∀ node ∈ tree.sorted.nodes 1, NodeFits limits node) ↔
      ∀ node ∈ (tree.nodes 1).map fun node => (node.1.sorted, node.2), NodeFits limits node :=
    ⟨fun h node hnode => h node (hperm.symm.subset hnode), fun h node hnode =>
      h node (hperm.subset hnode)⟩
  rw [hall, List.forall_mem_map]
  exact forall₂_congr fun node hnode => nodeFits_sorted (hdistinct node hnode)

/-- The budgets of a tree with distinct keys, one node at a time. -/
theorem treeFits_iff {limits : Limits} {tree : Json} (hdistinct : tree.DistinctKeys) :
    TreeFits limits 1 tree ∧ tree.valueCount ≤ limits.maxValues.toNat ∧
      tree.stringBytes ≤ limits.maxTotalStringBytes.toNat ↔ WithinBudgets limits tree := by
  constructor
  · rintro ⟨hfits, hvalues, hstrings⟩
    exact ⟨fun node hnode => (hfits node hnode).depth, hvalues, fun node hnode =>
      (hfits node hnode).text, hstrings, fun node hnode => (hfits node hnode).items,
      fun node hnode => (hfits node hnode).members⟩
  · intro h
    exact ⟨fun node hnode => ⟨h.depth node hnode, h.text node hnode, h.items node hnode,
      h.members node hnode, hdistinct node hnode⟩, h.values, h.strings⟩

/-- The order of members does not change what a tree reaches. -/
theorem reaches_sorted {tree : Json} {observed : Nat} {resource : CodecResource}
    (hdistinct : tree.DistinctKeys) (h : Reaches 0 0 (tree.nodes 1) observed resource) :
    Reaches 0 0 (tree.sorted.nodes 1) observed resource := by
  have hmem : ∀ node ∈ tree.nodes 1, (node.1.sorted, node.2) ∈ tree.sorted.nodes 1 :=
    fun node hnode => (@Json.nodes_sorted tree 1 hdistinct).symm.subset (List.mem_map_of_mem hnode)
  cases resource with
  | lineBytes => exact h
  | jsonDepth =>
      obtain ⟨node, hnode, hdepth⟩ := h
      exact ⟨_, hmem node hnode, hdepth⟩
  | jsonValues => exact h.trans_eq (congrArg (0 + ·) (Json.valueCount_sorted hdistinct).symm)
  | stringBytes =>
      obtain ⟨node, hnode, text, htext, hlen⟩ := h
      exact ⟨_, hmem node hnode, text, (Json.texts_sorted (hdistinct node hnode)).symm.subset htext,
        hlen⟩
  | totalStringBytes => exact h.trans_eq (congrArg (0 + ·) (Json.stringBytes_sorted hdistinct).symm)
  | arrayItems =>
      obtain ⟨node, hnode, hcount⟩ := h
      exact ⟨_, hmem node hnode, hcount.trans_eq (Json.itemCount_sorted node.1).symm⟩
  | objectMembers =>
      obtain ⟨node, hnode, hcount⟩ := h
      exact ⟨_, hmem node hnode,
        hcount.trans_eq (Json.keys_sorted (hdistinct node hnode)).length_eq.symm⟩

/-! ### Printed texts -/

/-- What the code relies on: the text of a serializer is one line of UTF-8, no
longer than a machine word counts, and the parser reads the printed tree in it,
with the members of each object in some order. -/
structure Prints (reader : Reader) (text : List UInt8) (tree : Json) : Prop where
  utf8 : isUtf8 text = true
  line : 10 ∉ text ∧ 13 ∉ text
  word : text.length < 2 ^ 64
  read : ∃ value written, IsText text value ∧ reader.Faithful text value ∧
    value.decoded reader.decode = some written ∧ written.DistinctKeys ∧ written.sorted = tree

/-- The literals of a value that decodes to safe integers are safe. -/
theorem literals_safe {decode : List UInt8 → Option String} (value : Syntax) :
    ∀ {tree : Json}, value.decoded decode = some tree →
      tree.Every (fun node => ∀ n, node = .number n → n.natAbs ≤ maxSafeJsonInteger) →
        ∀ literal ∈ value.literals, IsSafe literal := by
  induction value using Syntax.inductionOn with
  | null => exact fun _ _ => List.forall_mem_nil _
  | bool b => exact fun _ _ => List.forall_mem_nil _
  | string body => exact fun _ _ => List.forall_mem_nil _
  | number n =>
      intro tree htree hsafe
      refine List.forall_mem_singleton.mpr ?_
      rw [Syntax.decoded] at htree
      by_cases hinteger : n.isInteger = true
      · rw [if_pos hinteger] at htree
        obtain rfl := Option.some.inj htree
        have hle := (Json.IsScalar.number n.value).every.mp hsafe n.value rfl
        refine ⟨hinteger, ?_⟩
        rw [NumberLiteral.value] at hle
        cases hsign : n.negative with
        | true =>
            rw [hsign, if_pos rfl, Int.natAbs_neg, Int.natAbs_natCast] at hle
            exact hle
        | false =>
            rw [hsign, if_neg Bool.false_ne_true, Int.natAbs_natCast] at hle
            exact hle
      · rw [if_neg hinteger] at htree
        cases htree
  | array items ih =>
      intro tree htree hsafe
      rw [Syntax.decoded] at htree
      obtain ⟨trees, htrees, rfl⟩ := Option.map_eq_some_iff.mp htree
      have hitems := (Json.every_array.mp hsafe).2
      clear htree hsafe
      induction items generalizing trees with
      | nil => exact List.forall_mem_nil _
      | cons item items ihitems =>
          obtain ⟨hitem, hrest⟩ := List.forall_mem_cons.mp ih
          obtain ⟨tree, rest, htree, hdecoded, rfl⟩ := Syntax.decodedItems_cons.mp htrees
          obtain ⟨hsafe, hsaferest⟩ := List.forall_mem_cons.mp hitems
          rw [literals_array_cons]
          exact List.forall_mem_append.mpr ⟨hitem htree hsafe, ihitems hrest rest hdecoded hsaferest⟩
  | object members ih =>
      intro tree htree hsafe
      rw [Syntax.decoded] at htree
      obtain ⟨trees, htrees, rfl⟩ := Option.map_eq_some_iff.mp htree
      have hmembers := (Json.every_object.mp hsafe).2
      clear htree hsafe
      induction members generalizing trees with
      | nil => exact List.forall_mem_nil _
      | cons member members ihmembers =>
          obtain ⟨hmember, hrest⟩ := List.forall_mem_cons.mp ih
          obtain ⟨key, tree, rest, -, htree, hdecoded, rfl⟩ := Syntax.decodedMembers_cons.mp htrees
          obtain ⟨hsafe, hsaferest⟩ := List.forall_mem_cons.mp hmembers
          obtain ⟨name, value⟩ := member
          rw [literals_object_cons]
          exact List.forall_mem_append.mpr
            ⟨hmember htree hsafe, ihmembers hrest rest hdecoded hsaferest⟩

/-- The integers of a value that is safe in key order. -/
theorem every_of_sorted {written : Json} (hdistinct : written.DistinctKeys)
    (h : Printable written.sorted) :
    written.Every fun node => ∀ n, node = .number n → n.natAbs ≤ maxSafeJsonInteger := by
  intro node hnode n hn
  have hmem : (node.1.sorted, node.2) ∈ written.sorted.nodes 1 :=
    (@Json.nodes_sorted written 1 hdistinct).symm.subset (List.mem_map_of_mem hnode)
  apply (h _ hmem).safe
  rw [hn]
  rfl

/-- The decoder accepts a printed text exactly when its tree is within all
budgets. -/
theorem Prints.decodeValue_eq_ok {reader : Reader} {text : List UInt8} {tree json : Json}
    {limits : Limits} (h : Prints reader text tree) (hprint : Printable tree)
    (hdepth : limits.maxDepth.toNat ≤ maxJsonDepth) :
    decodeValue reader text limits = .ok json ↔ WithinBudgets limits tree ∧ json = tree := by
  obtain ⟨value, written, htext, hread, hdecoded, hdistinct, rfl⟩ := h.read
  have hsafe := literals_safe value hdecoded (every_of_sorted hdistinct hprint)
  have hsorted : written.sorted.DistinctKeys := fun node hnode =>
    ((hprint node hnode).keys.imp ne_of_lt)
  -- The counters are those of the tree: a text is not shorter than its values.
  have hcount : DecodeState.new.add written.valueCount written.stringBytes =
      ⟨written.valueCount, written.stringBytes⟩ := by
    obtain ⟨bs, bs', hbefore, hvalue, hafter⟩ := htext
    obtain ⟨hvalues, hbytes⟩ := hvalue.size hread.decode_le hdecoded
    have hlength := hbefore.length_le
    have hword := h.word
    rw [Nonterminal.containers] at hvalues
    rw [DecodeState.add, DecodeState.new, saturatingAdd_zero_left (by omega),
      saturatingAdd_zero_left (by omega)]
  rw [KvCrucible.decodeValue_eq_ok htext hread hdecoded hsafe hdepth, hcount,
    ← treeFits_iff hsorted, treeFits_sorted hdistinct, Json.valueCount_sorted hdistinct,
    Json.stringBytes_sorted hdistinct]
  constructor
  · rintro ⟨hjson, hfits, hwithin⟩
    exact ⟨⟨hfits, hwithin.values, hwithin.strings⟩, hjson⟩
  · rintro ⟨⟨hfits, hvalues, hstrings⟩, hjson⟩
    exact ⟨hjson, hfits, hvalues, hstrings⟩

/-- The decoder refuses a printed text for a budget of its tree. -/
theorem Prints.decodeValue_eq_error {reader : Reader} {text : List UInt8} {tree : Json}
    {limits : Limits} {error : CodecError} (h : Prints reader text tree) (hprint : Printable tree)
    (hdepth : limits.maxDepth.toNat ≤ maxJsonDepth)
    (herror : decodeValue reader text limits = .error error) :
    ∃ resource observed, error = .resourceLimit resource (ceiling limits resource) observed ∧
      ceiling limits resource < observed ∧ Reaches 0 0 (tree.nodes 1) observed resource := by
  obtain ⟨value, written, htext, hread, hdecoded, hdistinct, rfl⟩ := h.read
  have hsafe := literals_safe value hdecoded (every_of_sorted hdistinct hprint)
  obtain ⟨failure, rfl, hrefused⟩ :=
    KvCrucible.decodeValue_eq_error htext hread hdecoded hsafe hdepth h.word herror
  cases failure with
  | duplicateKey =>
      obtain ⟨node, hnode, hkeys⟩ := hrefused
      exact absurd (hdistinct node hnode) hkeys
  | nonIntegerNumber => exact False.elim hrefused
  | unsafeInteger => exact False.elim hrefused
  | resourceLimit resource maximum observed =>
      obtain ⟨rfl, hover, hreaches⟩ := hrefused
      exact ⟨resource, observed, rfl, hover, reaches_sorted hdistinct hreaches⟩

/-! ### What encoding produces -/

/-- What the code relies on at the tree of a record: both serializers accept
it, and print it. -/
structure Serializers.Faithful (serde : Serializers) (reader : Reader) (tree : Json) : Prop where
  plain : serde.plain.accepts tree = true
  canonical : serde.canonical.accepts tree = true
  plain_prints : Prints reader (serde.plain.text tree) tree
  canonical_prints : Prints reader (serde.canonical.text tree) tree

/-- A record is encoded when it is valid and both texts are within the
budgets; the line is the canonical text. -/
theorem encodeLine_eq_ok {serde : Serializers} {reader : Reader} {record : ValidatedRecord}
    {limits : Limits} {bytes : List UInt8} (hordered : record.asRecord.Ordered)
    (hserde : serde.Faithful reader record.asRecord.toJson) :
    encodeLine serde reader record limits = .ok bytes ↔
      limits.maxDepth.toNat ≤ maxJsonDepth ∧ record.asRecord.validate limits = .ok () ∧
        (serde.plain.text record.asRecord.toJson).length ≤ limits.maxLineBytes.toNat ∧
        WithinBudgets limits record.asRecord.toJson ∧
        (serde.canonical.text record.asRecord.toJson).length ≤ limits.maxLineBytes.toNat ∧
        bytes = serde.canonical.text record.asRecord.toJson ++ [10] := by
  unfold encodeLine preflightRecord
  simp only [bind_eq_ok, pure_eq_ok, mapError_eq_ok, rejectIf_eq_ok, validateLimits,
    cappedText_eq_ok hserde.plain_prints.word, cappedText_eq_ok hserde.canonical_prints.word]
  constructor
  · rintro ⟨⟨⟩, hdepth, ⟨⟩, hvalid, ⟨⟩, ⟨_, ⟨hplain, -, rfl⟩, ⟨⟩, -, json, hvalue, -⟩, _,
      ⟨hcanonical, -, rfl⟩, rfl⟩
    have hdepth := Nat.not_lt.mp hdepth
    have hprint := Record.printable hvalid hordered
    obtain ⟨hbudgets, -⟩ := (hserde.plain_prints.decodeValue_eq_ok hprint hdepth).mp hvalue
    exact ⟨hdepth, hvalid, hplain, hbudgets, hcanonical, rfl⟩
  · rintro ⟨hdepth, hvalid, hplain, hbudgets, hcanonical, rfl⟩
    have hprint := Record.printable hvalid hordered
    have hvalue := (hserde.plain_prints.decodeValue_eq_ok hprint hdepth).mpr ⟨hbudgets, rfl⟩
    exact ⟨(), Nat.not_lt.mpr hdepth, (), hvalid, (), ⟨_, ⟨hplain, hserde.plain, rfl⟩, (),
      not_not.mpr hserde.plain_prints.utf8, _, hvalue, trivial⟩, _,
      ⟨hcanonical, hserde.canonical, rfl⟩, rfl⟩

/-- Why a record is not encoded. -/
theorem encodeLine_eq_error {serde : Serializers} {reader : Reader} {record : ValidatedRecord}
    {limits : Limits} {error : CodecError} (hordered : record.asRecord.Ordered)
    (hserde : serde.Faithful reader record.asRecord.toJson)
    (h : encodeLine serde reader record limits = .error error) :
    maxJsonDepth < limits.maxDepth.toNat ∧ error = .invalidLimits maxJsonDepth ∨
      (∃ failure, record.asRecord.validate limits = .error failure ∧ error = .validation failure) ∨
      ∃ resource observed, error = .resourceLimit resource (ceiling limits resource) observed ∧
        ceiling limits resource < observed ∧
        (resource = .lineBytes ∧
            (observed ≤ (serde.plain.text record.asRecord.toJson).length ∨
              observed ≤ (serde.canonical.text record.asRecord.toJson).length) ∨
          Reaches 0 0 (record.asRecord.toJson.nodes 1) observed resource) := by
  rcases bind_eq_error h with hlimits | ⟨_, hlimits, h⟩
  · obtain ⟨hdepth, rfl⟩ := rejectIf_eq_error.mp hlimits
    exact .inl ⟨hdepth, rfl⟩
  have hdepth := Nat.not_lt.mp (rejectIf_eq_ok.mp hlimits)
  rcases bind_eq_error h with hvalid | ⟨_, hvalid, h⟩
  · obtain ⟨failure, hfailure, rfl⟩ := mapError_eq_error.mp hvalid
    exact .inr (.inl ⟨failure, hfailure, rfl⟩)
  have hprint := Record.printable (mapError_eq_ok.mp hvalid) hordered
  -- What is left are the two texts, and the budgets in between.
  refine .inr (.inr ?_)
  rcases bind_eq_error h with hpreflight | ⟨_, -, h⟩
  · rcases bind_eq_error hpreflight with htext | ⟨text, htext, hpreflight⟩
    · obtain ⟨observed, rfl, hover, hle⟩ :=
        cappedText_eq_error hserde.plain_prints.word hserde.plain htext
      exact ⟨.lineBytes, observed, rfl, hover, .inl ⟨rfl, .inl hle⟩⟩
    obtain ⟨-, -, rfl⟩ := (cappedText_eq_ok hserde.plain_prints.word).mp htext
    rcases bind_eq_error hpreflight with hutf8 | ⟨_, -, hpreflight⟩
    · exact absurd hserde.plain_prints.utf8 (rejectIf_eq_error.mp hutf8).1
    rcases bind_eq_error hpreflight with hvalue | ⟨_, -, hpreflight⟩
    · obtain ⟨resource, observed, rfl, hover, hreaches⟩ :=
        hserde.plain_prints.decodeValue_eq_error hprint hdepth hvalue
      exact ⟨resource, observed, rfl, hover, .inr hreaches⟩
    · cases hpreflight
  rcases bind_eq_error h with htext | ⟨_, -, h⟩
  · obtain ⟨observed, rfl, hover, hle⟩ :=
      cappedText_eq_error hserde.canonical_prints.word hserde.canonical htext
    exact ⟨.lineBytes, observed, rfl, hover, .inl ⟨rfl, .inr hle⟩⟩
  · cases h

/-- A valid record is encoded under every limits that leave room for its two
texts and for its tree, and the line is then the canonical text.  It is refused
for excessive limits, for a failure of validation, or for a ceiling that one of
the texts or the tree exceeds, which is the one that is reported. -/
theorem encode_line_exact {serde : Serializers} {reader : Reader} (record : ValidatedRecord)
    (limits : Limits) (hordered : record.asRecord.Ordered)
    (hserde : serde.Faithful reader record.asRecord.toJson) :
    (∀ bytes, encodeLine serde reader record limits = .ok bytes ↔
      limits.maxDepth.toNat ≤ maxJsonDepth ∧ record.asRecord.validate limits = .ok () ∧
        (serde.plain.text record.asRecord.toJson).length ≤ limits.maxLineBytes.toNat ∧
        WithinBudgets limits record.asRecord.toJson ∧
        (serde.canonical.text record.asRecord.toJson).length ≤ limits.maxLineBytes.toNat ∧
        bytes = serde.canonical.text record.asRecord.toJson ++ [10]) ∧
    ∀ error, encodeLine serde reader record limits = .error error →
      maxJsonDepth < limits.maxDepth.toNat ∧ error = .invalidLimits maxJsonDepth ∨
        (∃ failure, record.asRecord.validate limits = .error failure ∧
          error = .validation failure) ∨
        ∃ resource observed, error = .resourceLimit resource (ceiling limits resource) observed ∧
          ceiling limits resource < observed ∧
          (resource = .lineBytes ∧
              (observed ≤ (serde.plain.text record.asRecord.toJson).length ∨
                observed ≤ (serde.canonical.text record.asRecord.toJson).length) ∨
            Reaches 0 0 (record.asRecord.toJson.nodes 1) observed resource) :=
  ⟨fun _ => encodeLine_eq_ok hordered hserde, fun _ => encodeLine_eq_error hordered hserde⟩

namespace Sample

theorem decode_plain (s : String) (h : PlainText s) : reader.decode (utf8 s) = some s := by
  have hplain : ∀ b ∈ utf8 s, b < 128 ∧ b ≠ 92 := fun b hb => ⟨(h b hb).2.1, (h b hb).2.2.2⟩
  have hself : ofAscii (utf8 s) = s := by
    apply utf8_inj.mp
    rw [utf8_ofAscii fun b hb => (hplain b hb).1]
  simp only [reader]
  rw [if_pos hplain, hself]

/-- A parser that reads two texts. -/
def twoTexts (first second : Json) : Reader where
  decode := reader.decode
  read text := ⟨readingOf reader.decode readerRoom
    (written (if text = printed first then first else second)), (1, 1), none⟩

theorem decode_le {body : List UInt8} {s : String} (h : reader.decode body = some s) :
    len s ≤ body.length := reader_faithful.decode_le body s h

theorem twoTexts_prints {first second tree : Json} {text : List UInt8}
    (hread : (if text = printed first then first else second) = tree) (htext : text = printed tree)
    (hplain : PlainTree tree) (hdistinct : tree.DistinctKeys) (hutf8 : isUtf8 text = true)
    (hline : 10 ∉ text ∧ 13 ∉ text) (hword : text.length < 2 ^ 64) :
    Prints (twoTexts first second) text tree.sorted where
  utf8 := hutf8
  line := hline
  word := hword
  read := by
    refine ⟨written tree, tree, ⟨text, [], .nil, ?_, .nil⟩, ⟨?_, rfl, fun _ _ => decode_le⟩,
      decoded_written decode_plain tree hplain, hdistinct, rfl⟩
    · have h := derives_printed tree hplain []
      rw [List.append_nil, ← htext] at h
      exact h
    · show readingOf reader.decode readerRoom
        (written (if text = printed first then first else second)) = _
      rw [hread]
      rfl

/-- The tree of the schedule, its members in the order of declaration. -/
def declared : Json := .object [("kind", .string "fault_schedule"),
  ("schedule_id", .string "select-second"), ("actions", .array [.object [
    ("action", .string "drop"), ("target", .object [("envelope_id", .string "first"),
      ("occurrence", .number 0)])]]), ("extensions", .object [])]

/-- The tree of the schedule, its members in key order. -/
def inOrder : Json := (Record.faultSchedule schedule).toJson

/-- Serializers of the schedule. -/
def serde : Serializers where
  plain := ⟨fun _ => [printed declared], fun _ => true⟩
  canonical := ⟨fun tree => [printed tree], fun _ => true⟩

theorem serde_faithful : serde.Faithful (twoTexts declared inOrder) inOrder where
  plain := rfl
  canonical := rfl
  plain_prints := by
    have hsorted : declared.sorted = inOrder := rfl
    have htext : serde.plain.text inOrder = printed declared := by simp [serde, Canonicalizer.text]
    rw [← hsorted, hsorted, htext]
    refine twoTexts_prints (if_pos rfl) rfl ?_ ?_ ?_ ?_ ?_
    · unfold PlainTree Json.Every
      decide +kernel
    · unfold Json.DistinctKeys
      decide +kernel
    · decide +kernel
    · decide +kernel
    · decide +kernel
  canonical_prints := by
    have hsorted : inOrder.sorted = inOrder := rfl
    have htext : serde.canonical.text inOrder = printed inOrder := by
      simp [serde, Canonicalizer.text]
    have hother : ¬ printed inOrder = printed declared := by decide +kernel
    rw [htext]
    refine hsorted ▸ twoTexts_prints (if_neg hother) rfl ?_ ?_ ?_ ?_ ?_
    · unfold PlainTree Json.Every
      decide +kernel
    · unfold Json.DistinctKeys
      decide +kernel
    · decide +kernel
    · decide +kernel
    · decide +kernel

theorem schedule_valid : (Record.faultSchedule schedule).validate Limits.default = .ok () := by
  decide +kernel

theorem schedule_validated : ∃ limits, (Record.faultSchedule schedule).validate limits = .ok () :=
  ⟨Limits.default, schedule_valid⟩

/-- The schedule as a validated record. -/
def validSchedule : ValidatedRecord := ⟨.faultSchedule schedule, schedule_validated⟩

theorem schedule_ordered : (Record.faultSchedule schedule).Ordered where
  extensions := Json.every_object.mpr ⟨List.Pairwise.nil, List.forall_mem_nil _⟩
  mutations := List.forall_mem_nil _

/-- The schedule is encoded. -/
theorem encodeLine_schedule : encodeLine serde (twoTexts declared inOrder) validSchedule
    Limits.default = .ok (printed inOrder ++ [10]) := by
  have htext : serde.canonical.text inOrder = printed inOrder := by simp [serde, Canonicalizer.text]
  have hplain : serde.plain.text inOrder = printed declared := by simp [serde, Canonicalizer.text]
  refine (encodeLine_eq_ok schedule_ordered serde_faithful).mpr
    ⟨by decide, schedule_valid, ?_, ?_, ?_, ?_⟩
  · show (serde.plain.text inOrder).length ≤ _
    rw [hplain]
    decide +kernel
  · show WithinBudgets _ inOrder
    constructor <;> decide +kernel
  · show (serde.canonical.text inOrder).length ≤ _
    rw [htext]
    decide +kernel
  · exact congrArg (· ++ [10]) htext.symm

/-- The law at a schedule, which is encoded. -/
theorem encode_line_exact_schedule : encodeLine serde (twoTexts declared inOrder) validSchedule
    Limits.default = .ok (serde.canonical.text inOrder ++ [10]) := by
  obtain ⟨hiff, -⟩ :=
    encode_line_exact validSchedule Limits.default schedule_ordered serde_faithful
  obtain ⟨hdepth, hvalid, hplain, hbudgets, hcanonical, -⟩ := (hiff _).mp encodeLine_schedule
  exact (hiff _).mpr ⟨hdepth, hvalid, hplain, hbudgets, hcanonical, rfl⟩

end Sample

end KvCrucible
