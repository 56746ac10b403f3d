/-
KvCrucible/Budgets.lean

Structural budgets and duplicate keys, on texts.

`Syntax.reading` is how the parser presents a text of integers: it decodes
strings, distinguishes unsigned from negative numbers, and gives up on a
container below `room` others.  The ceiling on depth is lower than that room,
so whether the visitors succeed does not depend on it.

The counters saturate, but a text is no longer than a machine word counts,
and neither are its values and strings (`Derives.size`).
-/
import KvCrucible.Basis.JsonValue
import KvCrucible.Decoder

namespace KvCrucible

open Basis Basis.JsonText

/-! ### What the parser presents of a text -/

/-- How the parser presents a literal without fraction and exponent.  The
scan has refused all others. -/
def readingOfLiteral (n : NumberLiteral) : Reading :=
  if n.negative then
    if n.magnitude = 0 then .f64 true
    else if n.magnitude ≤ 2 ^ 63 then .i64 (Int64.ofInt n.value)
    else .f64 false
  else if n.magnitude < 2 ^ 64 then .u64 (UInt64.ofNat n.magnitude)
  else .f64 false

section Readings

variable (decode : List UInt8 → Option String)

/-- How the members of an object end. -/
def closingOf : List (List UInt8 × Syntax) → ObjectEnd
  | [] => .closed
  | member :: members => (decode member.1).elim .brokenKey fun _ => closingOf members

mutual

/-- How the parser presents a value inside a container that has `room` for
more containers. -/
def readingOf (room : Nat) : Syntax → Reading
  | .null => .null
  | .bool value => .bool value
  | .number literal => readingOfLiteral literal
  | .string body => (decode body).elim .broken .string
  | .array items => if room = 0 then .broken else .array (readingsOfItems (room - 1) items) true
  | .object members =>
      if room = 0 then .broken
      else .object (readingsOfMembers (room - 1) members) (closingOf decode members)

/-- The items of an array. -/
def readingsOfItems (room : Nat) : List Syntax → List Reading
  | [] => []
  | item :: items => readingOf room item :: readingsOfItems room items

/-- The members of an object, up to a key that cannot be decoded. -/
def readingsOfMembers (room : Nat) : List (List UInt8 × Syntax) → List (String × Reading)
  | [] => []
  | member :: members => (decode member.1).elim [] fun key =>
      (key, readingOf room member.2) :: readingsOfMembers room members

end

end Readings

/-- The recursion limit of the parser: containers one inside the other. -/
def readerRoom : Nat := 127

/-- What the code relies on, for a text of integers: the parser presents the
value the text stands for, and finds nothing after it. -/
structure Reader.Faithful (reader : Reader) (text : List UInt8) (value : Syntax) : Prop where
  value : (reader.read text).value = readingOf reader.decode readerRoom value
  trailing : (reader.read text).trailing = none
  decode_le : ∀ body s, reader.decode body = some s → len s ≤ body.length

/-! ### The tree of a reading -/

theorem tree_readingOfLiteral {n : NumberLiteral} (h : IsSafe n) :
    (readingOfLiteral n).tree = some (.number n.value) := by
  have hmagnitude : n.magnitude ≤ 9007199254740991 := h.2
  unfold readingOfLiteral
  cases hsign : n.negative with
  | false =>
      have hvalue : n.value = n.magnitude := by
        rw [NumberLiteral.value, hsign]
        rfl
      have hnat : (UInt64.ofNat n.magnitude).toNat = n.magnitude := by
        rw [UInt64.toNat_ofNat']
        exact Nat.mod_eq_of_lt (by omega)
      rw [if_neg Bool.false_ne_true, if_pos (by omega), Reading.tree, hnat, if_pos h.2, hvalue]
  | true =>
      have hvalue : n.value = -(n.magnitude : Int) := by
        rw [NumberLiteral.value, hsign]
        rfl
      rw [if_pos rfl]
      by_cases hzero : n.magnitude = 0
      · rw [if_pos hzero, Reading.tree, if_pos rfl, hvalue, hzero]
        rfl
      · have hint : (Int64.ofInt n.value).toInt = n.value := by
          apply Int64.toInt_ofInt_of_le
          · rw [hvalue]
            omega
          · rw [hvalue]
            omega
        have habs : n.value.natAbs = n.magnitude := by
          rw [hvalue, Int.natAbs_neg, Int.natAbs_natCast]
        rw [if_neg hzero, if_pos (by omega), Reading.tree, hint, habs, if_pos h.2]

section Trees

variable {decode : List UInt8 → Option String} {room depth : Nat}

/-- A tree at `depth` has a node below `room` containers. -/
def Deep (depth room : Nat) (tree : Json) : Prop := ∃ node ∈ tree.nodes depth, depth + room ≤ node.2

/-- The parser presents a tree as it is, unless it is too deep to be read. -/
def Presents (decode : List UInt8 → Option String) (value : Syntax) : Prop :=
  ∀ {room depth : Nat} {tree : Json}, (∀ n ∈ value.literals, IsSafe n) →
    value.decoded decode = some tree →
      (readingOf decode room value).tree = some tree ∨
        (readingOf decode room value).tree = none ∧ Deep depth room tree

theorem presents_items {items : List Syntax} (hitems : ∀ item ∈ items, Presents decode item) :
    ∀ {trees : List Json}, (∀ n ∈ (Syntax.array items).literals, IsSafe n) →
      Syntax.decodedItems decode items = some trees →
        treesOfItems (readingsOfItems decode room items) = some trees ∨
          treesOfItems (readingsOfItems decode room items) = none ∧
            ∃ tree ∈ trees, Deep depth room tree := by
  induction items with
  | nil =>
      intro trees _ htrees
      rw [Syntax.decodedItems] at htrees
      rw [readingsOfItems, treesOfItems]
      exact .inl htrees
  | cons item items ih =>
      intro trees hsafe htrees
      obtain ⟨tree, rest, htree, hrest, rfl⟩ := Syntax.decodedItems_cons.mp htrees
      obtain ⟨hitem, hitems⟩ := List.forall_mem_cons.mp hitems
      rw [literals_array_cons, List.forall_mem_append] at hsafe
      rw [readingsOfItems, treesOfItems]
      rcases hitem hsafe.1 htree with hread | ⟨hread, hdeep⟩
      · rw [hread, Option.bind_some]
        rcases ih hitems hsafe.2 hrest with hread' | ⟨hread', deep, hmem, hdeep⟩
        · rw [hread']
          exact .inl rfl
        · rw [hread']
          exact .inr ⟨rfl, deep, List.mem_cons_of_mem _ hmem, hdeep⟩
      · rw [hread]
        exact .inr ⟨rfl, tree, List.mem_cons_self, hdeep⟩

theorem presents_members {members : List (List UInt8 × Syntax)}
    (hmembers : ∀ member ∈ members, Presents decode member.2) :
    ∀ {trees : List (String × Json)}, (∀ n ∈ (Syntax.object members).literals, IsSafe n) →
      Syntax.decodedMembers decode members = some trees →
        closingOf decode members = .closed ∧
        (treesOfMembers (readingsOfMembers decode room members) = some trees ∨
          treesOfMembers (readingsOfMembers decode room members) = none ∧
            ∃ member ∈ trees, Deep depth room member.2) := by
  induction members with
  | nil =>
      intro trees _ htrees
      rw [Syntax.decodedMembers] at htrees
      rw [closingOf, readingsOfMembers, treesOfMembers]
      exact ⟨rfl, .inl htrees⟩
  | cons member members ih =>
      intro trees hsafe htrees
      obtain ⟨key, tree, rest, hkey, htree, hrest, rfl⟩ := Syntax.decodedMembers_cons.mp htrees
      obtain ⟨hmember, hmembers⟩ := List.forall_mem_cons.mp hmembers
      rw [literals_object_cons, List.forall_mem_append] at hsafe
      obtain ⟨hclosing, hread'⟩ := ih hmembers hsafe.2 hrest
      rw [closingOf, readingsOfMembers, hkey, Option.elim_some, Option.elim_some, treesOfMembers]
      refine ⟨hclosing, ?_⟩
      rcases hmember hsafe.1 htree with hread | ⟨hread, hdeep⟩
      · rw [hread, Option.bind_some]
        rcases hread' with hread' | ⟨hread', deep, hmem, hdeep⟩
        · rw [hread']
          exact .inl rfl
        · rw [hread']
          exact .inr ⟨rfl, deep, List.mem_cons_of_mem _ hmem, hdeep⟩
      · rw [hread]
        exact .inr ⟨rfl, (key, tree), List.mem_cons_self, hdeep⟩

/-- Items that are too deep make their array too deep. -/
theorem deep_array {trees : List Json}
    (h : ∃ tree ∈ trees, Deep (depth + 1) (room - 1) tree) : Deep depth room (.array trees) := by
  obtain ⟨tree, hmem, node, hnode, hdeep⟩ := h
  refine ⟨node, ?_, by omega⟩
  rw [Json.nodes, Json.nodesOfItems_eq]
  exact List.mem_cons_of_mem _ (List.mem_flatMap.mpr ⟨tree, hmem, hnode⟩)

/-- Members that are too deep make their object too deep. -/
theorem deep_object {trees : List (String × Json)}
    (h : ∃ member ∈ trees, Deep (depth + 1) (room - 1) member.2) :
    Deep depth room (.object trees) := by
  obtain ⟨member, hmem, node, hnode, hdeep⟩ := h
  refine ⟨node, ?_, by omega⟩
  rw [Json.nodes, Json.nodesOfMembers_eq]
  exact List.mem_cons_of_mem _ (List.mem_flatMap.mpr ⟨member, hmem, hnode⟩)

theorem presents (value : Syntax) : Presents decode value := by
  induction value using Syntax.inductionOn with
  | null => exact fun _ htree => .inl htree
  | bool b => exact fun _ htree => .inl htree
  | number n =>
      intro room depth tree hsafe htree
      have hn : IsSafe n := hsafe n (List.mem_singleton_self n)
      rw [Syntax.decoded, if_pos hn.1] at htree
      rw [readingOf, tree_readingOfLiteral hn]
      exact .inl htree
  | string body =>
      intro room depth tree _ htree
      rw [Syntax.decoded] at htree
      obtain ⟨s, hs, rfl⟩ := Option.map_eq_some_iff.mp htree
      rw [readingOf, hs]
      exact .inl rfl
  | array items ih =>
      intro room depth tree hsafe htree
      rw [Syntax.decoded] at htree
      obtain ⟨trees, htrees, rfl⟩ := Option.map_eq_some_iff.mp htree
      rw [readingOf]
      by_cases hroom : room = 0
      · rw [if_pos hroom]
        exact .inr ⟨rfl, _, List.mem_cons_self, by rw [hroom]; exact Nat.le_refl _⟩
      · rw [if_neg hroom, Reading.tree, if_pos rfl]
        rcases presents_items ih hsafe htrees with hread | ⟨hread, hdeep⟩
        · rw [hread]
          exact .inl rfl
        · rw [hread]
          exact .inr ⟨rfl, deep_array hdeep⟩
  | object members ih =>
      intro room depth tree hsafe htree
      rw [Syntax.decoded] at htree
      obtain ⟨trees, htrees, rfl⟩ := Option.map_eq_some_iff.mp htree
      rw [readingOf]
      by_cases hroom : room = 0
      · rw [if_pos hroom]
        exact .inr ⟨rfl, _, List.mem_cons_self, by rw [hroom]; exact Nat.le_refl _⟩
      · obtain ⟨hclosing, hread⟩ := presents_members ih hsafe htrees
        rw [if_neg hroom, Reading.tree, if_pos hclosing]
        rcases hread with hread | ⟨hread, hdeep⟩
        · rw [hread]
          exact .inl rfl
        · rw [hread]
          exact .inr ⟨rfl, deep_object hdeep⟩

end Trees

/-! ### Texts -/

section Texts

variable {reader : Reader} {text : List UInt8} {value : Syntax} {tree json : Json} {limits : Limits}

theorem within_new : Within limits DecodeState.new := ⟨Nat.zero_le _, Nat.zero_le _⟩

/-- A run on a text of integers, with the counters as they are. -/
theorem decodeValue_eq_ok (htext : IsText text value) (hread : reader.Faithful text value)
    (hdecoded : value.decoded reader.decode = some tree) (hsafe : ∀ n ∈ value.literals, IsSafe n)
    (hdepth : limits.maxDepth.toNat ≤ maxJsonDepth) :
    decodeValue reader text limits = .ok json ↔ json = tree.sorted ∧ TreeFits limits 1 tree ∧
      Within limits (DecodeState.new.add tree.valueCount tree.stringBytes) := by
  have hmax : limits.maxDepth.toNat < 2 ^ 64 - 1 :=
    Nat.lt_of_le_of_lt hdepth (by decide)
  have hscan : classifyNumbers text = .ok () := by
    rw [classifyNumbers_text htext]
    exact checkLiterals_ok.mpr hsafe
  have hrun : decodeValue reader text limits = .ok json ↔ ∃ s,
      valueSeed limits 1 .new (reader.read text).value = .ok (json, s) := by
    unfold decodeValue
    rw [hscan]
    simp only [bind_eq_ok, rejectIf_eq_ok, pure_eq_ok, hread.trailing, mapError_eq_ok]
    constructor
    · rintro ⟨_, -, ⟨json', s⟩, hseed, _, -, rfl⟩
      exact ⟨s, hseed⟩
    · rintro ⟨s, hseed⟩
      exact ⟨(), trivial, (json, s), hseed, (), fun h => h rfl, rfl⟩
  rw [hrun]
  simp only [visits hmax _ within_new, hread.value]
  -- A tree that the parser gives up on is too deep for the ceiling as well.
  rcases @presents reader.decode value readerRoom 1 tree hsafe hdecoded with htree | ⟨hnone, hdeep⟩
  · rw [htree]
    constructor
    · rintro ⟨s, _, ⟨⟩, rfl, rfl, hfits, hwithin⟩
      exact ⟨rfl, hfits, hwithin⟩
    · rintro ⟨rfl, hfits, hwithin⟩
      exact ⟨_, tree, rfl, rfl, rfl, hfits, hwithin⟩
  · rw [hnone]
    obtain ⟨node, hnode, hlow⟩ := hdeep
    constructor
    · rintro ⟨s, tree', htree', -⟩
      cases htree'
    · rintro ⟨-, hfits, -⟩
      have hle := (hfits node hnode).depth
      have hroom : 1 + readerRoom = 128 := rfl
      have hceiling : maxJsonDepth = 64 := rfl
      omega

theorem saturatingAdd_zero_left {n : Nat} (h : n < 2 ^ 64) : saturatingAdd 0 n = n := by
  unfold saturatingAdd
  omega

/-- On every text of safe integers, under every depth that passes the stack
check, decoding succeeds exactly when no object repeats a key and every budget
of the tree holds.  The value is then the tree, with the members of objects in
key order. -/
theorem structural_budgets_exact (htext : IsText text value) (hread : reader.Faithful text value)
    (hdecoded : value.decoded reader.decode = some tree) (hsafe : ∀ n ∈ value.literals, IsSafe n)
    (hdepth : limits.maxDepth.toNat ≤ maxJsonDepth) (hword : text.length < 2 ^ 64) :
    ((∃ json, decodeValue reader text limits = .ok json) ↔
      tree.DistinctKeys ∧
      (∀ node ∈ tree.nodes 1, node.2 ≤ limits.maxDepth.toNat) ∧
      tree.valueCount ≤ limits.maxValues.toNat ∧
      (∀ node ∈ tree.nodes 1, ∀ s ∈ node.1.texts, len s ≤ limits.maxStringBytes.toNat) ∧
      tree.stringBytes ≤ limits.maxTotalStringBytes.toNat ∧
      (∀ node ∈ tree.nodes 1, node.1.itemCount ≤ limits.maxArrayItems.toNat) ∧
      (∀ node ∈ tree.nodes 1, node.1.keys.length ≤ limits.maxObjectMembers.toNat)) ∧
    ∀ json, decodeValue reader text limits = .ok json → json = tree.sorted := by
  have hrun : ∀ json, decodeValue reader text limits = .ok json ↔ json = tree.sorted ∧
      TreeFits limits 1 tree ∧
        Within limits (DecodeState.new.add tree.valueCount tree.stringBytes) :=
    fun json => decodeValue_eq_ok htext hread hdecoded hsafe hdepth
  obtain ⟨bs, bs', hbefore, hvalue, hafter⟩ := htext
  obtain ⟨hvalues, hbytes⟩ := hvalue.size hread.decode_le hdecoded
  have hlength := hbefore.length_le
  rw [Nonterminal.containers] at hvalues
  have hcount : DecodeState.new.add tree.valueCount tree.stringBytes =
      ⟨tree.valueCount, tree.stringBytes⟩ := by
    rw [DecodeState.add, DecodeState.new, saturatingAdd_zero_left (by omega),
      saturatingAdd_zero_left (by omega)]
  refine ⟨?_, fun json h => ((hrun json).mp h).1⟩
  simp only [hrun, hcount, exists_eq_left]
  constructor
  · rintro ⟨hfits, hwithin⟩
    exact ⟨fun node hnode => (hfits node hnode).keys, fun node hnode => (hfits node hnode).depth,
      hwithin.values, fun node hnode => (hfits node hnode).text, hwithin.strings,
      fun node hnode => (hfits node hnode).items, fun node hnode => (hfits node hnode).members⟩
  · rintro ⟨hkeys, hdepths, hvalues, htexts, hbytes, hitems, hmembers⟩
    exact ⟨fun node hnode => ⟨hdepths node hnode, htexts node hnode, hitems node hnode,
      hmembers node hnode, hkeys node hnode⟩, hvalues, hbytes⟩

end Texts

namespace Sample

/-- The literal `-0`. -/
def negativeZero : NumberLiteral where
  negative := true
  integer := [48]
  fraction := none
  exponent := none
  canonical := ⟨by simp [isDigit], List.cons_ne_nil _ _, by simp⟩

/-- The text `{"a":[-0]}`. -/
def nestedText : List UInt8 := [123, 34, 97, 34, 58, 91, 45, 48, 93, 125]

/-- What the text says. -/
def nestedValue : Syntax := .object [([97], .array [.number negativeZero])]

theorem nestedText_isText : IsText nestedText nestedValue := by
  have hkey : Quoted [34, 97, 34, 58, 91, 45, 48, 93, 125] [58, 91, 45, 48, 93, 125] [97] :=
    ⟨rfl, .plain (by decide) (by decide) (by decide) .nil⟩
  have hnumber : Derives .value [45, 48, 93, 125] [93, 125] (.number negativeZero) :=
    .number negativeZero
  exact ⟨nestedText, [], .nil, .object (.lastMember .nil hkey .nil .nil
    (.array (.lastElement .nil hnumber .nil)) .nil), .nil⟩

/-- The key of the text. -/
def nestedKey : String := ofAscii [97]

theorem len_nestedKey : len nestedKey = 1 := by
  rw [len, ← length_utf8, nestedKey, utf8_ofAscii (by simp), List.length_singleton]

/-- A parser of strings without escapes and of one text. -/
def reader : Reader where
  decode body := if ∀ b ∈ body, b < 128 ∧ b ≠ 92 then some (ofAscii body) else none
  read _ := ⟨.object [(nestedKey, .array [.f64 true] true)] .closed, (1, 10), none⟩

theorem decode_key : reader.decode [97] = some nestedKey := by
  have hplain : ∀ b ∈ [(97 : UInt8)], b < 128 ∧ b ≠ 92 := by simp
  simp only [reader, nestedKey]
  rw [if_pos hplain]

theorem reader_faithful : reader.Faithful nestedText nestedValue where
  value := by
    rw [nestedValue, readingOf, if_neg (by decide), readingsOfMembers, closingOf, decode_key]
    rfl
  trailing := rfl
  decode_le := by
    intro body s h
    simp only [reader, Option.ite_none_right_eq_some, Option.some.injEq] at h
    obtain ⟨hplain, rfl⟩ := h
    rw [len, ← length_utf8, utf8_ofAscii fun b hb => (hplain b hb).1]

/-- The tree of the text. -/
def nestedTree : Json := .object [(nestedKey, .array [.number 0])]

theorem nestedTree_nodes : nestedTree.nodes 1 =
    [(nestedTree, 1), (.array [.number 0], 2), (.number 0, 3)] := rfl

end Sample

/-- The law at an object that holds an array. -/
theorem structural_budgets_exact_nested :
    (∃ json, decodeValue Sample.reader Sample.nestedText Limits.default = .ok json) ∧
    ∀ json, decodeValue Sample.reader Sample.nestedText Limits.default = .ok json →
      json = Sample.nestedTree := by
  have hdecoded : Sample.nestedValue.decoded Sample.reader.decode = some Sample.nestedTree := by
    rw [Sample.nestedValue, Syntax.decoded, Syntax.decodedMembers, Sample.decode_key]
    rfl
  have hsafe : ∀ n ∈ Sample.nestedValue.literals, IsSafe n :=
    List.forall_mem_singleton.mpr ⟨rfl, by decide⟩
  have hbytes : Sample.nestedTree.stringBytes = 1 := by
    rw [Sample.nestedTree, Json.stringBytes_object]
    exact Sample.len_nestedKey
  obtain ⟨hiff, htree⟩ := @structural_budgets_exact Sample.reader Sample.nestedText
    Sample.nestedValue Sample.nestedTree Limits.default Sample.nestedText_isText
    Sample.reader_faithful hdecoded hsafe Limits.default_depth (by decide)
  refine ⟨hiff.mpr ?_, htree⟩
  rw [Json.DistinctKeys, Sample.nestedTree_nodes, hbytes]
  simp only [List.forall_mem_cons]
  refine ⟨?_, by decide, by decide, ?_, by decide, by decide, by decide⟩
  · simp [Sample.nestedTree, Json.keys]
  · simp only [Sample.nestedTree, Json.texts, List.map_cons, List.map_nil, List.forall_mem_cons,
      Sample.len_nestedKey]
    exact ⟨⟨by decide, by simp⟩, by simp⟩

end KvCrucible
