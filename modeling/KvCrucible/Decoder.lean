/-
KvCrucible/Decoder.lean

The strict decoder of one JSON text (`decode_value` in `codec.rs`).

A third-party parser drives the seeds and visitors of the source.  `Reading`
is what it presents to a visitor: the tokens of a value in document order, up
to the place where the text stops being JSON, if there is one.  The functions
below are the visitors, with the mutable counters passed along.  A policy
failure is recorded once and ends the run, so it is the error of the model;
the parser's own errors are `DecodeError.reader`.

`visits` says what a successful run means, without a condition on the
reading: the reading is a whole tree, every node of it fits, and the counters
have counted its nodes and the bytes of its strings.
-/
import KvCrucible.Basis.JsonTree
import KvCrucible.Scanner

namespace KvCrucible

open Basis Basis.JsonText

/-! ### What the parser presents -/

/-- How the members of an object end: with the closing bracket, with an error
before the next key, in the next key, or right after it. -/
inductive ObjectEnd where
  | closed
  | broken
  | brokenKey
  | missingColon (key : String)
  deriving DecidableEq

/-- What the parser presents to a visitor.  A number without fraction and
exponent is a `u64` or an `i64` if it fits one; every other number and
negative zero are `f64`. -/
inductive Reading where
  | null
  | bool (value : Bool)
  | u64 (value : UInt64)
  | i64 (value : Int64)
  | f64 (negativeZero : Bool)
  | string (value : String)
  | array (items : List Reading) (closed : Bool)
  | object (members : List (String × Reading)) (closing : ObjectEnd)
  | broken

/-- A text as the parser reads it: its value, where an error in the value
stands, and where an error after the value stands. -/
structure Document where
  value : Reading
  position : Nat × Nat
  trailing : Option (Nat × Nat)

/-- The third-party parser: it reads texts, and it decodes what stands between
the quotation marks of a string. -/
structure Reader where
  read : List UInt8 → Document
  decode : List UInt8 → Option String

/-! ### Failures -/

/-- `DecodeFailure`. -/
inductive DecodeFailure where
  | duplicateKey
  | nonIntegerNumber
  | unsafeInteger
  | resourceLimit (resource : CodecResource) (maximum observed : Nat)
  deriving DecidableEq

/-- `DecodeFailure::into_error`. -/
def DecodeFailure.intoError : DecodeFailure → CodecError
  | .duplicateKey => .duplicateKey
  | .nonIntegerNumber => .nonIntegerNumber
  | .unsafeInteger => .unsafeInteger
  | .resourceLimit resource maximum observed => .resourceLimit resource maximum observed

/-- How a run of the visitors ends without a value. -/
inductive DecodeError where
  | policy (failure : DecodeFailure)
  | reader
  deriving DecidableEq

/-- `syntax_error`, at a position of the parser. -/
def syntaxError (position : Nat × Nat) : CodecError := .jsonSyntax position.1 position.2

/-- The error of `decode_value` for a failed run. -/
def DecodeError.intoError (position : Nat × Nat) : DecodeError → CodecError
  | .policy failure => failure.intoError
  | .reader => syntaxError position

/-! ### Counters -/

/-- `DecodeState`, without its recorded failure. -/
structure DecodeState where
  values : Nat
  totalStringBytes : Nat

/-- `DecodeState::new`. -/
def DecodeState.new : DecodeState := ⟨0, 0⟩

variable (limits : Limits)

/-- `enter_value`. -/
def enterValue (s : DecodeState) (depth : Nat) : Except DecodeError DecodeState := do
  rejectIf (depth > limits.maxDepth.toNat)
    (.policy (.resourceLimit .jsonDepth limits.maxDepth.toNat depth))
  let observed := saturatingAdd s.values 1
  rejectIf (observed > limits.maxValues.toNat)
    (.policy (.resourceLimit .jsonValues limits.maxValues.toNat observed))
  return { s with values := observed }

/-- `account_string`. -/
def accountString (s : DecodeState) (value : String) : Except DecodeError DecodeState := do
  rejectIf (len value > limits.maxStringBytes.toNat)
    (.policy (.resourceLimit .stringBytes limits.maxStringBytes.toNat (len value)))
  let observed := saturatingAdd s.totalStringBytes (len value)
  rejectIf (observed > limits.maxTotalStringBytes.toNat)
    (.policy (.resourceLimit .totalStringBytes limits.maxTotalStringBytes.toNat observed))
  return { s with totalStringBytes := observed }

/-- The check of `ArrayElementSeed`. -/
def checkIndex (index : Nat) : Except DecodeError Unit :=
  rejectIf (index ≥ limits.maxArrayItems.toNat)
    (.policy (.resourceLimit .arrayItems limits.maxArrayItems.toNat (saturatingAdd index 1)))

/-- The check of `ObjectKeySeed`. -/
def checkMember (index : Nat) : Except DecodeError Unit :=
  rejectIf (index ≥ limits.maxObjectMembers.toNat)
    (.policy (.resourceLimit .objectMembers limits.maxObjectMembers.toNat (saturatingAdd index 1)))

/-! ### Visitors -/

/-- `visit_u64`. -/
def visitU64 (value : UInt64) : Except DecodeError Json := do
  rejectIf (value.toNat > maxSafeJsonInteger) (.policy .unsafeInteger)
  return .number value.toNat

/-- `visit_i64`. -/
def visitI64 (value : Int64) : Except DecodeError Json := do
  rejectIf (value.toInt.natAbs > maxSafeJsonInteger) (.policy .unsafeInteger)
  return .number value.toInt

/-- `visit_f64`: negative zero is the integer zero. -/
def visitF64 (negativeZero : Bool) : Except DecodeError Json :=
  if negativeZero then .ok (.number 0) else .error (.policy .nonIntegerNumber)

/-- `next_key_seed` with `ObjectKeySeed`, and the check for a duplicate. -/
def nextKey (object : List (String × Json)) (s : DecodeState) (key : String) :
    Except DecodeError DecodeState := do
  checkMember limits object.length
  let s ← accountString limits s key
  rejectIf (key ∈ object.map Prod.fst) (.policy .duplicateKey)
  return s

/-- What the loop of `visit_map` does after the last member. -/
def endMap (object : List (String × Json)) (s : DecodeState) :
    ObjectEnd → Except DecodeError (List (String × Json) × DecodeState)
  | .closed => .ok (object, s)
  | .broken => .error .reader
  | .brokenKey => checkMember limits object.length >>= fun _ => .error .reader
  | .missingColon key => nextKey limits object s key >>= fun _ => .error .reader

mutual

/-- `ValueVisitor`, on what the parser presents at `depth`. -/
def visit (depth : Nat) (s : DecodeState) : Reading → Except DecodeError (Json × DecodeState)
  | .null => .ok (.null, s)
  | .bool value => .ok (.bool value, s)
  | .u64 value => (visitU64 value).map fun json => (json, s)
  | .i64 value => (visitI64 value).map fun json => (json, s)
  | .f64 negativeZero => (visitF64 negativeZero).map fun json => (json, s)
  | .string value => (accountString limits s value).map fun s => (.string value, s)
  | .array items closed => (visitSeq depth 0 s closed items).map fun r => (.array r.1, r.2)
  | .object members closing =>
      (visitMap depth [] s closing members).map fun r => (.object r.1, r.2)
  | .broken => .error .reader

/-- The loop of `visit_seq`, after `index` values. -/
def visitSeq (depth index : Nat) (s : DecodeState) (closed : Bool) :
    List Reading → Except DecodeError (List Json × DecodeState)
  | [] => if closed then .ok ([], s) else .error .reader
  | item :: rest => do
      checkIndex limits index
      let s ← enterValue limits s (saturatingAdd depth 1)
      let value ← visit (saturatingAdd depth 1) s item
      let values ← visitSeq depth (index + 1) value.2 closed rest
      return (value.1 :: values.1, values.2)

/-- The loop of `visit_map`, with the members inserted so far. -/
def visitMap (depth : Nat) (object : List (String × Json)) (s : DecodeState)
    (closing : ObjectEnd) :
    List (String × Reading) → Except DecodeError (List (String × Json) × DecodeState)
  | [] => endMap limits object s closing
  | member :: rest => do
      let s ← nextKey limits object s member.1
      let s ← enterValue limits s (saturatingAdd depth 1)
      let value ← visit (saturatingAdd depth 1) s member.2
      visitMap depth (Json.insertMember member.1 value.1 object) value.2 closing rest

end

/-- `ValueSeed`. -/
def valueSeed (depth : Nat) (s : DecodeState) (reading : Reading) :
    Except DecodeError (Json × DecodeState) := do
  let s ← enterValue limits s depth
  visit limits depth s reading

/-- `decode_value`. -/
def decodeValue (reader : Reader) (text : List UInt8) (limits : Limits) :
    Except CodecError Json := do
  classifyNumbers text
  let document := reader.read text
  let value ← (valueSeed limits 1 .new document.value).mapError
    (DecodeError.intoError document.position)
  rejectIf (document.trailing ≠ none) (syntaxError (document.trailing.getD (0, 0)))
  return value.1

/-! ### Trees -/

mutual

/-- The tree of a reading in document order: there is one when the text is
one value throughout and all its numbers are safe integers. -/
def Reading.tree : Reading → Option Json
  | .null => some .null
  | .bool value => some (.bool value)
  | .u64 value => if value.toNat ≤ maxSafeJsonInteger then some (.number value.toNat) else none
  | .i64 value =>
      if value.toInt.natAbs ≤ maxSafeJsonInteger then some (.number value.toInt) else none
  | .f64 negativeZero => if negativeZero then some (.number 0) else none
  | .string value => some (.string value)
  | .array items closed => if closed then (treesOfItems items).map .array else none
  | .object members closing =>
      if closing = .closed then (treesOfMembers members).map .object else none
  | .broken => none

/-- The trees of the items of an array. -/
def treesOfItems : List Reading → Option (List Json)
  | [] => some []
  | item :: rest => item.tree.bind fun tree => (treesOfItems rest).map (tree :: ·)

/-- The trees of the members of an object. -/
def treesOfMembers : List (String × Reading) → Option (List (String × Json))
  | [] => some []
  | member :: rest =>
      member.2.tree.bind fun tree => (treesOfMembers rest).map ((member.1, tree) :: ·)

end

/-- Induction over a reading. -/
theorem Reading.inductionOn {P : Reading → Prop} (reading : Reading) (null : P .null)
    (bool : ∀ b, P (.bool b)) (u64 : ∀ n, P (.u64 n)) (i64 : ∀ n, P (.i64 n))
    (f64 : ∀ negativeZero, P (.f64 negativeZero)) (string : ∀ s, P (.string s))
    (array : ∀ items closed, (∀ item ∈ items, P item) → P (.array items closed))
    (object : ∀ members closing, (∀ member ∈ members, P member.2) → P (.object members closing))
    (broken : P .broken) : P reading :=
  @Reading.rec P (fun items => ∀ item ∈ items, P item)
    (fun members => ∀ member ∈ members, P member.2) (fun member => P member.2) null bool u64 i64 f64
    string (fun items closed h => array items closed h)
    (fun members closing h => object members closing h) broken (List.forall_mem_nil _)
    (fun _ _ hitem hrest => List.forall_mem_cons.mpr ⟨hitem, hrest⟩) (List.forall_mem_nil _)
    (fun _ _ hmember hrest => List.forall_mem_cons.mpr ⟨hmember, hrest⟩) (fun _ _ hvalue => hvalue)
    reading

/-- What the limits say about one node of a tree. -/
structure NodeFits (node : Json × Nat) : Prop where
  depth : node.2 ≤ limits.maxDepth.toNat
  text : ∀ s ∈ node.1.texts, len s ≤ limits.maxStringBytes.toNat
  items : node.1.itemCount ≤ limits.maxArrayItems.toNat
  members : node.1.keys.length ≤ limits.maxObjectMembers.toNat
  keys : node.1.keys.Nodup

/-- The counters are within their ceilings. -/
structure Within (s : DecodeState) : Prop where
  values : s.values ≤ limits.maxValues.toNat
  strings : s.totalStringBytes ≤ limits.maxTotalStringBytes.toNat

/-- The counters after so many more values and string bytes. -/
def DecodeState.add (s : DecodeState) (values bytes : Nat) : DecodeState :=
  ⟨saturatingAdd s.values values, saturatingAdd s.totalStringBytes bytes⟩

section Counters

variable {limits : Limits} {s s' : DecodeState} {values bytes : Nat}

theorem saturatingAdd_add (a b c : Nat) :
    saturatingAdd (saturatingAdd a b) c = saturatingAdd a (b + c) := by
  unfold saturatingAdd
  omega

theorem DecodeState.add_add (values' bytes' : Nat) :
    (s.add values bytes).add values' bytes' = s.add (values + values') (bytes + bytes') := by
  simp [DecodeState.add, saturatingAdd_add]

theorem Within.lt (h : Within limits s) : s.values < 2 ^ 64 ∧ s.totalStringBytes < 2 ^ 64 :=
  ⟨Nat.lt_of_le_of_lt h.values limits.maxValues.toNat_lt,
    Nat.lt_of_le_of_lt h.strings limits.maxTotalStringBytes.toNat_lt⟩

theorem Within.add_zero (h : Within limits s) : s.add 0 0 = s := by
  obtain ⟨hvalues, hbytes⟩ := h.lt
  have hv : saturatingAdd s.values 0 = s.values := by
    unfold saturatingAdd
    omega
  have hb : saturatingAdd s.totalStringBytes 0 = s.totalStringBytes := by
    unfold saturatingAdd
    omega
  rw [DecodeState.add, hv, hb]

/-- Counters that are within their ceilings at the end were so before. -/
theorem Within.of_add {values' bytes' : Nat} (h : Within limits (s.add values' bytes'))
    (hvalues : values ≤ values') (hbytes : bytes ≤ bytes') : Within limits (s.add values bytes) where
  values := by
    have hle : saturatingAdd s.values values ≤ saturatingAdd s.values values' := by
      unfold saturatingAdd
      omega
    exact hle.trans h.values
  strings := by
    have hle : saturatingAdd s.totalStringBytes bytes ≤ saturatingAdd s.totalStringBytes bytes' := by
      unfold saturatingAdd
      omega
    exact hle.trans h.strings

theorem enterValue_eq_ok {depth : Nat} (hs : Within limits s) :
    enterValue limits s depth = .ok s' ↔
      depth ≤ limits.maxDepth.toNat ∧ s' = s.add 1 0 ∧ Within limits (s.add 1 0) := by
  have hbytes : saturatingAdd s.totalStringBytes 0 = s.totalStringBytes := by
    have hlt := hs.lt.2
    unfold saturatingAdd
    omega
  have hadd : s.add 1 0 = ⟨saturatingAdd s.values 1, s.totalStringBytes⟩ := by
    rw [DecodeState.add, hbytes]
  unfold enterValue
  simp only [bind_eq_ok, rejectIf_eq_ok, pure_eq_ok, exists_and_left, exists_const, not_lt]
  rw [hadd]
  constructor
  · rintro ⟨hdepth, hvalues, rfl⟩
    exact ⟨hdepth, rfl, hvalues, hs.strings⟩
  · rintro ⟨hdepth, rfl, hwithin⟩
    exact ⟨hdepth, hwithin.values, rfl⟩

theorem accountString_eq_ok {value : String} (hs : Within limits s) :
    accountString limits s value = .ok s' ↔ len value ≤ limits.maxStringBytes.toNat ∧
      s' = s.add 0 (len value) ∧ Within limits (s.add 0 (len value)) := by
  have hvalues : saturatingAdd s.values 0 = s.values := by
    have hlt := hs.lt.1
    unfold saturatingAdd
    omega
  have hadd : s.add 0 (len value) = ⟨s.values, saturatingAdd s.totalStringBytes (len value)⟩ := by
    rw [DecodeState.add, hvalues]
  unfold accountString
  simp only [bind_eq_ok, rejectIf_eq_ok, pure_eq_ok, exists_and_left, exists_const, not_lt]
  rw [hadd]
  constructor
  · rintro ⟨hlen, hbytes, rfl⟩
    exact ⟨hlen, rfl, hs.values, hbytes⟩
  · rintro ⟨hlen, rfl, hwithin⟩
    exact ⟨hlen, hwithin.strings, rfl⟩

theorem nextKey_eq_ok {object : List (String × Json)} {key : String} (hs : Within limits s) :
    nextKey limits object s key = .ok s' ↔ object.length < limits.maxObjectMembers.toNat ∧
      key ∉ object.map Prod.fst ∧ len key ≤ limits.maxStringBytes.toNat ∧
      s' = s.add 0 (len key) ∧ Within limits (s.add 0 (len key)) := by
  unfold nextKey checkMember
  simp only [bind_eq_ok, rejectIf_eq_ok, pure_eq_ok, exists_and_left, exists_const, not_le,
    accountString_eq_ok hs]
  constructor
  · rintro ⟨hlength, _, ⟨hlen, rfl, hwithin⟩, hfresh, rfl⟩
    exact ⟨hlength, hfresh, hlen, rfl, hwithin⟩
  · rintro ⟨hlength, hfresh, hlen, rfl, hwithin⟩
    exact ⟨hlength, _, ⟨hlen, rfl, hwithin⟩, hfresh, rfl⟩

end Counters

/-! ### What a successful run means -/

/-- Every node of a tree at `depth` fits. -/
def TreeFits (depth : Nat) (tree : Json) : Prop := ∀ node ∈ tree.nodes depth, NodeFits limits node

section Run

variable {limits : Limits} {depth : Nat}

/-- A node without strings and children fits at an admissible depth. -/
theorem fits_leaf {tree : Json} (hnodes : tree.nodes depth = [(tree, depth)])
    (htexts : ∀ s ∈ tree.texts, len s ≤ limits.maxStringBytes.toNat) (hitems : tree.itemCount = 0)
    (hkeys : tree.keys = []) : TreeFits limits depth tree ↔ depth ≤ limits.maxDepth.toNat := by
  unfold TreeFits
  rw [hnodes, List.forall_mem_singleton]
  constructor
  · exact fun h => h.depth
  · intro h
    exact ⟨h, htexts, by rw [hitems]; exact Nat.zero_le _, by rw [hkeys]; exact Nat.zero_le _,
      by rw [hkeys]; exact List.nodup_nil⟩

theorem fits_array {items : List Json} : TreeFits limits depth (.array items) ↔
    depth ≤ limits.maxDepth.toNat ∧ items.length ≤ limits.maxArrayItems.toNat ∧
      ∀ item ∈ items, TreeFits limits (depth + 1) item := by
  unfold TreeFits
  rw [Json.nodes, List.forall_mem_cons, Json.nodesOfItems_eq]
  simp only [List.mem_flatMap]
  constructor
  · rintro ⟨hself, hrest⟩
    exact ⟨hself.depth, hself.items, fun item hitem node hnode => hrest node ⟨item, hitem, hnode⟩⟩
  · rintro ⟨hdepth, hlength, hrest⟩
    refine ⟨⟨hdepth, List.forall_mem_nil _, hlength, Nat.zero_le _, List.nodup_nil⟩, ?_⟩
    rintro node ⟨item, hitem, hnode⟩
    exact hrest item hitem node hnode

theorem fits_object {members : List (String × Json)} : TreeFits limits depth (.object members) ↔
    depth ≤ limits.maxDepth.toNat ∧
      (∀ key ∈ members.map Prod.fst, len key ≤ limits.maxStringBytes.toNat) ∧
      members.length ≤ limits.maxObjectMembers.toNat ∧ (members.map Prod.fst).Nodup ∧
      ∀ member ∈ members, TreeFits limits (depth + 1) member.2 := by
  unfold TreeFits
  rw [Json.nodes, List.forall_mem_cons, Json.nodesOfMembers_eq]
  simp only [List.mem_flatMap]
  constructor
  · rintro ⟨hself, hrest⟩
    have hlength := hself.members
    rw [Json.keys, List.length_map] at hlength
    exact ⟨hself.depth, hself.text, hlength, hself.keys,
      fun member hmember node hnode => hrest node ⟨member, hmember, hnode⟩⟩
  · rintro ⟨hdepth, htexts, hlength, hkeys, hrest⟩
    refine ⟨⟨hdepth, htexts, Nat.zero_le _, ?_, hkeys⟩, ?_⟩
    · rw [Json.keys, List.length_map]
      exact hlength
    · rintro node ⟨member, hmember, hnode⟩
      exact hrest member hmember node hnode

/-- What it means that the visitors succeed on a reading. -/
def Visits (limits : Limits) (reading : Reading) : Prop :=
  ∀ {depth : Nat} {s s' : DecodeState} {json : Json}, Within limits s →
    (valueSeed limits depth s reading = .ok (json, s') ↔
      ∃ tree, reading.tree = some tree ∧ json = tree.sorted ∧
        s' = s.add tree.valueCount tree.stringBytes ∧ TreeFits limits depth tree ∧ Within limits s')

theorem valueSeed_eq_ok {s : DecodeState} {reading : Reading} {r : Json × DecodeState}
    (hs : Within limits s) : valueSeed limits depth s reading = .ok r ↔
      depth ≤ limits.maxDepth.toNat ∧ Within limits (s.add 1 0) ∧
        visit limits depth (s.add 1 0) reading = .ok r := by
  unfold valueSeed
  simp only [bind_eq_ok, enterValue_eq_ok hs]
  constructor
  · rintro ⟨_, ⟨hdepth, rfl, hwithin⟩, hvisit⟩
    exact ⟨hdepth, hwithin, hvisit⟩
  · rintro ⟨hdepth, hwithin, hvisit⟩
    exact ⟨_, ⟨hdepth, rfl, hwithin⟩, hvisit⟩

theorem map_eq_ok {ε α β : Type*} {f : α → β} {x : Except ε α} {b : β} :
    x.map f = .ok b ↔ ∃ a, x = .ok a ∧ f a = b := by
  cases x with
  | error e => simp [Except.map]
  | ok a => simp [Except.map]

theorem scalar_fits_iff {tree : Json} (h : tree.IsScalar) :
    TreeFits limits depth tree ↔ depth ≤ limits.maxDepth.toNat := by
  refine fits_leaf (h.nodes_eq depth) ?_ ?_ ?_
  · cases h <;> exact List.forall_mem_nil _
  · cases h <;> rfl
  · cases h <;> rfl

/-- A reading of a scalar: its visitor does not touch the counters. -/
theorem visits_scalar {reading : Reading}
    (hscalar : ∀ tree, reading.tree = some tree → tree.IsScalar)
    (hvisit : ∀ depth s r, visit limits depth s reading = .ok r ↔
      ∃ tree, reading.tree = some tree ∧ r = (tree, s)) : Visits limits reading := by
  intro depth s s' json hs
  rw [valueSeed_eq_ok hs, hvisit]
  constructor
  · rintro ⟨hdepth, hwithin, tree, htree, hr⟩
    obtain ⟨rfl, rfl⟩ := Prod.mk.inj hr
    have h := hscalar json htree
    exact ⟨json, htree, h.sorted_eq.symm, by rw [h.valueCount_eq, h.stringBytes_eq],
      (scalar_fits_iff h).mpr hdepth, hwithin⟩
  · rintro ⟨tree, htree, rfl, rfl, hfits, hwithin⟩
    have h := hscalar tree htree
    rw [h.valueCount_eq, h.stringBytes_eq] at hwithin ⊢
    rw [h.sorted_eq]
    exact ⟨(scalar_fits_iff h).mp hfits, hwithin, tree, htree, rfl⟩

/-- The loop over the items of an array. -/
theorem visitSeq_eq_ok (hmax : limits.maxDepth.toNat < 2 ^ 64 - 1)
    (hdepth : depth ≤ limits.maxDepth.toNat) {items : List Reading}
    (hitems : ∀ item ∈ items, Visits limits item) :
    ∀ {index : Nat} {s s' : DecodeState} {values : List Json}, Within limits s →
      (visitSeq limits depth index s true items = .ok (values, s') ↔
        ∃ trees, treesOfItems items = some trees ∧ values = trees.map Json.sorted ∧
          s' = s.add (trees.map Json.valueCount).sum (trees.map Json.stringBytes).sum ∧
          (∀ tree ∈ trees, TreeFits limits (depth + 1) tree) ∧
          (trees ≠ [] → index + trees.length ≤ limits.maxArrayItems.toNat) ∧
          Within limits s') := by
  have hnext : saturatingAdd depth 1 = depth + 1 := by
    unfold saturatingAdd
    omega
  induction items with
  | nil =>
      intro index s s' values hs
      rw [visitSeq, if_pos rfl, treesOfItems]
      constructor
      · intro h
        obtain ⟨rfl, rfl⟩ := Prod.mk.inj (Except.ok.inj h)
        exact ⟨[], rfl, rfl, hs.add_zero.symm, List.forall_mem_nil _, fun h => absurd rfl h, hs⟩
      · rintro ⟨trees, htrees, rfl, rfl, -⟩
        obtain rfl := Option.some.inj htrees
        show Except.ok ([], s) = Except.ok ([], s.add 0 0)
        rw [hs.add_zero]
  | cons item rest ih =>
      intro index s s' values hs
      obtain ⟨hitem, hrest⟩ := List.forall_mem_cons.mp hitems
      have hstep : visitSeq limits depth index s true (item :: rest) =
          (checkIndex limits index >>= fun _ => valueSeed limits (depth + 1) s item >>= fun value =>
            visitSeq limits depth (index + 1) value.2 true rest >>= fun values =>
              .ok (value.1 :: values.1, values.2)) := by
        rw [visitSeq, hnext, valueSeed]
        simp only [bind_assoc]
        rfl
      rw [hstep, treesOfItems]
      simp only [bind_eq_ok, checkIndex, rejectIf_eq_ok, exists_const, not_le, Prod.exists,
        hitem hs]
      constructor
      · rintro ⟨hindex, json, s₁, ⟨tree, htree, rfl, rfl, hfits, hwithin⟩, values', s₂, hseq, hr⟩
        obtain ⟨rfl, rfl⟩ := Prod.mk.inj (Except.ok.inj hr)
        obtain ⟨trees, htrees, rfl, rfl, hfits', hlength, hwithin'⟩ := (ih hrest hwithin).mp hseq
        rw [DecodeState.add_add] at hwithin' ⊢
        refine ⟨tree :: trees, ?_, rfl, rfl, List.forall_mem_cons.mpr ⟨hfits, hfits'⟩, fun _ => ?_,
          hwithin'⟩
        · rw [htree, Option.bind_some, htrees]
          rfl
        · rw [List.length_cons]
          by_cases hempty : trees = []
          · rw [hempty, List.length_nil]
            omega
          · have := hlength hempty
            omega
      · rintro ⟨trees, htrees, rfl, rfl, hfits, hlength, hwithin⟩
        obtain ⟨tree, htree, htrees⟩ := Option.bind_eq_some_iff.mp htrees
        obtain ⟨trees', htrees', rfl⟩ := Option.map_eq_some_iff.mp htrees
        obtain ⟨hfits, hfits'⟩ := List.forall_mem_cons.mp hfits
        have hlength := hlength (List.cons_ne_nil _ _)
        rw [List.length_cons] at hlength
        have hfirst : Within limits (s.add tree.valueCount tree.stringBytes) :=
          hwithin.of_add (Nat.le_add_right _ _) (Nat.le_add_right _ _)
        refine ⟨by omega, tree.sorted, _, ⟨tree, htree, rfl, rfl, hfits, hfirst⟩,
          trees'.map Json.sorted, _, (ih hrest hfirst).mpr ⟨trees', htrees', rfl, ?_, hfits',
            fun _ => by omega, hwithin⟩, rfl⟩
        rw [DecodeState.add_add]
        rfl

/-- What the loop over members has read, after the members of `object`. -/
structure ReadMembers (limits : Limits) (depth : Nat) (object trees : List (String × Json)) :
    Prop where
  fits : ∀ member ∈ trees, TreeFits limits (depth + 1) member.2
  keys : ∀ key ∈ trees.map Prod.fst, len key ≤ limits.maxStringBytes.toNat
  distinct : (trees.map Prod.fst).Nodup
  fresh : ∀ key ∈ trees.map Prod.fst, key ∉ object.map Prod.fst
  length : trees ≠ [] → object.length + trees.length ≤ limits.maxObjectMembers.toNat

theorem ReadMembers.nil {object : List (String × Json)} : ReadMembers limits depth object [] where
  fits := List.forall_mem_nil _
  keys := List.forall_mem_nil _
  distinct := List.nodup_nil
  fresh := List.forall_mem_nil _
  length := fun h => absurd rfl h

/-- One more member in front: what is read after it is read after an object
that has it. -/
theorem readMembers_cons {object trees : List (String × Json)} {key : String} {tree : Json} :
    ReadMembers limits depth object ((key, tree) :: trees) ↔
      object.length < limits.maxObjectMembers.toNat ∧ key ∉ object.map Prod.fst ∧
        len key ≤ limits.maxStringBytes.toNat ∧ TreeFits limits (depth + 1) tree ∧
        ReadMembers limits depth (Json.insertMember key tree.sorted object) trees := by
  have hkeys : ∀ k, k ∈ (Json.insertMember key tree.sorted object).map Prod.fst ↔
      k = key ∨ k ∈ object.map Prod.fst := fun k => Json.mem_keys_insertMember
  constructor
  · intro h
    have hfresh : key ∉ object.map Prod.fst := h.fresh key List.mem_cons_self
    have hlength : (Json.insertMember key tree.sorted object).length = object.length + 1 :=
      (Json.insertMember_perm hfresh).length_eq
    have hfull := h.length (List.cons_ne_nil _ _)
    rw [List.length_cons] at hfull
    obtain ⟨hself, hdistinct⟩ := List.nodup_cons.mp h.distinct
    refine ⟨by omega, hfresh, h.keys key List.mem_cons_self, h.fits _ List.mem_cons_self, ?_⟩
    exact
      { fits := fun member hmember => h.fits member (List.mem_cons_of_mem _ hmember)
        keys := fun k hk => h.keys k (List.mem_cons_of_mem _ hk)
        distinct := hdistinct
        fresh := fun k hk hmem => by
          rcases (hkeys k).mp hmem with rfl | hold
          · exact hself hk
          · exact h.fresh k (List.mem_cons_of_mem _ hk) hold
        length := fun _ => by omega }
  · rintro ⟨hroom, hfresh, hlen, hfits, h⟩
    have hlength : (Json.insertMember key tree.sorted object).length = object.length + 1 :=
      (Json.insertMember_perm hfresh).length_eq
    exact
      { fits := List.forall_mem_cons.mpr ⟨hfits, h.fits⟩
        keys := List.forall_mem_cons.mpr ⟨hlen, h.keys⟩
        distinct := List.nodup_cons.mpr
          ⟨fun hmem => h.fresh key hmem ((hkeys key).mpr (.inl rfl)), h.distinct⟩
        fresh := List.forall_mem_cons.mpr
          ⟨hfresh, fun k hk hmem => h.fresh k hk ((hkeys k).mpr (.inr hmem))⟩
        length := fun _ => by
          rw [List.length_cons]
          by_cases hempty : trees = []
          · rw [hempty, List.length_nil]
            omega
          · have := h.length hempty
            omega }

/-- The counters after one more member in front. -/
theorem add_member {s : DecodeState} {key : String} {tree : Json} {trees : List (String × Json)} :
    ((s.add 0 (len key)).add tree.valueCount tree.stringBytes).add
        (trees.map fun member => member.2.valueCount).sum
        (trees.map fun member => len member.1 + member.2.stringBytes).sum =
      s.add (((key, tree) :: trees).map fun member => member.2.valueCount).sum
        (((key, tree) :: trees).map fun member => len member.1 + member.2.stringBytes).sum := by
  simp [DecodeState.add_add, Nat.add_assoc]

/-- The loop over the members of an object. -/
theorem visitMap_eq_ok (hmax : limits.maxDepth.toNat < 2 ^ 64 - 1)
    (hdepth : depth ≤ limits.maxDepth.toNat) {members : List (String × Reading)}
    (hmembers : ∀ member ∈ members, Visits limits member.2) :
    ∀ {object out : List (String × Json)} {s s' : DecodeState}, Within limits s →
      (visitMap limits depth object s .closed members = .ok (out, s') ↔
        ∃ trees, treesOfMembers members = some trees ∧ out = Json.sortedMembers object trees ∧
          s' = s.add (trees.map fun member => member.2.valueCount).sum
            (trees.map fun member => len member.1 + member.2.stringBytes).sum ∧
          ReadMembers limits depth object trees ∧ Within limits s') := by
  have hnext : saturatingAdd depth 1 = depth + 1 := by
    unfold saturatingAdd
    omega
  induction members with
  | nil =>
      intro object out s s' hs
      rw [visitMap, endMap, treesOfMembers]
      constructor
      · intro h
        obtain ⟨rfl, rfl⟩ := Prod.mk.inj (Except.ok.inj h)
        exact ⟨[], rfl, rfl, hs.add_zero.symm, .nil, hs⟩
      · rintro ⟨trees, htrees, rfl, rfl, -⟩
        obtain rfl := Option.some.inj htrees
        show Except.ok (object, s) = Except.ok (object, s.add 0 0)
        rw [hs.add_zero]
  | cons member rest ih =>
      intro object out s s' hs
      obtain ⟨key, reading⟩ := member
      obtain ⟨hmember, hrest⟩ := List.forall_mem_cons.mp hmembers
      have hstep : visitMap limits depth object s .closed ((key, reading) :: rest) =
          (nextKey limits object s key >>= fun s => valueSeed limits (depth + 1) s reading >>=
            fun value => visitMap limits depth (Json.insertMember key value.1 object) value.2 .closed
              rest) := by
        rw [visitMap, hnext]
        simp only [valueSeed, bind_assoc]
      rw [hstep, treesOfMembers]
      simp only [bind_eq_ok, nextKey_eq_ok hs, Prod.exists]
      constructor
      · rintro ⟨s₀, ⟨hroom, hfresh, hlen, rfl, hwithin₀⟩, json, s₁, hvalue, hmap⟩
        obtain ⟨tree, htree, rfl, rfl, hfits, hwithin⟩ := (hmember hwithin₀).mp hvalue
        obtain ⟨trees, htrees, rfl, rfl, hread, hwithin'⟩ := (ih hrest hwithin).mp hmap
        refine ⟨(key, tree) :: trees, ?_, rfl, add_member, readMembers_cons.mpr ⟨hroom, hfresh, hlen,
          hfits, hread⟩, hwithin'⟩
        rw [htree, Option.bind_some, htrees]
        rfl
      · rintro ⟨trees, htrees, rfl, rfl, hread, hwithin⟩
        obtain ⟨tree, htree, htrees⟩ := Option.bind_eq_some_iff.mp htrees
        obtain ⟨trees', htrees', rfl⟩ := Option.map_eq_some_iff.mp htrees
        obtain ⟨hroom, hfresh, hlen, hfits, hread⟩ := readMembers_cons.mp hread
        rw [← add_member] at hwithin ⊢
        have hwithin' := hwithin
        rw [DecodeState.add_add] at hwithin'
        have hvalue := hwithin'.of_add (Nat.le_add_right _ _) (Nat.le_add_right _ _)
        have hkey : Within limits (s.add 0 (len key)) := by
          rw [DecodeState.add_add] at hvalue
          exact hvalue.of_add (Nat.zero_le _) (Nat.le_add_right _ _)
        refine ⟨_, ⟨hroom, hfresh, hlen, rfl, hkey⟩, tree.sorted, _,
          (hmember hkey).mpr ⟨tree, htree, rfl, rfl, hfits, hvalue⟩, ?_⟩
        exact (ih hrest hvalue).mpr ⟨trees', htrees', rfl, rfl, hread, hwithin⟩

/-- Without the closing bracket there is no array. -/
theorem visitSeq_broken {items : List Reading} : ∀ {index : Nat} {s : DecodeState}
    {r : List Json × DecodeState}, visitSeq limits depth index s false items ≠ .ok r := by
  induction items with
  | nil =>
      intro index s r h
      rw [visitSeq] at h
      cases h
  | cons item rest ih =>
      intro index s r h
      rw [visitSeq] at h
      obtain ⟨_, -, h⟩ := bind_eq_ok.mp h
      obtain ⟨_, -, h⟩ := bind_eq_ok.mp h
      obtain ⟨_, -, h⟩ := bind_eq_ok.mp h
      obtain ⟨_, hrest, -⟩ := bind_eq_ok.mp h
      exact ih hrest

/-- Without the closing bracket there is no object. -/
theorem visitMap_broken {closing : ObjectEnd} (hclosing : closing ≠ .closed)
    {members : List (String × Reading)} : ∀ {object : List (String × Json)} {s : DecodeState}
    {r : List (String × Json) × DecodeState},
      visitMap limits depth object s closing members ≠ .ok r := by
  induction members with
  | nil =>
      intro object s r h
      rw [visitMap] at h
      cases closing with
      | closed => exact hclosing rfl
      | broken => cases h
      | brokenKey =>
          obtain ⟨_, -, h⟩ := bind_eq_ok.mp h
          cases h
      | missingColon key =>
          obtain ⟨_, -, h⟩ := bind_eq_ok.mp h
          cases h
  | cons member rest ih =>
      intro object s r h
      rw [visitMap] at h
      obtain ⟨_, -, h⟩ := bind_eq_ok.mp h
      obtain ⟨_, -, h⟩ := bind_eq_ok.mp h
      obtain ⟨_, -, h⟩ := bind_eq_ok.mp h
      exact ih h

theorem visits_string (value : String) : Visits limits (.string value) := by
  intro depth s s' json hs
  have hcount : (Json.string value).valueCount = 1 := rfl
  have hbytes : (Json.string value).stringBytes = len value := Nat.add_zero _
  rw [valueSeed_eq_ok hs, visit, Reading.tree]
  simp only [map_eq_ok, Option.some.injEq, exists_eq_left', hcount, hbytes]
  constructor
  · rintro ⟨hdepth, hwithin, s₁, haccount, hr⟩
    obtain ⟨hlen, rfl, hwithin'⟩ := (accountString_eq_ok hwithin).mp haccount
    obtain ⟨rfl, rfl⟩ := Prod.mk.inj hr
    rw [DecodeState.add_add, Nat.zero_add] at hwithin' ⊢
    refine ⟨rfl, rfl, (fits_leaf rfl ?_ rfl rfl).mpr hdepth, hwithin'⟩
    exact List.forall_mem_singleton.mpr hlen
  · rintro ⟨rfl, rfl, hfits, hwithin⟩
    have hself := hfits _ List.mem_cons_self
    have hfirst : Within limits (s.add 1 0) := hwithin.of_add (Nat.le_refl _) (Nat.zero_le _)
    refine ⟨hself.depth, hfirst, _, (accountString_eq_ok hfirst).mpr
      ⟨hself.text value List.mem_cons_self, rfl, ?_⟩, ?_⟩
    · rwa [DecodeState.add_add, Nat.zero_add]
    · rw [DecodeState.add_add, Nat.zero_add]
      rfl

theorem visits_array (hmax : limits.maxDepth.toNat < 2 ^ 64 - 1) {items : List Reading}
    (closed : Bool) (ih : ∀ item ∈ items, Visits limits item) :
    Visits limits (.array items closed) := by
  intro depth s s' json hs
  rw [valueSeed_eq_ok hs, visit, Reading.tree]
  cases closed with
  | false =>
      simp only [map_eq_ok]
      refine iff_of_false ?_ ?_
      · rintro ⟨-, -, r, hseq, -⟩
        exact visitSeq_broken hseq
      · rintro ⟨tree, htree, -⟩
        cases htree
  | true =>
      simp only [map_eq_ok, if_true, Option.map_eq_some_iff]
      constructor
      · rintro ⟨hdepth, hwithin, ⟨values, s₁⟩, hseq, hr⟩
        obtain ⟨rfl, rfl⟩ := Prod.mk.inj hr
        obtain ⟨trees, htrees, rfl, rfl, hfits, hlength, hwithin'⟩ :=
          (visitSeq_eq_ok hmax hdepth ih hwithin).mp hseq
        refine ⟨.array trees, ⟨trees, htrees, rfl⟩, ?_, ?_, ?_, hwithin'⟩
        · rw [Json.sorted, Json.sortedItems_eq]
        · rw [Json.valueCount_array, Json.stringBytes_array, DecodeState.add_add, Nat.zero_add]
        · refine fits_array.mpr ⟨hdepth, ?_, hfits⟩
          by_cases hempty : trees = []
          · rw [hempty]
            exact Nat.zero_le _
          · simpa using hlength hempty
      · rintro ⟨_, ⟨trees, htrees, rfl⟩, rfl, rfl, hfits, hwithin⟩
        obtain ⟨hdepth, hlength, hfits⟩ := fits_array.mp hfits
        rw [Json.valueCount_array, Json.stringBytes_array] at hwithin ⊢
        have hfirst : Within limits (s.add 1 0) :=
          hwithin.of_add (Nat.le_add_right _ _) (Nat.zero_le _)
        refine ⟨hdepth, hfirst, (trees.map Json.sorted, _), (visitSeq_eq_ok hmax hdepth ih hfirst).mpr
          ⟨trees, htrees, rfl, rfl, hfits, fun _ => by omega, ?_⟩, ?_⟩
        · rwa [DecodeState.add_add, Nat.zero_add]
        · rw [Json.sorted, Json.sortedItems_eq, DecodeState.add_add, Nat.zero_add]

theorem visits_object (hmax : limits.maxDepth.toNat < 2 ^ 64 - 1)
    {members : List (String × Reading)} (closing : ObjectEnd)
    (ih : ∀ member ∈ members, Visits limits member.2) :
    Visits limits (.object members closing) := by
  intro depth s s' json hs
  rw [valueSeed_eq_ok hs, visit, Reading.tree]
  by_cases hclosing : closing = .closed
  · subst hclosing
    simp only [map_eq_ok, if_true, Option.map_eq_some_iff]
    constructor
    · rintro ⟨hdepth, hwithin, ⟨object, s₁⟩, hmap, hr⟩
      obtain ⟨rfl, rfl⟩ := Prod.mk.inj hr
      obtain ⟨trees, htrees, rfl, rfl, hread, hwithin'⟩ :=
        (visitMap_eq_ok hmax hdepth ih hwithin).mp hmap
      refine ⟨.object trees, ⟨trees, htrees, rfl⟩, ?_, ?_, ?_, hwithin'⟩
      · rw [Json.sorted]
      · rw [Json.valueCount_object, Json.stringBytes_object, DecodeState.add_add, Nat.zero_add]
      · refine fits_object.mpr ⟨hdepth, hread.keys, ?_, hread.distinct, hread.fits⟩
        by_cases hempty : trees = []
        · rw [hempty]
          exact Nat.zero_le _
        · simpa using hread.length hempty
    · rintro ⟨_, ⟨trees, htrees, rfl⟩, rfl, rfl, hfits, hwithin⟩
      obtain ⟨hdepth, hkeys, hlength, hdistinct, hfits⟩ := fits_object.mp hfits
      rw [Json.valueCount_object, Json.stringBytes_object] at hwithin ⊢
      have hfirst : Within limits (s.add 1 0) :=
        hwithin.of_add (Nat.le_add_right _ _) (Nat.zero_le _)
      have hread : ReadMembers limits depth [] trees :=
        { fits := hfits
          keys := hkeys
          distinct := hdistinct
          fresh := fun _ _ => List.not_mem_nil
          length := fun _ => by rw [List.length_nil, Nat.zero_add]; exact hlength }
      refine ⟨hdepth, hfirst, (Json.sortedMembers [] trees, _),
        (visitMap_eq_ok hmax hdepth ih hfirst).mpr ⟨trees, htrees, rfl, rfl, hread, ?_⟩, ?_⟩
      · rwa [DecodeState.add_add, Nat.zero_add]
      · rw [Json.sorted, DecodeState.add_add, Nat.zero_add]
  · simp only [map_eq_ok]
    refine iff_of_false ?_ ?_
    · rintro ⟨-, -, r, hmap, -⟩
      exact visitMap_broken hclosing hmap
    · rintro ⟨tree, htree, -⟩
      rw [if_neg hclosing] at htree
      cases htree

theorem ite_eq_some {α : Type*} {p : Prop} [Decidable p] {a b : α}
    (h : (if p then some a else none) = some b) : p ∧ b = a := by
  by_cases hp : p
  · rw [if_pos hp] at h
    exact ⟨hp, (Option.some.inj h).symm⟩
  · rw [if_neg hp] at h
    cases h

/-- The visitor of an integer, signed or not. -/
theorem visitInteger_eq_ok {magnitude : Nat} {value : Int} {s : DecodeState}
    {r : Json × DecodeState} :
    ((do
        rejectIf (magnitude > maxSafeJsonInteger) (DecodeError.policy .unsafeInteger)
        return Json.number value).map fun json => (json, s)) = .ok r ↔
      ∃ tree, (if magnitude ≤ maxSafeJsonInteger then some (Json.number value) else none) =
        some tree ∧ r = (tree, s) := by
  simp only [map_eq_ok, bind_eq_ok, rejectIf_eq_ok, pure_eq_ok, exists_const, not_lt]
  constructor
  · rintro ⟨json, ⟨hsafe, rfl⟩, rfl⟩
    exact ⟨_, if_pos hsafe, rfl⟩
  · rintro ⟨tree, htree, rfl⟩
    obtain ⟨hsafe, rfl⟩ := ite_eq_some htree
    exact ⟨_, ⟨hsafe, rfl⟩, rfl⟩

/-- What the visitors do with any reading. -/
theorem visits (hmax : limits.maxDepth.toNat < 2 ^ 64 - 1) (reading : Reading) :
    Visits limits reading := by
  induction reading using Reading.inductionOn with
  | null =>
      refine visits_scalar ?_ ?_
      · rintro tree htree
        obtain rfl := Option.some.inj htree
        exact .null
      · intro depth s r
        rw [visit, Reading.tree]
        simp [eq_comm]
  | bool value =>
      refine visits_scalar ?_ ?_
      · rintro tree htree
        obtain rfl := Option.some.inj htree
        exact .bool value
      · intro depth s r
        rw [visit, Reading.tree]
        simp [eq_comm]
  | u64 value =>
      refine visits_scalar ?_ ?_
      · rintro tree htree
        obtain ⟨-, rfl⟩ := ite_eq_some htree
        exact .number _
      · intro depth s r
        rw [visit, Reading.tree, visitU64]
        exact visitInteger_eq_ok
  | i64 value =>
      refine visits_scalar ?_ ?_
      · rintro tree htree
        obtain ⟨-, rfl⟩ := ite_eq_some htree
        exact .number _
      · intro depth s r
        rw [visit, Reading.tree, visitI64]
        exact visitInteger_eq_ok
  | f64 negativeZero =>
      refine visits_scalar ?_ ?_
      · rintro tree htree
        obtain ⟨-, rfl⟩ := ite_eq_some htree
        exact .number _
      · intro depth s r
        rw [visit, Reading.tree, visitF64]
        cases negativeZero with
        | true => simp [Except.map, eq_comm]
        | false => simp [Except.map]
  | string value => exact visits_string value
  | array items closed ih => exact visits_array hmax closed ih
  | object members closing ih => exact visits_object hmax closing ih
  | broken =>
      refine visits_scalar ?_ ?_
      · rintro tree htree
        cases htree
      · intro depth s r
        rw [visit, Reading.tree]
        simp

end Run

end KvCrucible
