/-
KvCrucible/Refusals.lean

What a refusal of the decoder says is true of the text.

On a text of safe integers the visitors only stop for a repeated key or a
budget.  A budget that is named was exceeded: the maximum is the configured
one, the observed number is above it, and the text has something that reaches
the observed number (`Reaches`).  The induction is on the value as it is
written; the counters before a value and the values and strings in it bound
what is observed inside of it.
-/
import KvCrucible.Line

namespace KvCrucible

open Basis Basis.JsonText

/-! ### True refusals -/

/-- The ceiling on a resource. -/
def ceiling (limits : Limits) : CodecResource → Nat
  | .lineBytes => limits.maxLineBytes.toNat
  | .jsonDepth => limits.maxDepth.toNat
  | .jsonValues => limits.maxValues.toNat
  | .stringBytes => limits.maxStringBytes.toNat
  | .totalStringBytes => limits.maxTotalStringBytes.toNat
  | .arrayItems => limits.maxArrayItems.toNat
  | .objectMembers => limits.maxObjectMembers.toNat

/-- Values with so many values and string bytes before them reach a number. -/
def Reaches (values bytes : Nat) (nodes : List (Json × Nat)) (observed : Nat) :
    CodecResource → Prop
  | .lineBytes => False
  | .jsonDepth => ∃ node ∈ nodes, node.2 = observed
  | .jsonValues => observed ≤ values + nodes.length
  | .stringBytes => ∃ node ∈ nodes, ∃ text ∈ node.1.texts, len text = observed
  | .totalStringBytes => observed ≤ bytes + Json.textBytes nodes
  | .arrayItems => ∃ node ∈ nodes, observed ≤ node.1.itemCount
  | .objectMembers => ∃ node ∈ nodes, observed ≤ node.1.keys.length

/-- A failure that is true of some values. -/
def Refused (limits : Limits) (values bytes : Nat) (nodes : List (Json × Nat)) :
    DecodeFailure → Prop
  | .duplicateKey => ∃ node ∈ nodes, ¬ node.1.keys.Nodup
  | .nonIntegerNumber => False
  | .unsafeInteger => False
  | .resourceLimit resource maximum observed =>
      maximum = ceiling limits resource ∧ maximum < observed ∧
        Reaches values bytes nodes observed resource

section Refused

variable {limits : Limits} {values bytes values' bytes' : Nat} {nodes nodes' : List (Json × Nat)}

/-- What is true of a part is true of the whole. -/
theorem Refused.mono {failure : DecodeFailure} (h : Refused limits values' bytes' nodes' failure)
    (hnodes : nodes' ⊆ nodes) (hvalues : values' + nodes'.length ≤ values + nodes.length)
    (hbytes : bytes' + Json.textBytes nodes' ≤ bytes + Json.textBytes nodes) :
    Refused limits values bytes nodes failure := by
  cases failure with
  | duplicateKey =>
      obtain ⟨node, hnode, hkeys⟩ := h
      exact ⟨node, hnodes hnode, hkeys⟩
  | nonIntegerNumber => exact h
  | unsafeInteger => exact h
  | resourceLimit resource maximum observed =>
      obtain ⟨hmaximum, hlt, hreaches⟩ := h
      refine ⟨hmaximum, hlt, ?_⟩
      cases resource with
      | lineBytes => exact hreaches
      | jsonDepth =>
          obtain ⟨node, hnode, hdepth⟩ := hreaches
          exact ⟨node, hnodes hnode, hdepth⟩
      | jsonValues => exact le_trans hreaches hvalues
      | stringBytes =>
          obtain ⟨node, hnode, htext⟩ := hreaches
          exact ⟨node, hnodes hnode, htext⟩
      | totalStringBytes => exact le_trans hreaches hbytes
      | arrayItems =>
          obtain ⟨node, hnode, hcount⟩ := hreaches
          exact ⟨node, hnodes hnode, hcount⟩
      | objectMembers =>
          obtain ⟨node, hnode, hcount⟩ := hreaches
          exact ⟨node, hnodes hnode, hcount⟩

/-- A run that is not refused, or refused for a true reason. -/
def Honest {α : Type} (limits : Limits) (values bytes : Nat) (nodes : List (Json × Nat))
    (run : Except DecodeError α) : Prop :=
  ∀ error, run = .error error →
    ∃ failure, error = .policy failure ∧ Refused limits values bytes nodes failure

theorem Honest.mono {α : Type} {run : Except DecodeError α}
    (h : Honest limits values' bytes' nodes' run) (hnodes : nodes' ⊆ nodes)
    (hvalues : values' + nodes'.length ≤ values + nodes.length)
    (hbytes : bytes' + Json.textBytes nodes' ≤ bytes + Json.textBytes nodes) :
    Honest limits values bytes nodes run := by
  intro error herror
  obtain ⟨failure, hfailure, hrefused⟩ := h error herror
  exact ⟨failure, hfailure, hrefused.mono hnodes hvalues hbytes⟩

theorem honest_ok {α : Type} {a : α} : Honest limits values bytes nodes (.ok a) := by
  intro error herror
  cases herror

theorem Honest.bind {α β : Type} {run : Except DecodeError α} {f : α → Except DecodeError β}
    (h : Honest limits values bytes nodes run)
    (hf : ∀ a, run = .ok a → Honest limits values bytes nodes (f a)) :
    Honest limits values bytes nodes (run >>= f) := by
  intro error herror
  rcases bind_eq_error herror with hrun | ⟨a, hrun, hrest⟩
  · exact h error hrun
  · exact hf a hrun error hrest

theorem Honest.map {α β : Type} {run : Except DecodeError α} {f : α → β}
    (h : Honest limits values bytes nodes run) :
    Honest limits values bytes nodes (run.map f) := by
  intro error herror
  apply h error
  cases run with
  | error failure => exact congrArg Except.error (Except.error.inj herror)
  | ok a => cases herror

/-- A check for a reason that is true where it fires. -/
theorem honest_rejectIf {p : Prop} [Decidable p] {failure : DecodeFailure}
    (h : p → Refused limits values bytes nodes failure) :
    Honest limits values bytes nodes (rejectIf p (.policy failure)) := by
  intro error herror
  obtain ⟨hp, rfl⟩ := rejectIf_eq_error.mp herror
  exact ⟨failure, rfl, h hp⟩

end Refused

/-! ### Counters -/

section Counters

variable {limits : Limits} {s : DecodeState} {values bytes : Nat} {nodes : List (Json × Nat)}
  {node : Json × Nat}

/-- A value is counted once, at its depth. -/
theorem honest_enterValue (hnode : node ∈ nodes) (hvalues : s.values + 1 ≤ values + nodes.length) :
    Honest limits values bytes nodes (enterValue limits s node.2) := by
  refine (honest_rejectIf fun hdepth => ?_).bind fun _ _ => ?_
  · exact ⟨rfl, hdepth, node, hnode, rfl⟩
  · refine (honest_rejectIf fun hover => ?_).bind fun _ _ => honest_ok
    have hle : saturatingAdd s.values 1 ≤ s.values + 1 := Nat.min_le_left _ _
    exact ⟨rfl, hover, hle.trans hvalues⟩

/-- A string of a value is counted once. -/
theorem honest_accountString {value : String} (hnode : node ∈ nodes) (htext : value ∈ node.1.texts)
    (hbytes : s.totalStringBytes + len value ≤ bytes + Json.textBytes nodes) :
    Honest limits values bytes nodes (accountString limits s value) := by
  refine (honest_rejectIf fun hlen => ?_).bind fun _ _ => ?_
  · exact ⟨rfl, hlen, node, hnode, value, htext, rfl⟩
  · refine (honest_rejectIf fun hover => ?_).bind fun _ _ => honest_ok
    have hle : saturatingAdd s.totalStringBytes (len value) ≤ s.totalStringBytes + len value :=
      Nat.min_le_left _ _
    exact ⟨rfl, hover, hle.trans hbytes⟩

/-- An item is counted at its index. -/
theorem honest_checkIndex {index : Nat} (hnode : node ∈ nodes) (hindex : index < node.1.itemCount)
    (hword : node.1.itemCount < 2 ^ 64) :
    Honest limits values bytes nodes (checkIndex limits index) := by
  refine honest_rejectIf fun hover => ?_
  have hnext : saturatingAdd index 1 = index + 1 := by
    unfold saturatingAdd
    omega
  rw [hnext]
  exact ⟨rfl, Nat.lt_succ_of_le hover, node, hnode, hindex⟩

/-- A member is counted at its index. -/
theorem honest_checkMember {index : Nat} (hnode : node ∈ nodes)
    (hindex : index < node.1.keys.length) (hword : node.1.keys.length < 2 ^ 64) :
    Honest limits values bytes nodes (checkMember limits index) := by
  refine honest_rejectIf fun hover => ?_
  have hnext : saturatingAdd index 1 = index + 1 := by
    unfold saturatingAdd
    omega
  rw [hnext]
  exact ⟨rfl, Nat.lt_succ_of_le hover, node, hnode, hindex⟩

theorem saturatingAdd_le_add (a b : Nat) : saturatingAdd a b ≤ a + b := Nat.min_le_left _ _

end Counters

/-! ### Values -/

section Values

variable {decode : List UInt8 → Option String} {limits : Limits}

/-- The visitors are honest about a value, wherever it stands. -/
def HonestAbout (decode : List UInt8 → Option String) (limits : Limits) (value : Syntax) : Prop :=
  ∀ {room depth : Nat} {s : DecodeState} {tree : Json}, value.decoded decode = some tree →
    (∀ n ∈ value.literals, IsSafe n) → limits.maxDepth.toNat < depth + room → Within limits s →
      tree.valueCount < 2 ^ 64 → Honest limits s.values s.totalStringBytes (tree.nodes depth)
        (valueSeed limits depth s (readingOf decode room value))

/-- A value that passes is counted in full. -/
theorem valueSeed_counts (hmax : limits.maxDepth.toNat < 2 ^ 64 - 1) {value : Syntax} {tree : Json}
    {room depth : Nat} {s : DecodeState} {r : Json × DecodeState}
    (hdecoded : value.decoded decode = some tree) (hsafe : ∀ n ∈ value.literals, IsSafe n)
    (hs : Within limits s) (h : valueSeed limits depth s (readingOf decode room value) = .ok r) :
    r.2.values ≤ s.values + tree.valueCount ∧
      r.2.totalStringBytes ≤ s.totalStringBytes + tree.stringBytes ∧ Within limits r.2 := by
  obtain ⟨json, s'⟩ := r
  obtain ⟨tree', htree', -, rfl, -, hwithin⟩ := (visits hmax _ hs).mp h
  rcases @presents decode value room depth tree hsafe hdecoded with htree | ⟨hnone, -⟩
  · obtain rfl := Option.some.inj (htree'.symm.trans htree)
    exact ⟨saturatingAdd_le_add _ _, saturatingAdd_le_add _ _, hwithin⟩
  · rw [hnone] at htree'
    cases htree'

/-- One round of the loop over items. -/
theorem visitSeq_cons {depth index : Nat} {s : DecodeState} {item : Reading} {rest : List Reading}
    (hnext : saturatingAdd depth 1 = depth + 1) :
    visitSeq limits depth index s true (item :: rest) =
      (checkIndex limits index >>= fun _ => valueSeed limits (depth + 1) s item >>= fun value =>
        visitSeq limits depth (index + 1) value.2 true rest >>= fun values =>
          .ok (value.1 :: values.1, values.2)) := by
  rw [visitSeq, hnext, valueSeed]
  simp only [bind_assoc]
  rfl

/-- One round of the loop over members. -/
theorem visitMap_cons {depth : Nat} {object : List (String × Json)} {s : DecodeState}
    {closing : ObjectEnd} {member : String × Reading} {rest : List (String × Reading)}
    (hnext : saturatingAdd depth 1 = depth + 1) :
    visitMap limits depth object s closing (member :: rest) =
      (nextKey limits object s member.1 >>= fun s => valueSeed limits (depth + 1) s member.2 >>=
        fun value => visitMap limits depth (Json.insertMember member.1 value.1 object) value.2
          closing rest) := by
  rw [visitMap, hnext]
  simp only [valueSeed, bind_assoc]

theorem honest_visitSeq (hmax : limits.maxDepth.toNat < 2 ^ 64 - 1) {room depth values bytes : Nat}
    {nodes : List (Json × Nat)} {node : Json × Nat} (hnode : node ∈ nodes)
    (hword : node.1.itemCount < 2 ^ 64) (hdepth : depth ≤ limits.maxDepth.toNat)
    (hroom : limits.maxDepth.toNat < depth + 1 + room) {items : List Syntax}
    (hitems : ∀ item ∈ items, HonestAbout decode limits item) :
    ∀ {index : Nat} {s : DecodeState} {trees : List Json},
      Syntax.decodedItems decode items = some trees →
      (∀ n ∈ (Syntax.array items).literals, IsSafe n) → Within limits s →
      index + trees.length = node.1.itemCount → (∀ tree ∈ trees, tree.valueCount < 2 ^ 64) →
      Json.nodesOfItems (depth + 1) trees ⊆ nodes →
      s.values + (Json.nodesOfItems (depth + 1) trees).length ≤ values + nodes.length →
      s.totalStringBytes + Json.textBytes (Json.nodesOfItems (depth + 1) trees) ≤
        bytes + Json.textBytes nodes →
        Honest limits values bytes nodes
          (visitSeq limits depth index s true (readingsOfItems decode room items)) := by
  have hnext : saturatingAdd depth 1 = depth + 1 := by
    unfold saturatingAdd
    omega
  induction items with
  | nil =>
      intro index s trees _ _ _ _ _ _ _ _
      rw [readingsOfItems, visitSeq, if_pos rfl]
      exact honest_ok
  | cons item items ih =>
      intro index s trees hdecoded hsafe hs hcount hwords hsub hvalues hbytes
      obtain ⟨hitem, hrest⟩ := List.forall_mem_cons.mp hitems
      obtain ⟨tree, trees', htree, htrees', rfl⟩ := Syntax.decodedItems_cons.mp hdecoded
      obtain ⟨hwordtree, hwordrest⟩ := List.forall_mem_cons.mp hwords
      rw [literals_array_cons, List.forall_mem_append] at hsafe
      rw [List.length_cons] at hcount
      rw [Json.nodesOfItems] at hsub hvalues hbytes
      rw [List.length_append] at hvalues
      rw [Json.textBytes_append] at hbytes
      obtain ⟨hsubtree, hsubrest⟩ := List.append_subset.mp hsub
      rw [readingsOfItems, visitSeq_cons hnext]
      refine (honest_checkIndex hnode (by omega) hword).bind fun _ _ => ?_
      have hhonest : Honest limits s.values s.totalStringBytes (tree.nodes (depth + 1))
          (valueSeed limits (depth + 1) s (readingOf decode room item)) :=
        hitem htree hsafe.1 hroom hs hwordtree
      refine (hhonest.mono hsubtree (by omega) (by omega)).bind fun r hr => ?_
      obtain ⟨hcounted, hcountedbytes, hwithin⟩ := valueSeed_counts hmax htree hsafe.1 hs hr
      rw [← Json.length_nodes tree (depth + 1)] at hcounted
      rw [← Json.textBytes_nodes tree (depth + 1)] at hcountedbytes
      exact (ih hrest htrees' hsafe.2 hwithin (by omega) hwordrest hsubrest (by omega)
        (by omega)).bind fun _ _ => honest_ok

/-- What the loop over members has taken in, after the keys of `before`. -/
structure TakenIn (object : List (String × Json)) (before : List String) : Prop where
  length : object.length ≤ before.length
  keys : object.map Prod.fst ⊆ before

theorem TakenIn.insert {object : List (String × Json)} {before : List String} {key : String}
    {json : Json} (h : TakenIn object before) (hfresh : key ∉ object.map Prod.fst) :
    TakenIn (Json.insertMember key json object) (before ++ [key]) where
  length := by
    rw [(Json.insertMember_perm hfresh).length_eq, List.length_append]
    exact Nat.add_le_add_right h.length 1
  keys := by
    intro k hk
    rcases Json.mem_keys_insertMember.mp hk with rfl | hold
    · exact List.mem_append_right _ (List.mem_singleton_self k)
    · exact List.mem_append_left _ (h.keys hold)

/-- The next key of an object. -/
theorem honest_nextKey {values bytes : Nat} {nodes : List (Json × Nat)} {node : Json × Nat}
    {object : List (String × Json)} {before after : List String} {key : String} {s : DecodeState}
    (hnode : node ∈ nodes) (hword : node.1.keys.length < 2 ^ 64) (htaken : TakenIn object before)
    (hkeys : node.1.keys = before ++ key :: after) (htexts : node.1.texts = node.1.keys)
    (hbytes : s.totalStringBytes + len key ≤ bytes + Json.textBytes nodes) :
    Honest limits values bytes nodes (nextKey limits object s key) := by
  have hlength := htaken.length
  have hmem : key ∈ node.1.texts := by
    rw [htexts, hkeys]
    exact List.mem_append_right _ List.mem_cons_self
  refine (honest_checkMember hnode ?_ hword).bind fun _ _ => ?_
  · rw [hkeys, List.length_append, List.length_cons]
    omega
  · refine (honest_accountString hnode hmem hbytes).bind fun _ _ => ?_
    refine (honest_rejectIf fun hdup => ?_).bind fun _ _ => honest_ok
    show ∃ node ∈ nodes, ¬ node.1.keys.Nodup
    refine ⟨node, hnode, fun hnodup => ?_⟩
    rw [hkeys] at hnodup
    exact List.disjoint_of_nodup_append hnodup (htaken.keys hdup) List.mem_cons_self

theorem honest_visitMap (hmax : limits.maxDepth.toNat < 2 ^ 64 - 1) {room depth values bytes : Nat}
    {nodes : List (Json × Nat)} {node : Json × Nat} (hnode : node ∈ nodes)
    (hword : node.1.keys.length < 2 ^ 64) (htexts : node.1.texts = node.1.keys)
    (hdepth : depth ≤ limits.maxDepth.toNat) (hroom : limits.maxDepth.toNat < depth + 1 + room)
    {members : List (List UInt8 × Syntax)}
    (hmembers : ∀ member ∈ members, HonestAbout decode limits member.2) :
    ∀ {object : List (String × Json)} {before : List String} {s : DecodeState}
      {trees : List (String × Json)}, Syntax.decodedMembers decode members = some trees →
      (∀ n ∈ (Syntax.object members).literals, IsSafe n) → Within limits s →
      TakenIn object before → node.1.keys = before ++ trees.map Prod.fst →
      (∀ member ∈ trees, member.2.valueCount < 2 ^ 64) →
      Json.nodesOfMembers (depth + 1) trees ⊆ nodes →
      s.values + (Json.nodesOfMembers (depth + 1) trees).length ≤ values + nodes.length →
      s.totalStringBytes + ((trees.map Prod.fst).map String.utf8ByteSize).sum +
        Json.textBytes (Json.nodesOfMembers (depth + 1) trees) ≤ bytes + Json.textBytes nodes →
        Honest limits values bytes nodes (visitMap limits depth object s (closingOf decode members)
          (readingsOfMembers decode room members)) := by
  have hnext : saturatingAdd depth 1 = depth + 1 := by
    unfold saturatingAdd
    omega
  induction members with
  | nil =>
      intro object before s trees _ _ _ _ _ _ _ _ _
      rw [readingsOfMembers, closingOf, visitMap]
      exact honest_ok
  | cons member members ih =>
      intro object before s trees hdecoded hsafe hs htaken hkeys hwords hsub hvalues hbytes
      obtain ⟨hmember, hrest⟩ := List.forall_mem_cons.mp hmembers
      obtain ⟨key, tree, trees', hkey, htree, htrees', rfl⟩ :=
        Syntax.decodedMembers_cons.mp hdecoded
      obtain ⟨hwordtree, hwordrest⟩ := List.forall_mem_cons.mp hwords
      rw [literals_object_cons, List.forall_mem_append] at hsafe
      rw [Json.nodesOfMembers] at hsub hvalues hbytes
      rw [List.length_append] at hvalues
      rw [Json.textBytes_append, List.map_cons, List.map_cons, List.sum_cons] at hbytes
      rw [List.map_cons] at hkeys
      obtain ⟨hsubtree, hsubrest⟩ := List.append_subset.mp hsub
      rw [readingsOfMembers, closingOf, hkey, Option.elim_some, Option.elim_some,
        visitMap_cons hnext]
      have hlen : s.totalStringBytes + len key ≤ bytes + Json.textBytes nodes := by
        show s.totalStringBytes + key.utf8ByteSize ≤ _
        dsimp only at hbytes
        omega
      refine (honest_nextKey hnode hword htaken hkeys htexts hlen).bind fun s₁ hs₁ => ?_
      obtain ⟨-, hfresh, -, rfl, hwithin⟩ := (nextKey_eq_ok hs).mp hs₁
      have hcountkey : (s.add 0 (len key)).values ≤ s.values + 0 := saturatingAdd_le_add _ _
      have hcountbytes : (s.add 0 (len key)).totalStringBytes ≤ s.totalStringBytes + len key :=
        saturatingAdd_le_add _ _
      have hhonest := @hmember room (depth + 1) (s.add 0 (len key)) tree htree hsafe.1 hroom hwithin
        hwordtree
      have hlenkey : len key = key.utf8ByteSize := rfl
      dsimp only at hvalues hbytes hsubtree
      refine (hhonest.mono hsubtree (by omega) (by omega)).bind fun r hr => ?_
      obtain ⟨hcounted, hcountedbytes, hwithin'⟩ := valueSeed_counts hmax htree hsafe.1 hwithin hr
      rw [← Json.length_nodes tree (depth + 1)] at hcounted
      rw [← Json.textBytes_nodes tree (depth + 1)] at hcountedbytes
      dsimp only at hcounted hcountedbytes
      exact ih hrest htrees' hsafe.2 hwithin' (htaken.insert hfresh)
        (by rw [hkeys, List.append_assoc]; rfl) hwordrest hsubrest (by omega) (by omega)

/-- A value that is entered is the first of its own nodes. -/
theorem honest_valueSeed {depth : Nat} {s : DecodeState} {tree : Json} {reading : Reading}
    (hs : Within limits s)
    (h : depth ≤ limits.maxDepth.toNat → Within limits (s.add 1 0) →
      Honest limits s.values s.totalStringBytes (tree.nodes depth)
        (visit limits depth (s.add 1 0) reading)) :
    Honest limits s.values s.totalStringBytes (tree.nodes depth)
      (valueSeed limits depth s reading) := by
  have hhead : (tree, depth) ∈ tree.nodes depth := by
    cases tree <;> exact List.mem_cons_self
  have hcount : 1 ≤ (tree.nodes depth).length := List.length_pos_of_mem hhead
  refine (honest_enterValue hhead (Nat.add_le_add_left hcount s.values)).bind fun s' hs' => ?_
  obtain ⟨hdepth, rfl, hwithin⟩ := (enterValue_eq_ok hs).mp hs'
  exact h hdepth hwithin

/-- A value that a whole tree stands for is smaller than the container around it. -/
theorem valueCount_item {trees : List Json} {tree : Json} (h : tree ∈ trees) :
    tree.valueCount ≤ (Json.array trees).valueCount := by
  rw [Json.valueCount_array]
  exact Nat.le_add_left_of_le (List.single_le_sum (fun _ _ => Nat.zero_le _) _
    (List.mem_map_of_mem h))

theorem valueCount_member {trees : List (String × Json)} {member : String × Json}
    (h : member ∈ trees) : member.2.valueCount ≤ (Json.object trees).valueCount := by
  rw [Json.valueCount_object]
  exact Nat.le_add_left_of_le (List.single_le_sum (fun _ _ => Nat.zero_le _) _
    (List.mem_map_of_mem h))

/-- Each item of an array is a value, and each member of an object. -/
theorem itemCount_le (tree : Json) : tree.itemCount ≤ tree.valueCount := by
  cases tree with
  | array items =>
      have hone : ∀ n ∈ items.map Json.valueCount, 1 ≤ n := by
        intro n hn
        obtain ⟨item, -, rfl⟩ := List.mem_map.mp hn
        cases item <;> exact Nat.succ_pos _
      have hsum := List.card_nsmul_le_sum _ 1 hone
      rw [Json.valueCount_array]
      simp only [List.length_map, smul_eq_mul, mul_one] at hsum
      exact Nat.le_add_left_of_le hsum
  | null => exact Nat.zero_le _
  | bool _ => exact Nat.zero_le _
  | number _ => exact Nat.zero_le _
  | string _ => exact Nat.zero_le _
  | object _ => exact Nat.zero_le _

theorem keys_length_le (tree : Json) : tree.keys.length ≤ tree.valueCount := by
  cases tree with
  | object members =>
      have hone : ∀ n ∈ members.map fun member => member.2.valueCount, 1 ≤ n := by
        intro n hn
        obtain ⟨⟨key, item⟩, -, rfl⟩ := List.mem_map.mp hn
        cases item <;> exact Nat.succ_pos _
      have hsum := List.card_nsmul_le_sum _ 1 hone
      rw [Json.valueCount_object, Json.keys, List.length_map]
      simp only [List.length_map, smul_eq_mul, mul_one] at hsum
      exact Nat.le_add_left_of_le hsum
  | null => exact Nat.zero_le _
  | bool _ => exact Nat.zero_le _
  | number _ => exact Nat.zero_le _
  | string _ => exact Nat.zero_le _
  | array _ => exact Nat.zero_le _

/-- A value that passes every visitor. -/
theorem honest_of_visit {depth : Nat} {s : DecodeState} {tree : Json} {reading : Reading}
    {r : Json × DecodeState} (hs : Within limits s)
    (h : visit limits depth (s.add 1 0) reading = .ok r) :
    Honest limits s.values s.totalStringBytes (tree.nodes depth)
      (valueSeed limits depth s reading) := by
  refine honest_valueSeed hs fun _ _ => ?_
  rw [h]
  exact honest_ok

/-- A safe integer passes. -/
theorem visit_literal {depth : Nat} {s : DecodeState} {n : NumberLiteral} (hn : IsSafe n) :
    visit limits depth s (readingOfLiteral n) = .ok (.number n.value, s) := by
  have htree := tree_readingOfLiteral hn
  cases hreading : readingOfLiteral n with
  | u64 value =>
      rw [hreading, Reading.tree, Option.ite_none_right_eq_some] at htree
      rw [visit, visitU64, rejectIf_neg (Nat.not_lt.mpr htree.1), ← Option.some.inj htree.2]
      rfl
  | i64 value =>
      rw [hreading, Reading.tree, Option.ite_none_right_eq_some] at htree
      rw [visit, visitI64, rejectIf_neg (Nat.not_lt.mpr htree.1), ← Option.some.inj htree.2]
      rfl
  | f64 negativeZero =>
      rw [hreading, Reading.tree, Option.ite_none_right_eq_some] at htree
      rw [visit, visitF64, if_pos htree.1, ← Option.some.inj htree.2]
      rfl
  | null => simp [hreading, Reading.tree] at htree
  | bool _ => simp [hreading, Reading.tree] at htree
  | string _ => simp [hreading, Reading.tree] at htree
  | broken => simp [hreading, Reading.tree] at htree
  | array items closed =>
      rw [hreading, Reading.tree, Option.ite_none_right_eq_some] at htree
      obtain ⟨_, -, h⟩ := Option.map_eq_some_iff.mp htree.2
      cases h
  | object members closing =>
      rw [hreading, Reading.tree, Option.ite_none_right_eq_some] at htree
      obtain ⟨_, -, h⟩ := Option.map_eq_some_iff.mp htree.2
      cases h

theorem honestAbout (hmax : limits.maxDepth.toNat < 2 ^ 64 - 1) (value : Syntax) :
    HonestAbout decode limits value := by
  induction value using Syntax.inductionOn with
  | null => exact fun _ _ _ hs _ => honest_of_visit hs rfl
  | bool b => exact fun _ _ _ hs _ => honest_of_visit hs rfl
  | number n =>
      intro room depth s tree _ hsafe _ hs _
      exact honest_of_visit hs (visit_literal (hsafe n (List.mem_singleton_self n)))
  | string body =>
      intro room depth s tree htree _ _ hs _
      rw [Syntax.decoded] at htree
      obtain ⟨text, htext, rfl⟩ := Option.map_eq_some_iff.mp htree
      rw [readingOf, htext]
      refine honest_valueSeed hs fun _ _ => ?_
      have hbytes : (s.add 1 0).totalStringBytes ≤ s.totalStringBytes + 0 := saturatingAdd_le_add _ _
      have hnode : (Json.string text, depth) ∈ (Json.string text).nodes depth := List.mem_cons_self
      have hstring : Json.textBytes ((Json.string text).nodes depth) = len text := by
        simp [Json.nodes, Json.textBytes, Json.texts, len]
      apply Honest.map
      apply honest_accountString hnode (List.mem_singleton_self text)
      rw [hstring]
      omega
  | array items ih =>
      intro room depth s tree htree hsafe hroom hs hword
      rw [Syntax.decoded] at htree
      obtain ⟨trees, htrees, rfl⟩ := Option.map_eq_some_iff.mp htree
      refine honest_valueSeed hs fun hdepth hwithin => ?_
      have hne : room ≠ 0 := by omega
      have hvalues : (s.add 1 0).values ≤ s.values + 1 := saturatingAdd_le_add _ _
      have hbytes : (s.add 1 0).totalStringBytes ≤ s.totalStringBytes + 0 := saturatingAdd_le_add _ _
      have hitems : (Json.array trees).itemCount < 2 ^ 64 := (itemCount_le _).trans_lt hword
      have hnode : (Json.array trees, depth) ∈ (Json.array trees).nodes depth := List.mem_cons_self
      rw [readingOf, if_neg hne, visit]
      apply Honest.map
      apply honest_visitSeq hmax hnode hitems hdepth (by omega) ih htrees hsafe hwithin
        (Nat.zero_add _) (fun tree hmem => (valueCount_item hmem).trans_lt hword)
        (List.subset_cons_self _ _)
      · rw [Json.nodes, List.length_cons]
        omega
      · rw [Json.nodes, Json.textBytes_cons]
        omega
  | object members ih =>
      intro room depth s tree htree hsafe hroom hs hword
      rw [Syntax.decoded] at htree
      obtain ⟨trees, htrees, rfl⟩ := Option.map_eq_some_iff.mp htree
      refine honest_valueSeed hs fun hdepth hwithin => ?_
      have hne : room ≠ 0 := by omega
      have hvalues : (s.add 1 0).values ≤ s.values + 1 := saturatingAdd_le_add _ _
      have hbytes : (s.add 1 0).totalStringBytes ≤ s.totalStringBytes + 0 := saturatingAdd_le_add _ _
      have hkeys : (Json.object trees).keys.length < 2 ^ 64 := (keys_length_le _).trans_lt hword
      have hnode : (Json.object trees, depth) ∈ (Json.object trees).nodes depth :=
        List.mem_cons_self
      have htaken : TakenIn ([] : List (String × Json)) [] :=
        ⟨Nat.le_refl _, List.nil_subset _⟩
      rw [readingOf, if_neg hne, visit]
      apply Honest.map
      apply honest_visitMap hmax hnode hkeys rfl hdepth (by omega) ih htrees hsafe hwithin htaken rfl
        (fun member hmem => (valueCount_member hmem).trans_lt hword) (List.subset_cons_self _ _)
      · rw [Json.nodes, List.length_cons]
        omega
      · rw [Json.nodes, Json.textBytes_cons]
        show _ ≤ _ + (((trees.map Prod.fst).map String.utf8ByteSize).sum + _)
        omega

end Values

/-! ### Texts -/

section Texts

variable {reader : Reader} {text : List UInt8} {value : Syntax} {tree : Json} {limits : Limits}
  {error : CodecError}

/-- A failed run on a text of safe integers was refused by a visitor. -/
theorem decodeValue_eq_error (htext : IsText text value) (hread : reader.Faithful text value)
    (hdecoded : value.decoded reader.decode = some tree) (hsafe : ∀ n ∈ value.literals, IsSafe n)
    (hdepth : limits.maxDepth.toNat ≤ maxJsonDepth) (hword : text.length < 2 ^ 64)
    (herror : decodeValue reader text limits = .error error) :
    ∃ failure : DecodeFailure, error = failure.intoError ∧
      Refused limits 0 0 (tree.nodes 1) failure := by
  have hmax : limits.maxDepth.toNat < 2 ^ 64 - 1 := Nat.lt_of_le_of_lt hdepth (by decide)
  have hroom : limits.maxDepth.toNat < 1 + readerRoom := Nat.lt_of_le_of_lt hdepth (by decide)
  have hscan : classifyNumbers text = .ok () := by
    rw [classifyNumbers_text htext]
    exact checkLiterals_ok.mpr hsafe
  have hcount : tree.valueCount < 2 ^ 64 := by
    obtain ⟨bs, bs', hbefore, hvalue, -⟩ := htext
    obtain ⟨hvalues, -⟩ := hvalue.size hread.decode_le hdecoded
    have hlength := hbefore.length_le
    rw [Nonterminal.containers] at hvalues
    omega
  have hhonest := @honestAbout reader.decode limits hmax value readerRoom 1 .new tree hdecoded hsafe
    hroom within_new hcount
  unfold decodeValue at herror
  dsimp only at herror
  rw [hscan, hread.value, hread.trailing] at herror
  rcases bind_eq_error herror with hok | ⟨_, -, herror⟩
  · cases hok
  rcases bind_eq_error herror with hseed | ⟨r, -, herror⟩
  · obtain ⟨failure, hfailure, rfl⟩ := mapError_eq_error.mp hseed
    obtain ⟨failure, rfl, hrefused⟩ := hhonest _ hfailure
    exact ⟨failure, rfl, hrefused⟩
  · cases herror

/-- On a text of safe integers the decoder refuses for a repeated key or a
budget only, and what it reports is so: an object repeats a key, or the value
reaches the number reported, which is above the ceiling reported, which is the
configured one. -/
theorem refusal_names_fault (htext : IsText text value) (hread : reader.Faithful text value)
    (hdecoded : value.decoded reader.decode = some tree) (hsafe : ∀ n ∈ value.literals, IsSafe n)
    (hdepth : limits.maxDepth.toNat ≤ maxJsonDepth) (hword : text.length < 2 ^ 64)
    (herror : decodeValue reader text limits = .error error) :
    error = .duplicateKey ∧ ¬ tree.DistinctKeys ∨
      ∃ resource observed, error = .resourceLimit resource (ceiling limits resource) observed ∧
        ceiling limits resource < observed ∧ Reaches 0 0 (tree.nodes 1) observed resource := by
  obtain ⟨failure, rfl, hrefused⟩ :=
    decodeValue_eq_error htext hread hdecoded hsafe hdepth hword herror
  cases failure with
  | duplicateKey =>
      obtain ⟨node, hnode, hkeys⟩ := hrefused
      exact .inl ⟨rfl, fun hdistinct => hkeys (hdistinct node hnode)⟩
  | nonIntegerNumber => exact False.elim hrefused
  | unsafeInteger => exact False.elim hrefused
  | resourceLimit resource maximum observed =>
      obtain ⟨rfl, hover, hreaches⟩ := hrefused
      exact .inr ⟨resource, observed, rfl, hover, hreaches⟩

end Texts

namespace Sample

/-- Limits that allow a container in a container, and nothing in it. -/
def shallow : Limits := { Limits.default with maxDepth := 2 }

theorem nestedValue_decoded : nestedValue.decoded reader.decode = some nestedTree := by
  rw [nestedValue, Syntax.decoded, Syntax.decodedMembers, decode_key]
  rfl

theorem nestedValue_safe : ∀ n ∈ nestedValue.literals, IsSafe n :=
  List.forall_mem_singleton.mpr ⟨rfl, by decide⟩

theorem nestedText_refused : ∃ error, decodeValue reader nestedText shallow = .error error := by
  cases hrun : decodeValue reader nestedText shallow with
  | error error => exact ⟨error, rfl⟩
  | ok json =>
      obtain ⟨-, hfits, -⟩ := (decodeValue_eq_ok nestedText_isText reader_faithful
        nestedValue_decoded nestedValue_safe (by decide)).mp hrun
      have hlow : (Json.number 0, 3) ∈ nestedTree.nodes 1 := by
        rw [nestedTree_nodes]
        simp
      exact absurd (hfits _ hlow).depth (by decide)

theorem nestedTree_distinctKeys : nestedTree.DistinctKeys := by
  rw [Json.DistinctKeys, nestedTree_nodes]
  simp [nestedTree, Json.keys]

/-- Of all ceilings only that of the depth is passed. -/
theorem nestedTree_reaches {resource : CodecResource} {observed : Nat}
    (hover : ceiling shallow resource < observed)
    (h : Reaches 0 0 (nestedTree.nodes 1) observed resource) :
    resource = .jsonDepth ∧ observed = 3 := by
  have hbytes : Json.textBytes (nestedTree.nodes 1) = 1 := by
    show nestedTree.stringBytes = 1
    rw [nestedTree, Json.stringBytes_object]
    exact len_nestedKey
  rw [nestedTree_nodes] at h hbytes
  cases resource with
  | lineBytes => exact False.elim h
  | jsonDepth =>
      obtain ⟨node, hnode, rfl⟩ := h
      simp only [List.mem_cons, List.not_mem_nil, or_false] at hnode
      rcases hnode with rfl | rfl | rfl
      · exact absurd hover (by decide)
      · exact absurd hover (by decide)
      · exact ⟨rfl, rfl⟩
  | jsonValues => exact absurd (hover.trans_le h) (by decide)
  | stringBytes =>
      obtain ⟨node, hnode, text, htext, rfl⟩ := h
      simp only [List.mem_cons, List.not_mem_nil, or_false] at hnode
      rcases hnode with rfl | rfl | rfl
      · obtain rfl : text = nestedKey := List.mem_singleton.mp htext
        rw [len_nestedKey] at hover
        exact absurd hover (by decide)
      · cases htext
      · cases htext
  | totalStringBytes =>
      have hle : observed ≤ 0 + Json.textBytes _ := h
      rw [hbytes] at hle
      exact absurd (hover.trans_le hle) (by decide)
  | arrayItems =>
      obtain ⟨node, hnode, hle⟩ := h
      simp only [List.mem_cons, List.not_mem_nil, or_false] at hnode
      rcases hnode with rfl | rfl | rfl
      · exact absurd (hover.trans_le hle) (by decide)
      · exact absurd (hover.trans_le hle) (by decide)
      · exact absurd (hover.trans_le hle) (by decide)
  | objectMembers =>
      obtain ⟨node, hnode, hle⟩ := h
      simp only [List.mem_cons, List.not_mem_nil, or_false] at hnode
      rcases hnode with rfl | rfl | rfl
      · exact absurd (hover.trans_le hle) (by decide)
      · exact absurd (hover.trans_le hle) (by decide)
      · exact absurd (hover.trans_le hle) (by decide)

end Sample

/-- The law at a number three levels down, where two are allowed: the depth is
what is refused, with the level that was reached. -/
theorem refusal_names_fault_nested :
    decodeValue Sample.reader Sample.nestedText Sample.shallow =
      .error (.resourceLimit .jsonDepth 2 3) := by
  obtain ⟨error, herror⟩ := Sample.nestedText_refused
  rcases refusal_names_fault Sample.nestedText_isText Sample.reader_faithful
    Sample.nestedValue_decoded Sample.nestedValue_safe (by decide) (by decide) herror with
    ⟨-, hrepeats⟩ | ⟨resource, observed, rfl, hover, hreaches⟩
  · exact absurd Sample.nestedTree_distinctKeys hrepeats
  · obtain ⟨rfl, rfl⟩ := Sample.nestedTree_reaches hover hreaches
    exact herror

end KvCrucible
