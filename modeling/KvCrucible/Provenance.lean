/-
KvCrucible/Provenance.lean

Reading a record invents nothing.

Every string, key, inert value and token count of a record that was read comes
from one of its own in the tree.  A reader gives what it counts to the values
it was handed (`Gives`); a struct hands its fields to different children of the
value, so that what several fields give is never taken from the same child
(`fieldsOf_subperm`).

With that, the budgets of the decoder rule out those of validation for lines
that are decoded by the derived conversion.
-/
import KvCrucible.Schema
import KvCrucible.TypedBudgets

namespace KvCrucible

open Basis

/-! ### What is drawn from where -/

/-- Supplies and token counts drawn from strings and nodes. -/
structure Supplied (supplies : List Supply) (counts : List UInt64) (strings : List String)
    (pool : List (Json × Nat)) : Prop where
  texts : (supplies.filterMap Supply.text?).Subperm strings
  nodes : ∃ raw : List (Json × Nat), raw.Subperm pool ∧
    List.Forall₂ Drawn (supplies.filterMap Supply.node?) raw
  counts : ∀ count ∈ counts, ∃ node ∈ pool, node.1 = .number count.toNat

section Supplied

variable {supplies supplies' : List Supply} {counts counts' : List UInt64}
  {strings strings' : List String} {pool pool' : List (Json × Nat)}

theorem supplied_nil : Supplied [] [] strings pool where
  texts := List.nil_subperm
  nodes := ⟨[], List.nil_subperm, .nil⟩
  counts := List.forall_mem_nil _

theorem Supplied.append (h : Supplied supplies counts strings pool)
    (h' : Supplied supplies' counts' strings' pool') :
    Supplied (supplies ++ supplies') (counts ++ counts') (strings ++ strings') (pool ++ pool') where
  texts := by
    rw [List.filterMap_append]
    exact h.texts.append h'.texts
  nodes := by
    obtain ⟨raw, hraw, hdrawn⟩ := h.nodes
    obtain ⟨raw', hraw', hdrawn'⟩ := h'.nodes
    rw [List.filterMap_append]
    exact ⟨raw ++ raw', hraw.append hraw', List.rel_append hdrawn hdrawn'⟩
  counts := by
    intro count hcount
    rcases List.mem_append.mp hcount with hcount | hcount
    · obtain ⟨node, hnode, hnumber⟩ := h.counts count hcount
      exact ⟨node, List.mem_append_left _ hnode, hnumber⟩
    · obtain ⟨node, hnode, hnumber⟩ := h'.counts count hcount
      exact ⟨node, List.mem_append_right _ hnode, hnumber⟩

theorem Supplied.mono (h : Supplied supplies counts strings pool)
    (hstrings : strings.Subperm strings')
    (hpool : pool.Subperm pool') : Supplied supplies counts strings' pool' where
  texts := h.texts.trans hstrings
  nodes := by
    obtain ⟨raw, hraw, hdrawn⟩ := h.nodes
    exact ⟨raw, hraw.trans hpool, hdrawn⟩
  counts := by
    intro count hcount
    obtain ⟨node, hnode, hnumber⟩ := h.counts count hcount
    exact ⟨node, hpool.subset hnode, hnumber⟩

end Supplied

/-- The nodes of several values at one depth. -/
def forest (depth : Nat) (jsons : List Json) : List (Json × Nat) :=
  jsons.flatMap fun json => json.nodes depth

/-- What several values at one depth give. -/
def Gives (depth : Nat) (supplies : List Supply) (counts : List UInt64) (jsons : List Json) : Prop :=
  Supplied supplies counts ((forest depth jsons).flatMap fun node => node.1.texts)
    (forest depth jsons)

/-- The items of an array, or the values of the members of an object. -/
def children : Json → List Json
  | .array items => items
  | .object members => members.map Prod.snd
  | _ => []

section Gives

variable {depth : Nat} {supplies supplies' : List Supply} {counts counts' : List UInt64}
  {jsons jsons' : List Json}

theorem subperm_flatMap {α β : Type*} {xs ys : List α} (h : xs.Subperm ys) (f : α → List β) :
    (xs.flatMap f).Subperm (ys.flatMap f) := by
  obtain ⟨zs, hperm, hsub⟩ := h
  exact ⟨zs.flatMap f, hperm.flatMap_right f, hsub.flatMap f⟩

theorem gives_nil : Gives depth [] [] jsons := supplied_nil

theorem Gives.append (h : Gives depth supplies counts jsons)
    (h' : Gives depth supplies' counts' jsons') :
    Gives depth (supplies ++ supplies') (counts ++ counts') (jsons ++ jsons') := by
  unfold Gives forest
  rw [List.flatMap_append, List.flatMap_append]
  exact Supplied.append h h'

theorem Gives.mono (h : Gives depth supplies counts jsons) (hjsons : jsons.Subperm jsons') :
    Gives depth supplies counts jsons' :=
  have hnodes := subperm_flatMap hjsons fun json => json.nodes depth
  Supplied.mono h (subperm_flatMap hnodes fun node => node.1.texts) hnodes

/-- The nodes of a value are the value itself and those of its children. -/
theorem nodes_eq (json : Json) :
    json.nodes depth = (json, depth) :: forest (depth + 1) (children json) := by
  cases json with
  | array items => rw [Json.nodes, Json.nodesOfItems_eq]; rfl
  | object members =>
      rw [Json.nodes, Json.nodesOfMembers_eq, children, forest, List.flatMap_map]
  | null => rfl
  | bool _ => rfl
  | number _ => rfl
  | string _ => rfl

theorem Gives.below {json : Json} (h : Gives (depth + 1) supplies counts (children json)) :
    Gives depth supplies counts [json] := by
  unfold Gives forest
  rw [List.flatMap_singleton, nodes_eq, List.flatMap_cons]
  exact Supplied.mono h (List.sublist_append_right _ _).subperm (List.sublist_cons_self _ _).subperm

end Gives

/-! ### Readers -/

section Readers

variable {α : Type} {read : Json → Option α} {supplies : α → List Supply} {counts : α → List UInt64}

/-- A reader whose values are drawn from the children of what is read. -/
def DrawsBelow (read : Json → Option α) (supplies : α → List Supply)
    (counts : α → List UInt64) : Prop :=
  ∀ ⦃json : Json⦄ ⦃a : α⦄ ⦃depth : Nat⦄, 1 ≤ depth → read json = some a →
    Gives (depth + 1) (supplies a) (counts a) (children json)

/-- A reader whose values are drawn from what is read. -/
def Draws (read : Json → Option α) (supplies : α → List Supply) (counts : α → List UInt64) : Prop :=
  ∀ ⦃json : Json⦄ ⦃a : α⦄ ⦃depth : Nat⦄, 1 ≤ depth → read json = some a →
    Gives depth (supplies a) (counts a) [json]

theorem DrawsBelow.draws (h : DrawsBelow read supplies counts) : Draws read supplies counts :=
  fun _ _ _ hdepth hread => (h hdepth hread).below

/-- Different fields are read from different children. -/
theorem lookup_subperm {members : List (String × Json)} : ∀ {names : List String}, names.Nodup →
    (names.flatMap fun name => (members.lookup name).toList).Subperm (members.map Prod.snd) := by
  induction members with
  | nil =>
      intro names _
      have hempty :
          (names.flatMap fun name => (([] : List (String × Json)).lookup name).toList) = [] :=
        List.flatMap_eq_nil_iff.mpr fun _ _ => rfl
      rw [hempty]
      exact List.nil_subperm
  | cons member members ih =>
      intro names hnames
      obtain ⟨key, value⟩ := member
      have hother : ∀ name, name ≠ key →
          ((key, value) :: members).lookup name = members.lookup name := by
        intro name hname
        rw [List.lookup_cons, beq_eq_false_iff_ne.mpr hname]
      by_cases hkey : key ∈ names
      · have hrest : ∀ name ∈ names.erase key, name ≠ key := by
          rintro name hname rfl
          exact hnames.not_mem_erase hname
        have hperm := (List.perm_cons_erase hkey).flatMap_right fun name =>
          (((key, value) :: members).lookup name).toList
        refine hperm.subperm.trans ?_
        rw [List.flatMap_cons, List.lookup_cons_self, List.map_cons]
        refine (List.subperm_cons value).mpr ?_
        show (List.flatMap _ (names.erase key)).Subperm _
        rw [List.flatMap_congr fun name hname => by rw [hother name (hrest name hname)]]
        exact ih (hnames.erase key)
      · have hrest : ∀ name ∈ names, name ≠ key := by
          rintro name hname rfl
          exact hkey hname
        rw [List.flatMap_congr fun name hname => by rw [hother name (hrest name hname)]]
        exact (ih hnames).trans (List.sublist_cons_self _ _).subperm

theorem fieldsOf_subperm {names fields : List String} {json : Json} {get : String → Option Json}
    (h : fieldsOf names json = some get) (hfields : fields.Nodup) :
    (fields.flatMap fun name => (get name).toList).Subperm (children json) := by
  cases json with
  | object members =>
      obtain ⟨-, rfl⟩ := ite_eq_some h
      exact lookup_subperm hfields
  | array items =>
      obtain ⟨hlength, rfl⟩ := ite_eq_some h
      have hsub := @lookup_subperm (names.zip items) fields hfields
      rw [List.map_snd_zip hlength.le] at hsub
      exact hsub
  | null => cases h
  | bool _ => cases h
  | number _ => cases h
  | string _ => cases h

variable {get : String → Option Json} {name : String} {depth : Nat}

/-- A field gives what it draws to the struct. -/
theorem Gives.ofField {names : List String} {json : Json} {s : List Supply} {c : List UInt64}
    (hget : fieldsOf names json = some get) (h : Gives depth s c (get name).toList) :
    Gives depth s c (children json) := by
  have hfields := fieldsOf_subperm hget (List.nodup_singleton name)
  rw [List.flatMap_singleton] at hfields
  exact h.mono hfields

theorem gives_required (hread : Draws read supplies counts) (hdepth : 1 ≤ depth) {a : α}
    (h : required get name read = some a) :
    Gives depth (supplies a) (counts a) (get name).toList := by
  obtain ⟨json, hget, hvalue⟩ := Option.bind_eq_some_iff.mp h
  rw [hget]
  exact hread hdepth hvalue

theorem gives_present (hread : Draws read supplies counts) (hdepth : 1 ≤ depth) {a : Option α}
    (h : present get name read = some a) :
    Gives depth (a.elim [] supplies) (a.elim [] counts) (get name).toList := by
  unfold present at h
  cases hget : get name with
  | none =>
      rw [hget] at h
      obtain rfl := Option.some.inj h
      exact gives_nil
  | some json =>
      rw [hget] at h
      obtain ⟨value, hvalue, rfl⟩ := Option.map_eq_some_iff.mp h
      exact hread hdepth hvalue

theorem gives_orEmpty {read : Json → Option (List α)} {supplies : List α → List Supply}
    {counts : List α → List UInt64} (hread : Draws read supplies counts) (hdepth : 1 ≤ depth)
    (hsupplies : supplies [] = []) (hcounts : counts [] = []) {as : List α}
    (h : orEmpty get name read = some as) :
    Gives depth (supplies as) (counts as) (get name).toList := by
  unfold orEmpty at h
  cases hget : get name with
  | none =>
      rw [hget] at h
      obtain rfl := Option.some.inj h
      rw [hsupplies, hcounts]
      exact gives_nil
  | some json =>
      rw [hget] at h
      exact hread hdepth h

/-- The items of a list are read one by one. -/
theorem draws_readVec (hread : Draws read supplies counts) :
    DrawsBelow (readVec read) (List.flatMap supplies) (List.flatMap counts) := by
  intro json as depth hdepth h
  cases json with
  | array items =>
      change items.mapM read = some as at h
      show Gives (depth + 1) (as.flatMap supplies) (as.flatMap counts) items
      induction items generalizing as with
      | nil =>
          rw [List.mapM_nil] at h
          obtain rfl := Option.some.inj h
          exact gives_nil
      | cons item items ih =>
          rw [List.mapM_cons] at h
          obtain ⟨a, hitem, h⟩ := Option.bind_eq_some_iff.mp h
          obtain ⟨rest, hrest, h⟩ := Option.bind_eq_some_iff.mp h
          obtain rfl := Option.some.inj h
          rw [List.flatMap_cons, List.flatMap_cons]
          exact (hread (Nat.succ_pos depth) hitem).append (ih hrest)
  | null => cases h
  | bool _ => cases h
  | number _ => cases h
  | string _ => cases h
  | object _ => cases h

/-- What is left beside the tag are some of the children. -/
theorem splitTag_sublist {tag : String} {json value content : Json}
    (h : splitTag tag json = some (value, content)) :
    (children content).Sublist (children json) := by
  cases json with
  | object members =>
      obtain ⟨_, -, heq⟩ := Option.map_eq_some_iff.mp h
      obtain ⟨-, rfl⟩ := Prod.mk.inj heq
      exact List.filter_sublist.map Prod.snd
  | array items =>
      cases items with
      | nil => cases h
      | cons item items =>
          obtain ⟨-, rfl⟩ := Prod.mk.inj (Option.some.inj h)
          exact List.sublist_cons_self _ _
  | null => cases h
  | bool _ => cases h
  | number _ => cases h
  | string _ => cases h

theorem mem_of_lookup {variants : List (String × α)} {label : String} {a : α}
    (h : variants.lookup label = some a) : ∃ variant ∈ variants, variant.2 = a := by
  obtain ⟨front, back, rfl, -⟩ := List.lookup_eq_some_iff.mp h
  exact ⟨(label, a), List.mem_append_right _ List.mem_cons_self, rfl⟩

theorem mem_of_variantOf {variants : List (String × α)} {json : Json} {a : α}
    (h : variantOf variants json = some a) : ∃ variant ∈ variants, variant.2 = a := by
  cases json with
  | string label => exact mem_of_lookup h
  | number index =>
      rw [variantOf, Option.ite_none_right_eq_some] at h
      exact List.mem_map.mp (List.mem_of_getElem? h.2)
  | null => cases h
  | bool _ => cases h
  | array _ => cases h
  | object _ => cases h

/-- An enum whose variants all draw from what is left beside the tag. -/
theorem draws_taggedEnum {tag : String} {variants : List (String × (Json → Option α))}
    (h : ∀ variant ∈ variants, DrawsBelow variant.2 supplies counts) :
    DrawsBelow (taggedEnum tag variants) supplies counts := by
  intro json a depth hdepth hread
  obtain ⟨⟨value, content⟩, hsplit, hread⟩ := Option.bind_eq_some_iff.mp hread
  obtain ⟨read, hvariant, hread⟩ := Option.bind_eq_some_iff.mp hread
  obtain ⟨variant, hmem, rfl⟩ := mem_of_variantOf hvariant
  exact (h variant hmem hdepth hread).mono (splitTag_sublist hsplit).subperm

end Readers

/-! ### Inert values -/

theorem draws_string : Draws readString (fun value => [.text value]) fun _ => [] := by
  intro json value depth _ h
  cases json with
  | string text =>
      obtain rfl := Option.some.inj h
      exact ⟨.refl _, ⟨[], List.nil_subperm, .nil⟩, List.forall_mem_nil _⟩
  | null => cases h
  | bool _ => cases h
  | number _ => cases h
  | array _ => cases h
  | object _ => cases h

/-- A value that is not a container is drawn from one like it. -/
theorem supplied_leaf {value : IrValue} {json : Json} {depth depth' : Nat} (hdepth : depth ≤ depth')
    (hshape : SameShape value json) (hnodes : json.nodes depth' = [(json, depth')])
    {strings : List Supply} (hstrings : strings.filterMap Supply.node? = [])
    (htexts : strings.filterMap Supply.text? = json.texts) :
    Gives depth' (.node value depth :: strings) [] [json] := by
  unfold Gives forest
  rw [List.flatMap_singleton, hnodes, List.flatMap_singleton]
  refine ⟨?_, ⟨[(json, depth')], .refl _, ?_⟩, List.forall_mem_nil _⟩
  · show (strings.filterMap Supply.text?).Subperm _
    rw [htexts]
  · show List.Forall₂ Drawn ((value, depth) :: strings.filterMap Supply.node?) _
    rw [hstrings]
    exact .cons ⟨hdepth, hshape⟩ .nil

/-- An inert value is drawn from its own tree. -/
def Inert (json : Json) : Prop :=
  ∀ {value : IrValue} {depth depth' : Nat}, depth ≤ depth' → IrValue.fromContent json = some value →
    Gives depth' (value.supplies depth) [] [json]

theorem inert_items {items : List Json} (hitems : ∀ item ∈ items, Inert item) :
    ∀ {values : List IrValue} {depth depth' : Nat}, depth ≤ depth' →
      valuesOfItems items = some values → values.length = items.length ∧
        Gives depth' (suppliesOfItems depth values) [] items := by
  induction items with
  | nil =>
      intro values depth depth' _ h
      obtain rfl := Option.some.inj h
      exact ⟨rfl, gives_nil⟩
  | cons item items ih =>
      intro values depth depth' hdepth h
      obtain ⟨hitem, hrest⟩ := List.forall_mem_cons.mp hitems
      rw [valuesOfItems] at h
      obtain ⟨value, hvalue, h⟩ := Option.bind_eq_some_iff.mp h
      obtain ⟨values, hvalues, rfl⟩ := Option.map_eq_some_iff.mp h
      obtain ⟨hlength, hgives⟩ := ih hrest hdepth hvalues
      refine ⟨by rw [List.length_cons, List.length_cons, hlength], ?_⟩
      rw [suppliesOfItems]
      exact (hitem hdepth hvalue).append hgives

theorem inert_members {members : List (String × Json)}
    (hmembers : ∀ member ∈ members, Inert member.2) :
    ∀ {values : List (String × IrValue)} {depth depth' : Nat}, depth ≤ depth' →
      valuesOfMembers members = some values → values.length = members.length ∧
        Supplied (suppliesOfMembers depth values) []
          (members.map Prod.fst ++
            (forest depth' (members.map Prod.snd)).flatMap fun node => node.1.texts)
          (forest depth' (members.map Prod.snd)) := by
  induction members with
  | nil =>
      intro values depth depth' _ h
      obtain rfl := Option.some.inj h
      exact ⟨rfl, supplied_nil⟩
  | cons member members ih =>
      intro values depth depth' hdepth h
      obtain ⟨hmember, hrest⟩ := List.forall_mem_cons.mp hmembers
      rw [valuesOfMembers] at h
      obtain ⟨value, hvalue, h⟩ := Option.bind_eq_some_iff.mp h
      obtain ⟨values, hvalues, rfl⟩ := Option.map_eq_some_iff.mp h
      obtain ⟨hlength, hgives⟩ := ih hrest hdepth hvalues
      refine ⟨by rw [List.length_cons, List.length_cons, hlength], ?_⟩
      have hkey : Supplied [.text member.1] [] [member.1] [] :=
        ⟨.refl _, ⟨[], .refl _, .nil⟩, List.forall_mem_nil _⟩
      rw [suppliesOfMembers]
      refine (hkey.append (Supplied.append (hmember hdepth hvalue) hgives)).mono ?_ ?_
      -- The keys of the object stand before the strings below it.
      · unfold forest
        rw [List.map_cons, List.map_cons, List.flatMap_singleton, List.flatMap_cons,
          List.flatMap_append, List.cons_append, List.cons_append, List.nil_append]
        refine (List.subperm_cons member.1).mpr ?_
        exact (List.perm_append_comm_assoc _ _ _).subperm
      · unfold forest
        rw [List.map_cons, List.flatMap_singleton, List.flatMap_cons]
        exact .refl _

theorem inert (json : Json) : Inert json := by
  induction json using Json.inductionOn with
  | null =>
      intro value depth depth' hdepth h
      obtain rfl := Option.some.inj h
      exact supplied_leaf hdepth .null rfl rfl rfl
  | bool b =>
      intro value depth depth' hdepth h
      obtain rfl := Option.some.inj h
      exact supplied_leaf hdepth (.bool b) rfl rfl rfl
  | number n =>
      intro value depth depth' hdepth h
      rw [IrValue.fromContent, readI64, Option.map_eq_some_iff] at h
      obtain ⟨number, hnumber, rfl⟩ := h
      obtain ⟨hrange, rfl⟩ := ite_eq_some hnumber
      have hself : (Int64.ofInt n).toInt = n := Int64.toInt_ofInt_of_le hrange.1 hrange.2
      have hshape := SameShape.integer (Int64.ofInt n)
      rw [hself] at hshape
      exact supplied_leaf hdepth hshape rfl rfl rfl
  | string s =>
      intro value depth depth' hdepth h
      obtain rfl := Option.some.inj h
      exact supplied_leaf hdepth (.string s) rfl rfl rfl
  | array items ih =>
      intro value depth depth' hdepth h
      rw [IrValue.fromContent] at h
      obtain ⟨values, hvalues, rfl⟩ := Option.map_eq_some_iff.mp h
      obtain ⟨hlength, hgives⟩ := inert_items ih (Nat.succ_le_succ hdepth) hvalues
      have hself : Supplied [.node (.array values) depth] [] [] [(Json.array items, depth')] :=
        ⟨.refl _, ⟨_, .refl _, .cons ⟨hdepth, .array hlength⟩ .nil⟩, List.forall_mem_nil _⟩
      unfold Gives forest
      rw [IrValue.supplies, List.flatMap_singleton, nodes_eq]
      exact hself.append hgives
  | object members ih =>
      intro value depth depth' hdepth h
      rw [IrValue.fromContent] at h
      obtain ⟨values, hvalues, rfl⟩ := Option.map_eq_some_iff.mp h
      obtain ⟨hlength, hgives⟩ := inert_members ih (Nat.succ_le_succ hdepth) hvalues
      have hself : Supplied [.node (.object values) depth] [] [] [(Json.object members, depth')] :=
        ⟨.refl _, ⟨_, .refl _, .cons ⟨hdepth, .object hlength⟩ .nil⟩, List.forall_mem_nil _⟩
      unfold Gives forest
      rw [IrValue.supplies, List.flatMap_singleton, nodes_eq]
      exact hself.append hgives

theorem draws_object : Draws readObject objectSupplies fun _ => [] := by
  intro json members depth hdepth h
  cases json with
  | object raw =>
      have hvalue : IrValue.fromContent (.object raw) = some (.object members) := by
        rw [IrValue.fromContent]
        exact Option.map_eq_some_iff.mpr ⟨members, h, rfl⟩
      exact inert _ hdepth hvalue
  | null => cases h
  | bool _ => cases h
  | number _ => cases h
  | string _ => cases h
  | array _ => cases h

theorem draws_count : Draws readU64 (fun _ => []) fun count => [count] := by
  intro json count depth _ h
  cases json with
  | number n =>
      rw [readU64, readUnsigned, Option.map_eq_some_iff] at h
      obtain ⟨value, hvalue, rfl⟩ := h
      obtain ⟨⟨hpos, hlt⟩, rfl⟩ := ite_eq_some hvalue
      have hself : ((UInt64.ofNat n.toNat).toNat : Int) = n := by
        rw [UInt64.toNat_ofNat_of_lt' hlt, Int.toNat_of_nonneg hpos]
      refine ⟨List.nil_subperm, ⟨[], List.nil_subperm, .nil⟩, List.forall_mem_singleton.mpr ?_⟩
      exact ⟨(.number n, depth), List.mem_cons_self, congrArg Json.number hself.symm⟩
  | null => cases h
  | bool _ => cases h
  | string _ => cases h
  | array _ => cases h
  | object _ => cases h

/-! ### Mutations and actions -/

/-- A unit variant is what it says. -/
theorem unitVariant_eq {α : Type} {value a : α} {json : Json}
    (h : unitVariant value json = some a) : a = value := by
  unfold unitVariant at h
  split at h
  · exact (Option.some.inj h).symm
  · exact (Option.some.inj h).symm
  · cases h

theorem draws_medium : Draws StorageMedium.fromContent StorageMedium.supplies fun _ => [] := by
  apply DrawsBelow.draws
  refine draws_taggedEnum (List.forall_mem_cons.mpr ⟨?_, List.forall_mem_singleton.mpr ?_⟩)
  · intro json medium depth _ h
    simp only [Option.bind_eq_bind, Option.bind_eq_some_iff, Option.pure_def,
      Option.some.injEq] at h
    obtain ⟨get, hget, value, hvalue, rfl⟩ := h
    exact (gives_required draws_string (Nat.succ_pos depth) hvalue).ofField hget
  · intro json medium depth _ h
    obtain rfl := unitVariant_eq h
    exact gives_nil

theorem draws_evidence :
    Draws TokenEvidence.fromContent (fun evidence => evidenceSupplies (some evidence))
      fun _ => [] := by
  apply DrawsBelow.draws
  refine draws_taggedEnum (List.forall_mem_cons.mpr ⟨?_, List.forall_mem_cons.mpr
    ⟨?_, List.forall_mem_singleton.mpr ?_⟩⟩)
  · intro json evidence depth _ h
    simp only [Option.bind_eq_bind, Option.bind_eq_some_iff, Option.pure_def,
      Option.some.injEq] at h
    obtain ⟨get, hget, algorithm, -, keyId, hkey, value, -, rfl⟩ := h
    exact (gives_required draws_string (Nat.succ_pos depth) hkey).ofField hget
  · intro json evidence depth _ h
    simp only [Option.bind_eq_bind, Option.bind_eq_some_iff, Option.pure_def,
      Option.some.injEq] at h
    obtain ⟨get, -, algorithm, -, value, -, rfl⟩ := h
    exact gives_nil
  · intro json evidence depth _ h
    simp only [Option.bind_eq_bind, Option.bind_eq_some_iff, Option.pure_def,
      Option.some.injEq] at h
    obtain ⟨get, -, values, -, rfl⟩ := h
    exact gives_nil

/-- The fields of a run, in the order in which validation counts them. -/
theorem draws_storeRun :
    DrawsBelow StoreRun.fromContent (fun run => (Mutation.storeRun run).supplies)
    fun run => (Mutation.storeRun run).tokenCounts := by
  intro json run depth _ h
  unfold StoreRun.fromContent at h
  simp only [Option.bind_eq_bind, Option.bind_eq_some_iff, Option.pure_def, Option.some.injEq] at h
  obtain ⟨get, hget, hashes, -, lineage, -, tokenCount, hcount, evidence, hevidence, blockSize, -,
    group, -, medium, hmedium, blocks, hblocks, metadata, hmetadata, rfl⟩ := h
  have hdepth := Nat.succ_pos depth
  have hgives := (gives_present draws_count hdepth hcount).append
    ((gives_present draws_evidence hdepth hevidence).append
      ((gives_required draws_medium hdepth hmedium).append
        ((gives_present (draws_readVec draws_object).draws hdepth hblocks).append
          (gives_required draws_object hdepth hmetadata))))
  have hfields := @fieldsOf_subperm _
    ["token_count", "token_evidence", "medium", "block_metadata", "metadata"] _ _ hget (by decide)
  simp only [List.flatMap_cons, List.flatMap_nil, List.append_nil] at hfields
  convert hgives.mono hfields using 1
  · cases tokenCount <;> cases evidence <;> cases blocks <;>
      simp [Mutation.supplies, evidenceSupplies]
  · cases tokenCount <;> cases evidence <;> cases blocks <;> simp [Mutation.tokenCounts]

theorem draws_mutation : Draws Mutation.fromContent Mutation.supplies Mutation.tokenCounts := by
  apply DrawsBelow.draws
  refine draws_taggedEnum (List.forall_mem_cons.mpr ⟨?_, List.forall_mem_cons.mpr
    ⟨?_, List.forall_mem_singleton.mpr ?_⟩⟩)
  · intro json mutation depth hdepth h
    obtain ⟨run, hrun, rfl⟩ := Option.map_eq_some_iff.mp h
    exact draws_storeRun hdepth hrun
  · intro json mutation depth _ h
    simp only [Option.bind_eq_bind, Option.bind_eq_some_iff, Option.pure_def,
      Option.some.injEq] at h
    obtain ⟨get, hget, hashes, -, group, -, medium, hmedium, metadata, hmetadata, rfl⟩ := h
    have hdepth := Nat.succ_pos depth
    have hgives := (gives_required draws_medium hdepth hmedium).append
      (gives_required draws_object hdepth hmetadata)
    have hfields := @fieldsOf_subperm _ ["medium", "metadata"] _ _ hget (by decide)
    simp only [List.flatMap_cons, List.flatMap_nil, List.append_nil] at hfields
    exact hgives.mono hfields
  · intro json mutation depth _ h
    simp only [Option.bind_eq_bind, Option.bind_eq_some_iff, Option.pure_def,
      Option.some.injEq] at h
    obtain ⟨get, hget, metadata, hmetadata, rfl⟩ := h
    exact (gives_required draws_object (Nat.succ_pos depth) hmetadata).ofField hget

theorem draws_delivery : Draws DeliveryRef.fromContent
    (fun delivery => [.text delivery.envelopeId]) fun _ => [] := by
  apply DrawsBelow.draws
  intro json delivery depth _ h
  unfold DeliveryRef.fromContent at h
  simp only [Option.bind_eq_bind, Option.bind_eq_some_iff, Option.pure_def, Option.some.injEq] at h
  obtain ⟨get, hget, envelopeId, hid, occurrence, -, rfl⟩ := h
  exact (gives_required draws_string (Nat.succ_pos depth) hid).ofField hget

theorem draws_action : Draws FaultAction.fromContent FaultAction.supplies fun _ => [] := by
  apply DrawsBelow.draws
  refine draws_taggedEnum (List.forall_mem_cons.mpr ⟨?_, List.forall_mem_cons.mpr
    ⟨?_, List.forall_mem_singleton.mpr ?_⟩⟩)
  · intro json action depth _ h
    simp only [Option.bind_eq_bind, Option.bind_eq_some_iff, Option.pure_def,
      Option.some.injEq] at h
    obtain ⟨get, hget, target, htarget, rfl⟩ := h
    exact (gives_required draws_delivery (Nat.succ_pos depth) htarget).ofField hget
  · intro json action depth _ h
    simp only [Option.bind_eq_bind, Option.bind_eq_some_iff, Option.pure_def,
      Option.some.injEq] at h
    obtain ⟨get, hget, target, htarget, copies, -, rfl⟩ := h
    exact (gives_required draws_delivery (Nat.succ_pos depth) htarget).ofField hget
  · intro json action depth _ h
    simp only [Option.bind_eq_bind, Option.bind_eq_some_iff, Option.pure_def,
      Option.some.injEq] at h
    obtain ⟨get, hget, target, htarget, anchor, hanchor, rfl⟩ := h
    have hdepth := Nat.succ_pos depth
    have hgives := (gives_required draws_delivery hdepth htarget).append
      (gives_required draws_delivery hdepth hanchor)
    have hfields := @fieldsOf_subperm _ ["target", "anchor"] _ _ hget (by decide)
    simp only [List.flatMap_cons, List.flatMap_nil, List.append_nil] at hfields
    exact hgives.mono hfields

/-! ### Records -/

theorem draws_header : DrawsBelow TraceHeader.fromContent
    (fun header => (Record.traceHeader header).supplies) fun _ => [] := by
  intro json header depth _ h
  unfold TraceHeader.fromContent at h
  simp only [Option.bind_eq_bind, Option.bind_eq_some_iff, Option.pure_def, Option.some.injEq] at h
  obtain ⟨get, hget, format, -, traceId, htrace, redaction, -, createdBy, hcreated, extensions,
    hextensions, rfl⟩ := h
  have hdepth := Nat.succ_pos depth
  have hgives := (gives_required draws_string hdepth htrace).append
    ((gives_required draws_string hdepth hcreated).append
      (gives_required draws_object hdepth hextensions))
  have hfields := @fieldsOf_subperm _ ["trace_id", "created_by", "extensions"] _ _ hget (by decide)
  simp only [List.flatMap_cons, List.flatMap_nil, List.append_nil] at hfields
  exact hgives.mono hfields

theorem draws_stream : DrawsBelow StreamDeclaration.fromContent
    (fun declaration => (Record.stream declaration).supplies) fun _ => [] := by
  intro json declaration depth _ h
  unfold StreamDeclaration.fromContent at h
  simp only [Option.bind_eq_bind, Option.bind_eq_some_iff, Option.pure_def, Option.some.injEq] at h
  obtain ⟨get, hget, streamId, hid, engine, hengine, version, hversion, instance_, hinstance,
    publisher, hpublisher, rank, -, epoch, hepoch, cursor, -, baseline, -, workers, hworkers,
    extensions, hextensions, rfl⟩ := h
  have hdepth := Nat.succ_pos depth
  have hworkers := gives_orEmpty (draws_readVec draws_string).draws hdepth rfl rfl hworkers
  have hcounts : workers.flatMap (fun _ => ([] : List UInt64)) = [] :=
    List.flatMap_eq_nil_iff.mpr fun _ _ => rfl
  rw [hcounts] at hworkers
  have hgives := (gives_required draws_string hdepth hid).append
    ((gives_required draws_string hdepth hengine).append
      ((gives_required draws_string hdepth hversion).append
        ((gives_required draws_string hdepth hinstance).append
          ((gives_required draws_string hdepth hpublisher).append
            ((gives_required draws_string hdepth hepoch).append
              (hworkers.append (gives_required draws_object hdepth hextensions)))))))
  have hfields := @fieldsOf_subperm _ ["stream_id", "engine", "engine_version", "engine_instance",
    "publisher", "epoch", "worker_metadata", "extensions"] _ _ hget (by decide)
  simp only [List.flatMap_cons, List.flatMap_nil, List.append_nil] at hfields
  exact hgives.mono hfields

theorem draws_envelope : DrawsBelow EventEnvelope.fromContent
    (fun source => (Record.envelope source).supplies)
    fun source => (Record.envelope source).tokenCounts := by
  intro json source depth _ h
  unfold EventEnvelope.fromContent at h
  simp only [Option.bind_eq_bind, Option.bind_eq_some_iff, Option.pure_def, Option.some.injEq] at h
  obtain ⟨get, hget, envelopeId, hid, streamId, hstream, cursor, -, origin, -, mutations, hmutations,
    extensions, hextensions, rfl⟩ := h
  have hdepth := Nat.succ_pos depth
  have hgives := (gives_required draws_string hdepth hid).append
    ((gives_required draws_string hdepth hstream).append
      ((gives_required (draws_readVec draws_mutation).draws hdepth hmutations).append
        (gives_required draws_object hdepth hextensions)))
  have hfields := @fieldsOf_subperm _ ["envelope_id", "stream_id", "mutations", "extensions"] _ _
    hget (by decide)
  simp only [List.flatMap_cons, List.flatMap_nil, List.append_nil] at hfields hgives
  exact hgives.mono hfields

theorem draws_schedule : DrawsBelow FaultSchedule.fromContent
    (fun schedule => (Record.faultSchedule schedule).supplies) fun _ => [] := by
  intro json schedule depth _ h
  unfold FaultSchedule.fromContent at h
  simp only [Option.bind_eq_bind, Option.bind_eq_some_iff, Option.pure_def, Option.some.injEq] at h
  obtain ⟨get, hget, scheduleId, hid, actions, hactions, extensions, hextensions, rfl⟩ := h
  have hdepth := Nat.succ_pos depth
  have hactions := gives_required (draws_readVec draws_action).draws hdepth hactions
  have hcounts : actions.flatMap (fun _ => ([] : List UInt64)) = [] :=
    List.flatMap_eq_nil_iff.mpr fun _ _ => rfl
  rw [hcounts] at hactions
  have hgives := (gives_required draws_string hdepth hid).append
    (hactions.append (gives_required draws_object hdepth hextensions))
  have hfields := @fieldsOf_subperm _ ["schedule_id", "actions", "extensions"] _ _ hget (by decide)
  simp only [List.flatMap_cons, List.flatMap_nil, List.append_nil] at hfields
  exact hgives.mono hfields

theorem mem_of_labelled {α : Type} {variants : List (String × α)} {json : Json} {a : α}
    (h : labelled variants json = some a) : ∃ variant ∈ variants, variant.2 = a := by
  cases json with
  | string label => exact mem_of_lookup h
  | null => cases h
  | bool _ => cases h
  | number _ => cases h
  | array _ => cases h
  | object _ => cases h

/-- Every variant of a record draws from what is left beside the tag. -/
theorem draws_variants {variant : String × (Json → Option Record)} (h : variant ∈ Record.variants) :
    DrawsBelow variant.2 Record.supplies Record.tokenCounts := by
  simp only [Record.variants, List.mem_cons, List.not_mem_nil, or_false] at h
  intro json record depth hdepth hread
  rcases h with rfl | rfl | rfl | rfl
  · obtain ⟨header, hheader, rfl⟩ := Option.map_eq_some_iff.mp hread
    exact draws_header hdepth hheader
  · obtain ⟨declaration, hdeclaration, rfl⟩ := Option.map_eq_some_iff.mp hread
    exact draws_stream hdepth hdeclaration
  · obtain ⟨source, hsource, rfl⟩ := Option.map_eq_some_iff.mp hread
    exact draws_envelope hdepth hsource
  · obtain ⟨schedule, hschedule, rfl⟩ := Option.map_eq_some_iff.mp hread
    exact draws_schedule hdepth hschedule

/-- Reading a record invents nothing. -/
theorem drawnFrom_fromValue {json : Json} {record : Record} (h : fromValue json = some record) :
    record.DrawnFrom json := by
  obtain ⟨⟨value, content⟩, hsplit, hread⟩ := Option.bind_eq_some_iff.mp h
  obtain ⟨read, hvariant, hread⟩ := Option.bind_eq_some_iff.mp hread
  obtain ⟨variant, hmem, rfl⟩ := mem_of_labelled hvariant
  have hgives := (draws_variants hmem (Nat.le_refl 1) hread).mono (splitTag_sublist hsplit).subperm
  have hself := hgives.below
  unfold Gives forest at hself
  rw [List.flatMap_singleton] at hself
  exact ⟨hself.texts, hself.nodes, hself.counts⟩

/-- Whatever the line is, the record read from its tree takes every string, key,
inert value and token count from the tree, none of them twice; so a line that
is decoded and read is never refused by validation for a budget or an integer
of its JSON. -/
theorem records_invent_nothing :
    (∀ json record, fromValue json = some record → record.DrawnFrom json) ∧
    ∀ (reader : Reader) (limits : Limits) (input : List UInt8) (error : ValidationError),
      decodeLine reader fromValue input limits = .error (.validation error) →
        ¬ JsonBudget error := by
  refine ⟨fun _ _ => drawnFrom_fromValue, fun reader limits input error h => ?_⟩
  obtain ⟨hdepth, payload, json, record, hvalue, hrecord, herror⟩ := decodeLine_validation h
  exact validate_not_jsonBudget (decodedFits hdepth hvalue) (drawnFrom_fromValue hrecord) herror

end KvCrucible
