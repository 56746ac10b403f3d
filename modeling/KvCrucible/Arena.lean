/-
KvCrucible/Arena.lean

A delivery arena represents a list of live occurrences.

The nodes of an arena are never removed; the list is threaded through those
that are live.  `Represents` names the node indices in list order.  Linking
and unlinking are settled for the links alone (`Basis.Links`), as redirected
links of an otherwise unchanged arena; on top of that every operation of the
arena has one lemma that says which list it represents afterwards.
-/
import KvCrucible.Basis.Links
import KvCrucible.Replay
import KvCrucible.Scenario

namespace KvCrucible

open Basis Std

namespace DeliveryArena

/-- The links that the nodes and both ends store. -/
def links (a : DeliveryArena) : Links Nat where
  next
    | none => a.head
    | some index => (a.nodes[index]?).bind DeliveryNode.next
  prev
    | none => a.tail
    | some index => (a.nodes[index]?).bind DeliveryNode.prev

/-- What a node keeps when its links are redirected. -/
def facts (a : DeliveryArena) : List (DeliveryKey × Bool) :=
  a.nodes.map fun node => (node.key, node.live)

variable {a a' : DeliveryArena} {i : Nat} {as bs order : List Nat}

/-! ### Redirecting links -/

/-- The same nodes with other links. -/
structure Relinked (a : DeliveryArena) (L : Links Nat) (a' : DeliveryArena) : Prop where
  links : a'.links = L
  facts : a'.facts = a.facts
  positions : a'.positions = a.positions

theorem Relinked.length {L : Links Nat} (h : Relinked a L a') :
    a'.nodes.length = a.nodes.length := by
  have := congrArg List.length h.facts
  rwa [DeliveryArena.facts, DeliveryArena.facts, List.length_map, List.length_map] at this

theorem Relinked.trans {a'' : DeliveryArena} {L L' : Links Nat} (h : Relinked a L a')
    (h' : Relinked a' L' a'') : Relinked a L' a'' :=
  ⟨h'.links, h'.facts.trans h.facts, h'.positions.trans h.positions⟩

theorem node_ok (hi : i < a.nodes.length) : ∃ node, a.nodes[i]? = some node ∧
    a.node i = .ok node ∧ node.next = a.links.next (some i) ∧ node.prev = a.links.prev (some i) := by
  have hnode : a.nodes[i]? = some a.nodes[i] := List.getElem?_eq_getElem hi
  refine ⟨a.nodes[i], hnode, ?_, ?_, ?_⟩
  · rw [node, hnode]
    rfl
  · simp [links, hnode]
  · simp [links, hnode]

theorem facts_set {node node' : DeliveryNode} (hnode : a.nodes[i]? = some node)
    (hkey : node'.key = node.key) (hlive : node'.live = node.live) :
    (a.nodes.set i node').map (fun node => (node.key, node.live)) = a.facts := by
  obtain ⟨hi, rfl⟩ := List.getElem?_eq_some_iff.mp hnode
  rw [List.map_set, hkey, hlive]
  refine List.ext_getElem? fun j => ?_
  rw [List.getElem?_set]
  split
  next hj =>
    subst hj
    simp [facts, hi]
  next => rfl

theorem setNext_ok (next : Option Nat) (hi : i < a.nodes.length) :
    ∃ a', a.setNext i next = .ok a' ∧ Relinked a (a.links.setNext (some i) next) a' := by
  obtain ⟨node, hnode, hok, -, -⟩ := node_ok hi
  refine ⟨_, bind_ok hok rfl, ?_, facts_set hnode rfl rfl, rfl⟩
  refine Links.ext (funext fun place => ?_) (funext fun place => ?_)
  · cases place with
    | none => simp [links]
    | some j =>
        by_cases hj : i = j
        · subst hj
          simp [links, hi]
        · simp [links, hj, Ne.symm hj]
  · cases place with
    | none => rfl
    | some j =>
        by_cases hj : i = j
        · subst hj
          obtain ⟨-, rfl⟩ := List.getElem?_eq_some_iff.mp hnode
          simp [links, hi]
        · simp [links, hj]

theorem setPrev_ok (previous : Option Nat) (hi : i < a.nodes.length) :
    ∃ a', a.setPrev i previous = .ok a' ∧
      Relinked a (a.links.setPrev (some i) previous) a' := by
  obtain ⟨node, hnode, hok, -, -⟩ := node_ok hi
  refine ⟨_, bind_ok hok rfl, ?_, facts_set hnode rfl rfl, rfl⟩
  refine Links.ext (funext fun place => ?_) (funext fun place => ?_)
  · cases place with
    | none => rfl
    | some j =>
        by_cases hj : i = j
        · subst hj
          obtain ⟨-, rfl⟩ := List.getElem?_eq_some_iff.mp hnode
          simp [links, hi]
        · simp [links, hj]
  · cases place with
    | none => simp [links]
    | some j =>
        by_cases hj : i = j
        · subst hj
          simp [links, hi]
        · simp [links, hj, Ne.symm hj]

theorem linkNext_ok (previous next : Option Nat) (h : ∀ i ∈ previous, i < a.nodes.length) :
    ∃ a', a.linkNext previous next = .ok a' ∧
      Relinked a (a.links.setNext previous next) a' := by
  cases previous with
  | none =>
      refine ⟨_, rfl, Links.ext (funext fun place => ?_) rfl, rfl, rfl⟩
      cases place with
      | none => simp [links]
      | some j => simp [links]
  | some i => exact setNext_ok next (h i rfl)

theorem linkPrev_ok (next previous : Option Nat) (h : ∀ i ∈ next, i < a.nodes.length) :
    ∃ a', a.linkPrev next previous = .ok a' ∧
      Relinked a (a.links.setPrev next previous) a' := by
  cases next with
  | none =>
      refine ⟨_, rfl, Links.ext rfl (funext fun place => ?_), rfl, rfl⟩
      cases place with
      | none => simp [links]
      | some j => simp [links]
  | some i => exact setPrev_ok previous (h i rfl)

/-! ### Linking out and in -/

/-- Unlinking an element of the list. -/
theorem unlink_ok (h : a.links.Threads (as ++ i :: bs))
    (hvalid : ∀ j ∈ as ++ i :: bs, j < a.nodes.length) :
    ∃ a', a.unlink i = .ok a' ∧
      Relinked a (a.links.linkOut as.getLast? i bs.head?) a' := by
  have hi : i < a.nodes.length := hvalid i (by simp)
  have hlast : ∀ j ∈ as.getLast?, j < a.nodes.length := fun j hj =>
    hvalid j (List.mem_append_left _ (List.mem_of_getLast? hj))
  have hhead : ∀ j ∈ bs.head?, j < a.nodes.length := fun j hj =>
    hvalid j (List.mem_append_right _ (List.mem_cons_of_mem _ (List.mem_of_head? hj)))
  obtain ⟨node, -, hnode, hnext, hprev⟩ := node_ok hi
  rw [h.next_eq] at hnext
  rw [h.prev_eq] at hprev
  obtain ⟨a₁, h₁, hr₁⟩ := linkNext_ok as.getLast? bs.head? hlast
  obtain ⟨a₂, h₂, hr₂⟩ := linkPrev_ok bs.head? as.getLast? (hr₁.length ▸ hhead)
  have hlength : a₂.nodes.length = a.nodes.length := hr₂.length.trans hr₁.length
  obtain ⟨a₃, h₃, hr₃⟩ := setPrev_ok none (hlength ▸ hi)
  obtain ⟨a₄, h₄, hr₄⟩ := setNext_ok none (hr₃.length.trans hlength ▸ hi)
  have hr := hr₁.trans (hr₂.trans (hr₃.trans hr₄))
  rw [hr₃.links, hr₂.links, hr₁.links] at hr
  refine ⟨a₄, bind_ok hnode ?_, hr⟩
  rw [hnext, hprev]
  exact bind_ok h₁ <| bind_ok h₂ <| bind_ok h₃ h₄

/-! ### Which list an arena represents -/

/-- Read in order, the nodes are the live occurrences of the list. -/
def Reads (facts : List (DeliveryKey × Bool)) (order : List Nat) (live : List DeliveryKey) : Prop :=
  order.map (facts[·]?) = live.map fun key => some (key, true)

section Reads

variable {facts facts' : List (DeliveryKey × Bool)} {live xs ys : List DeliveryKey}
  {key : DeliveryKey}

theorem Reads.append (h : Reads facts as xs) (h' : Reads facts bs ys) :
    Reads facts (as ++ bs) (xs ++ ys) := by
  unfold Reads at *
  rw [List.map_append, List.map_append, h, h']

theorem Reads.cons (h : facts[i]? = some (key, true)) (h' : Reads facts bs ys) :
    Reads facts (i :: bs) (key :: ys) := by
  unfold Reads at *
  rw [List.map_cons, List.map_cons, h, h']

/-- The nodes around a live occurrence. -/
theorem Reads.split (h : Reads facts order (xs ++ key :: ys)) :
    ∃ as i bs, order = as ++ i :: bs ∧ Reads facts as xs ∧ facts[i]? = some (key, true) ∧
      Reads facts bs ys := by
  unfold Reads at h
  rw [List.map_append, List.map_eq_append_iff] at h
  obtain ⟨as, rest, rfl, has, hrest⟩ := h
  rw [List.map_cons, List.map_eq_cons_iff] at hrest
  obtain ⟨i, bs, rfl, hi, hbs⟩ := hrest
  exact ⟨as, i, bs, rfl, has, hi, hbs⟩

/-- The nodes determine the occurrences. -/
theorem Reads.unique {live' : List DeliveryKey} (h : Reads facts order live)
    (h' : Reads facts order live') : live = live' := by
  have hinjective : Function.Injective fun key : DeliveryKey => some (key, true) :=
    fun _ _ heq => congrArg Prod.fst (Option.some.inj heq)
  exact List.map_injective_iff.mpr hinjective (h.symm.trans h')

theorem Reads.length (h : Reads facts order live) : order.length = live.length := by
  have := congrArg List.length h
  rwa [List.length_map, List.length_map] at this

theorem Reads.congr (h : Reads facts order live) (hfacts : ∀ i ∈ order, facts'[i]? = facts[i]?) :
    Reads facts' order live :=
  (List.map_congr_left hfacts).trans h

theorem Reads.of_mem (h : Reads facts order live) (hi : i ∈ order) :
    ∃ key ∈ live, facts[i]? = some (key, true) := by
  have hmem : facts[i]? ∈ order.map (facts[·]?) := List.mem_map_of_mem hi
  rw [h] at hmem
  obtain ⟨key, hkey, heq⟩ := List.mem_map.mp hmem
  exact ⟨key, hkey, heq.symm⟩

theorem Reads.valid (h : Reads facts order live) (hi : i ∈ order) : i < facts.length := by
  obtain ⟨key, -, hfact⟩ := h.of_mem hi
  exact (List.getElem?_eq_some_iff.mp hfact).1

end Reads

/-- The live nodes of an arena, in list order, and the positions of all. -/
structure Represents (a : DeliveryArena) (order : List Nat) (live : List DeliveryKey) : Prop where
  threads : a.links.Threads order
  nodup : order.Nodup
  reads : Reads a.facts order live
  complete : ∀ (i : Nat) (key : DeliveryKey), a.facts[i]? = some (key, true) → i ∈ order
  positions : ∀ (key : DeliveryKey) (i : Nat), a.positions[key]? = some i ↔
    ∃ flag, a.facts[i]? = some (key, flag)

variable {live xs ys : List DeliveryKey} {key : DeliveryKey}

theorem facts_length : a.facts.length = a.nodes.length := List.length_map _

theorem Represents.valid (h : a.Represents order live) : ∀ i ∈ order, i < a.nodes.length :=
  fun _ hi => facts_length ▸ h.reads.valid hi

theorem represents_empty :
    Represents { nodes := [], positions := ∅, head := none, tail := none } [] [] where
  threads := fun xs ys h => by
    obtain ⟨rfl, rfl⟩ := List.append_eq_nil_iff.mp h.symm
    exact ⟨rfl, rfl⟩
  nodup := List.nodup_nil
  reads := rfl
  complete := fun i key h => by cases h
  positions := fun key i => by simp [facts]

theorem resolveLive_ok (h : a.Represents order live) (hi : a.facts[i]? = some (key, true)) :
    a.resolveLive key = .ok i := by
  have hposition : a.positions[key]? = some i := (h.positions key i).mpr ⟨true, hi⟩
  rw [facts, List.getElem?_map, Option.map_eq_some_iff] at hi
  obtain ⟨node, hnode, hfact⟩ := hi
  have hlive : node.live = true := congrArg Prod.snd hfact
  have hcheck : rejectIf ((a.nodes[i]?).any (·.live) = false)
      (ScenarioFailure.error .materializationInvariant) = .ok () := by
    rw [rejectIf_eq_ok, hnode]
    simp [hlive]
  exact bind_ok (okOr_eq_ok.mpr hposition) <| bind_ok hcheck rfl

theorem setLive_ok (hi : a.facts[i]? = some (key, true)) :
    ∃ a', a.setLive i false = .ok a' ∧ a'.links = a.links ∧
      a'.facts = a.facts.set i (key, false) ∧ a'.positions = a.positions := by
  rw [facts, List.getElem?_map, Option.map_eq_some_iff] at hi
  obtain ⟨node, hnode, hfact⟩ := hi
  have hkey : node.key = key := congrArg Prod.fst hfact
  obtain ⟨hlt, hget⟩ := List.getElem?_eq_some_iff.mp hnode
  have hok : a.node i = .ok node := okOr_eq_ok.mpr hnode
  refine ⟨_, bind_ok hok rfl, ?_, ?_, rfl⟩
  · refine Links.ext (funext fun place => ?_) (funext fun place => ?_)
    all_goals
      cases place with
      | none => rfl
      | some j =>
          by_cases hj : i = j
          · subst hj
            simp [links, hlt, hget]
          · simp [links, hj]
  · simp [facts, List.map_set, hkey]

/-- Dropping an occurrence takes it out of the list. -/
theorem dropDelivery_ok (h : a.Represents order (xs ++ key :: ys)) :
    ∃ order' a', a.dropDelivery key = .ok a' ∧ a'.Represents order' (xs ++ ys) ∧
      a'.positions = a.positions := by
  obtain ⟨as, i, bs, rfl, has, hi, hbs⟩ := h.reads.split
  have hout : i ∉ as ++ bs := (List.nodup_cons.mp (List.nodup_middle.mp h.nodup)).1
  obtain ⟨a₁, h₁, hr₁⟩ := unlink_ok h.threads h.valid
  obtain ⟨a₂, h₂, hlinks, hfacts, hpositions⟩ := setLive_ok (hr₁.facts ▸ hi)
  rw [hr₁.facts] at hfacts
  have hother : ∀ j, i ≠ j → a₂.facts[j]? = a.facts[j]? := fun j hj => by
    rw [hfacts, List.getElem?_set_ne hj]
  have hself : a₂.facts[i]? = some (key, false) := by
    rw [hfacts, List.getElem?_set_self (List.getElem?_eq_some_iff.mp hi).1]
  refine ⟨as ++ bs, a₂, bind_ok (resolveLive_ok h hi) (bind_ok h₁ h₂), ?_,
    hpositions.trans hr₁.positions⟩
  constructor
  · rw [hlinks, hr₁.links]
    exact h.threads.linkOut h.nodup
  · exact (List.nodup_cons.mp (List.nodup_middle.mp h.nodup)).2
  · exact (has.append hbs).congr fun j hj => hother j fun hij => hout (hij ▸ hj)
  · intro j k hj
    have hne : i ≠ j := by
      rintro rfl
      rw [hself] at hj
      cases hj
    rw [hother j hne] at hj
    have hmem := h.complete j k hj
    simp only [List.mem_append, List.mem_cons] at hmem ⊢
    rcases hmem with hmem | rfl | hmem
    · exact .inl hmem
    · exact absurd rfl hne
    · exact .inr hmem
  · intro k j
    rw [hpositions, hr₁.positions, h.positions]
    by_cases hij : i = j
    · subst hij
      rw [hself, hi]
      simp
    · rw [hother j hij]

/-! ### New nodes -/

/-- The arena with a new node that nothing points at. -/
def pushNode (a : DeliveryArena) (node : DeliveryNode) : DeliveryArena :=
  { a with nodes := a.nodes ++ [node] }

theorem pushNode_length (node : DeliveryNode) :
    (a.pushNode node).nodes.length = a.nodes.length + 1 :=
  List.length_append

theorem pushNode_facts (node : DeliveryNode) :
    (a.pushNode node).facts = a.facts ++ [(node.key, node.live)] := by
  simp [facts, pushNode]

/-- The new node has links of its own. -/
theorem pushNode_links (node : DeliveryNode) :
    (a.pushNode node).links =
      (a.links.setNext (some a.nodes.length) node.next).setPrev (some a.nodes.length) node.prev := by
  refine Links.ext (funext fun place => ?_) (funext fun place => ?_)
  all_goals
    cases place with
    | none => simp [links, pushNode]
    | some j =>
        rcases Nat.lt_trichotomy j a.nodes.length with hj | rfl | hj
        · simp [links, pushNode, List.getElem?_append_left hj, hj.ne]
        · simp [links, pushNode]
        · rw [Nat.lt_iff_add_one_le] at hj
          have hnone : (a.nodes ++ [node])[j]? = none := by simpa using hj
          simp [links, pushNode, hnone, List.getElem?_eq_none (Nat.le_of_succ_le hj),
            Nat.ne_of_gt hj]

/-- A new node that is linked in at a cut of the list makes its occurrence
live there. -/
theorem Represents.push (h : a.Represents (as ++ bs) (xs ++ ys)) (has : Reads a.facts as xs)
    (hbs : Reads a.facts bs ys) (hkey : key ∉ a.positions) (previous next : Option Nat)
    (hr : Relinked (a.pushNode ⟨key, previous, next, true⟩)
      (a.links.linkIn as.getLast? a.nodes.length bs.head?) a') :
    Represents { a' with positions := a'.positions.insert key a.nodes.length }
      (as ++ a.nodes.length :: bs) (xs ++ key :: ys) := by
  have hfacts : a'.facts = a.facts ++ [(key, true)] := hr.facts.trans (pushNode_facts _)
  have hold : ∀ j, j < a.nodes.length → a'.facts[j]? = a.facts[j]? := fun j hj => by
    rw [hfacts, List.getElem?_append_left (facts_length ▸ hj)]
  have hnew : a'.facts[a.nodes.length]? = some (key, true) := by
    rw [hfacts, ← facts_length, List.getElem?_concat_length]
  have hcases : ∀ j fact, a'.facts[j]? = some fact → j < a.nodes.length ∨ j = a.nodes.length := by
    intro j fact hj
    have hlt := (List.getElem?_eq_some_iff.mp hj).1
    rw [hfacts, List.length_append, facts_length] at hlt
    exact Nat.lt_or_eq_of_le (Nat.lt_succ_iff.mp hlt)
  have hvalid : ∀ j ∈ as ++ bs, j < a.nodes.length := h.valid
  have hnodup : (as ++ a.nodes.length :: bs).Nodup :=
    List.nodup_middle.mpr (List.nodup_cons.mpr ⟨fun hmem => absurd (hvalid _ hmem) (lt_irrefl _),
      h.nodup⟩)
  constructor
  · show a'.links.Threads _
    rw [hr.links]
    exact h.threads.linkIn hnodup
  · exact hnodup
  · refine Reads.append (has.congr fun j hj => hold j (hvalid j (List.mem_append_left _ hj))) ?_
    exact .cons hnew (hbs.congr fun j hj => hold j (hvalid j (List.mem_append_right _ hj)))
  · intro j k (hj : a'.facts[j]? = some (k, true))
    rcases hcases j _ hj with hlt | rfl
    · rw [hold j hlt] at hj
      have hmem := h.complete j k hj
      simp only [List.mem_append, List.mem_cons] at hmem ⊢
      exact hmem.imp_right .inr
    · simp
  · intro k j
    have hpositions : a'.positions = a.positions := hr.positions
    show (a'.positions.insert key _)[k]? = some j ↔ ∃ flag, a'.facts[j]? = some (k, flag)
    rw [hpositions, ExtTreeMap.getElem?_insert]
    by_cases hk : key = k
    · subst hk
      rw [if_pos ReflCmp.compare_self, Option.some.injEq]
      constructor
      · rintro rfl
        exact ⟨true, hnew⟩
      · rintro ⟨flag, hj⟩
        rcases hcases j _ hj with hlt | rfl
        · rw [hold j hlt] at hj
          have hposition := (h.positions key j).mpr ⟨flag, hj⟩
          rw [ExtTreeMap.getElem?_eq_none hkey] at hposition
          cases hposition
        · rfl
    · rw [if_neg fun hcmp => hk (LawfulEqCmp.compare_eq_iff_eq.mp hcmp), h.positions]
      constructor
      · rintro ⟨flag, hj⟩
        have hlt := (List.getElem?_eq_some_iff.mp hj).1
        rw [facts_length] at hlt
        exact ⟨flag, (hold j hlt).trans hj⟩
      · rintro ⟨flag, hj⟩
        rcases hcases j _ hj with hlt | rfl
        · exact ⟨flag, (hold j hlt).symm.trans hj⟩
        · rw [hnew, Option.some.injEq, Prod.mk.injEq] at hj
          exact absurd hj.1 hk

/-- A new occurrence behind a live one. -/
theorem insertAfter_ok (h : a.Represents order (xs ++ key :: ys))
    (hi : a.facts[i]? = some (key, true)) {new : DeliveryKey} (hnew : new ∉ a.positions) :
    ∃ order' a', a.insertAfter i new = .ok (a', a.nodes.length) ∧
      a'.Represents order' (xs ++ key :: new :: ys) ∧
      a'.facts[a.nodes.length]? = some (new, true) ∧
      a'.positions = a.positions.insert new a.nodes.length := by
  obtain ⟨as, i', bs, rfl, has, hi', hbs⟩ := h.reads.split
  obtain rfl : i' = i := Option.some.inj <|
    ((h.positions key i').mpr ⟨true, hi'⟩).symm.trans ((h.positions key i).mpr ⟨true, hi⟩)
  have hlt : i' < a.nodes.length := h.valid i' (by simp)
  obtain ⟨node, hnode, hok, hnext, -⟩ := node_ok hlt
  rw [h.threads.next_eq] at hnext
  have hlive : rejectIf ((a.nodes[i']?).any (·.live) = false)
      (ScenarioFailure.error .materializationInvariant) = .ok () := by
    rw [facts, List.getElem?_map, hnode, Option.map_some, Option.some.injEq] at hi
    have hflag : node.live = true := congrArg Prod.snd hi
    rw [rejectIf_eq_ok, hnode]
    simp [hflag]
  -- the new node is appended, and then linked in between its neighbours
  have hhead : ∀ j ∈ bs.head?, j < a.nodes.length + 1 := fun j hj =>
    Nat.lt_succ_of_lt <| h.valid j <|
      List.mem_append_right _ (List.mem_cons_of_mem _ (List.mem_of_head? hj))
  have hlength := pushNode_length (a := a) ⟨new, some i', bs.head?, true⟩
  obtain ⟨a₁, h₁, hr₁⟩ := setNext_ok (a := a.pushNode ⟨new, some i', bs.head?, true⟩)
    (i := i') (some a.nodes.length) (by omega)
  obtain ⟨a₂, h₂, hr₂⟩ := linkPrev_ok bs.head? (some a.nodes.length)
    (hr₁.length.trans hlength ▸ hhead)
  have hr := hr₁.trans hr₂
  rw [hr₁.links, pushNode_links] at hr
  refine ⟨as ++ [i'] ++ a.nodes.length :: bs,
    { a₂ with positions := a₂.positions.insert new a.nodes.length }, ?_, ?_, ?_, ?_⟩
  · refine bind_ok hlive (bind_ok hok ?_)
    rw [hnext]
    exact bind_ok h₁ (bind_ok h₂ rfl)
  · rw [List.append_cons, List.append_cons xs] at h
    rw [List.append_cons xs]
    refine h.push (has.append (.cons hi rfl)) hbs hnew (some i') bs.head? ?_
    rw [List.getLast?_concat]
    exact hr
  · show a₂.facts[a.nodes.length]? = _
    rw [hr.facts, pushNode_facts, ← facts_length, List.getElem?_concat_length]
  · show a₂.positions.insert new _ = _
    rw [hr.positions]
    rfl

/-- A new occurrence at the end. -/
theorem appendOriginal_ok (h : a.Represents order live) (hnew : key ∉ a.positions) :
    ∃ a', a.appendOriginal key = .ok a' ∧
      a'.Represents (order ++ [a.nodes.length]) (live ++ [key]) ∧
      a'.positions = a.positions.insert key a.nodes.length := by
  have hreads := h.reads
  have htail : a.tail = order.getLast? := (h.threads order [] (List.append_nil _).symm).2
  have hlast : ∀ j ∈ a.tail, j < a.nodes.length + 1 := fun j hj =>
    Nat.lt_succ_of_lt (h.valid j (List.mem_of_getLast? (htail ▸ hj)))
  have hfresh : rejectIf (key ∈ a.positions) (ScenarioFailure.error .materializationInvariant) =
      .ok () := rejectIf_eq_ok.mpr hnew
  have hlength := pushNode_length (a := a) ⟨key, a.tail, none, true⟩
  obtain ⟨a₁, h₁, hr₁⟩ := linkNext_ok (a := a.pushNode ⟨key, a.tail, none, true⟩) a.tail
    (some a.nodes.length) (hlength ▸ hlast)
  obtain ⟨a₂, h₂, hr₂⟩ := linkPrev_ok (a := a₁) none (some a.nodes.length) nofun
  have hr := hr₁.trans hr₂
  rw [hr₁.links, pushNode_links, htail] at hr
  obtain rfl := Except.ok.inj h₂
  refine ⟨{ a₁ with tail := some a.nodes.length, positions := a₁.positions.insert key _ },
    bind_ok hfresh (bind_ok h₁ rfl), ?_, ?_⟩
  · rw [← List.append_nil order, ← List.append_nil live] at h
    exact h.push hreads rfl hnew order.getLast? none hr
  · show a₁.positions.insert key _ = _
    rw [hr₁.positions]
    rfl

/-- The same nodes in another order. -/
theorem Represents.reorder {L : Links Nat} {order' : List Nat} {live' : List DeliveryKey}
    (h : a.Represents order live) (hr : Relinked a L a') (hthreads : L.Threads order')
    (hperm : order'.Perm order) (hreads : Reads a.facts order' live') :
    a'.Represents order' live' where
  threads := hr.links ▸ hthreads
  nodup := hperm.nodup_iff.mpr h.nodup
  reads := hr.facts ▸ hreads
  complete := fun i key hi => hperm.mem_iff.mpr (h.complete i key (hr.facts ▸ hi))
  positions := fun key i => by rw [hr.positions, hr.facts, h.positions]

/-- Relinking a node before another one that is not its successor. -/
theorem relinkBefore_ok {j : Nat} {cs ds : List Nat} (h : a.Represents (as ++ i :: bs) live)
    (hcut : as ++ bs = cs ++ j :: ds) :
    ∃ L a', a.relinkBefore i j = .ok a' ∧ Relinked a L a' ∧ L.Threads (cs ++ i :: j :: ds) := by
  have hnodup : (cs ++ i :: j :: ds).Nodup := by
    rw [List.nodup_middle, ← hcut, ← List.nodup_middle]
    exact h.nodup
  have hi : i < a.nodes.length := h.valid i (by simp)
  have hmem : ∀ k ∈ cs ++ j :: ds, k < a.nodes.length := fun k hk => by
    rw [← hcut] at hk
    refine h.valid k ?_
    simp only [List.mem_append, List.mem_cons] at hk ⊢
    exact hk.imp_right .inr
  have hj : j < a.nodes.length := hmem j (by simp)
  have hlast : ∀ k ∈ cs.getLast?, k < a.nodes.length := fun k hk =>
    hmem k (List.mem_append_left _ (List.mem_of_getLast? hk))
  obtain ⟨a₁, h₁, hr₁⟩ := unlink_ok h.threads h.valid
  have hthreads := h.threads.linkOut h.nodup
  rw [hcut, ← hr₁.links] at hthreads
  obtain ⟨node, -, hnode, -, hprev⟩ := node_ok (hr₁.length ▸ hj)
  rw [hthreads.prev_eq] at hprev
  obtain ⟨a₂, h₂, hr₂⟩ := setPrev_ok cs.getLast? (hr₁.length ▸ hi)
  have hl₂ := hr₂.length.trans hr₁.length
  obtain ⟨a₃, h₃, hr₃⟩ := setNext_ok (some j) (hl₂ ▸ hi)
  have hl₃ := hr₃.length.trans hl₂
  obtain ⟨a₄, h₄, hr₄⟩ := setPrev_ok (some i) (hl₃ ▸ hj)
  have hl₄ := hr₄.length.trans hl₃
  obtain ⟨a₅, h₅, hr₅⟩ := linkNext_ok cs.getLast? (some i) (hl₄ ▸ hlast)
  have hr := hr₂.trans (hr₃.trans (hr₄.trans hr₅))
  rw [hr₄.links, hr₃.links, hr₂.links] at hr
  refine ⟨_, a₅, bind_ok h₁ (bind_ok hnode ?_), hr₁.trans hr, hthreads.linkIn hnodup⟩
  rw [hprev]
  exact bind_ok h₂ <| bind_ok h₃ <| bind_ok h₄ h₅

/-- Moving one live occurrence before another one. -/
theorem moveBefore_ok {target anchor : DeliveryKey} {us vs : List DeliveryKey}
    (h : a.Represents order (xs ++ target :: ys)) (hne : target ≠ anchor)
    (hsplit : xs ++ ys = us ++ anchor :: vs) :
    ∃ order' a', a.moveBefore target anchor = .ok a' ∧
      a'.Represents order' (us ++ target :: anchor :: vs) ∧ a'.positions = a.positions := by
  obtain ⟨as, i, bs, rfl, has, hi, hbs⟩ := h.reads.split
  obtain ⟨cs, j, ds, hcut, hcs, hj, hds⟩ := (hsplit ▸ has.append hbs).split
  have hij : rejectIf (i = j) (ScenarioFailure.error .materializationInvariant) = .ok () := by
    rw [rejectIf_eq_ok]
    rintro rfl
    rw [hi] at hj
    exact hne (congrArg Prod.fst (Option.some.inj hj))
  obtain ⟨node, -, hnode, hnext, -⟩ := node_ok (h.valid i (by simp))
  rw [h.threads.next_eq] at hnext
  have hresolved : ∀ a', (if node.next = some j then .ok a else a.relinkBefore i j) =
      Except.ok a' → a.moveBefore target anchor = .ok a' := fun a' ha' =>
    bind_ok (resolveLive_ok h hi) <| bind_ok (resolveLive_ok h hj) <| bind_ok hij <|
      bind_ok hnode ha'
  have hold : (as ++ bs).Nodup := (List.nodup_cons.mp (List.nodup_middle.mp h.nodup)).2
  by_cases hhead : node.next = some j
  · -- the target already stands before the anchor
    rw [hhead] at hnext
    obtain ⟨bs, rfl⟩ := List.head?_eq_some_iff.mp hnext.symm
    obtain ⟨rfl, rfl⟩ := Links.split_unique hold hcut
    obtain rfl := hcs.unique has
    obtain rfl := List.append_cancel_left hsplit
    refine ⟨_, a, hresolved a (if_pos hhead), h, rfl⟩
  · obtain ⟨L, a', ha', hr, hthreads⟩ := relinkBefore_ok h hcut
    have hperm : (cs ++ i :: j :: ds).Perm (as ++ i :: bs) := by
      refine List.perm_middle.trans (.trans ?_ List.perm_middle.symm)
      rw [hcut]
    refine ⟨cs ++ i :: j :: ds, a', hresolved a' ((if_neg hhead).trans ha'), ?_, hr.positions⟩
    exact h.reorder hr hthreads hperm (hcs.append (.cons hi (.cons hj hds)))

/-! ### Copies -/

/-- The first `copies` occurrences of a source from `first` on. -/
def block (source first copies : Nat) : List DeliveryKey :=
  (List.range copies).map fun offset => ⟨source, first + offset⟩

theorem block_succ (source first copies : Nat) :
    block source first (copies + 1) = block source first copies ++ [⟨source, first + copies⟩] := by
  simp [block, List.range_succ]

theorem mem_block {source first copies : Nat} {k : DeliveryKey} :
    k ∈ block source first copies ↔ ∃ offset < copies, ⟨source, first + offset⟩ = k := by
  simp [block]

/-- The copies made so far stand behind the occurrence, and the cursor is at
the last of them. -/
theorem duplicateLoop_ok (h : a.Represents order (xs ++ key :: ys))
    (hi : a.facts[i]? = some (key, true)) {first copies : Nat} (hnumbers : first + copies ≤ 2 ^ 16)
    (hfresh : ∀ k ∈ block key.source first copies, k ∉ a.positions) :
    ∃ order' s xs' last, (List.range copies).foldlM (duplicateOne key first) (a, i) = .ok s ∧
      s.1.Represents order' (xs' ++ last :: ys) ∧ s.1.facts[s.2]? = some (last, true) ∧
      xs' ++ [last] = xs ++ key :: block key.source first copies ∧
      ∀ k, k ∈ s.1.positions ↔ k ∈ a.positions ∨ k ∈ block key.source first copies := by
  induction copies with
  | zero =>
      refine ⟨order, (a, i), xs, key, rfl, h, hi, rfl, fun k => ?_⟩
      simp [block]
  | succ copies ih =>
      simp only [block_succ, List.mem_append, List.mem_singleton] at hfresh
      obtain ⟨order', s, xs', last, hloop, hs, hcursor, hlist, hpositions⟩ :=
        ih (by omega) fun k hk => hfresh k (.inl hk)
      have hoccurrence : checkedAddU16 first copies = some (first + copies) := if_pos (by omega)
      have hnew : (⟨key.source, first + copies⟩ : DeliveryKey) ∉ s.1.positions := by
        rw [hpositions, not_or]
        refine ⟨hfresh _ (.inr rfl), fun hmem => ?_⟩
        obtain ⟨offset, hlt, heq⟩ := mem_block.mp hmem
        have := congrArg DeliveryKey.occurrence heq
        simp only at this
        omega
      have hcheck : rejectIf ((⟨key.source, first + copies⟩ : DeliveryKey) ∈ s.1.positions)
          (ScenarioFailure.error .materializationInvariant) = .ok () := rejectIf_eq_ok.mpr hnew
      obtain ⟨order'', b, hb, hrepresents, hfact, hinsert⟩ := insertAfter_ok hs hcursor hnew
      refine ⟨order'', (b, s.1.nodes.length), xs' ++ [last], ⟨key.source, first + copies⟩, ?_, ?_,
        hfact, ?_, fun k => ?_⟩
      · rw [List.range_succ, List.foldlM_append]
        refine bind_ok hloop ?_
        rw [List.foldlM_cons]
        exact bind_ok (bind_ok (okOr_eq_ok.mpr hoccurrence) (bind_ok hcheck hb)) rfl
      · rw [← List.append_cons]
        exact hrepresents
      · rw [hlist, block_succ, List.append_assoc, List.cons_append]
      · show k ∈ b.positions ↔ _
        rw [hinsert, ExtTreeMap.mem_insert, hpositions, LawfulEqCmp.compare_eq_iff_eq, block_succ,
          List.mem_append, List.mem_singleton]
        grind

/-- The copies of one occurrence, each behind the one before it. -/
theorem duplicate_ok (h : a.Represents order (xs ++ key :: ys)) {first copies : Nat}
    (hnumbers : first + copies ≤ 2 ^ 16)
    (hfresh : ∀ k ∈ block key.source first copies, k ∉ a.positions) :
    ∃ order' a', a.duplicate key first copies = .ok a' ∧
      a'.Represents order' (xs ++ key :: (block key.source first copies ++ ys)) ∧
      ∀ k, k ∈ a'.positions ↔ k ∈ a.positions ∨ k ∈ block key.source first copies := by
  obtain ⟨as, i, bs, -, -, hi, -⟩ := h.reads.split
  obtain ⟨order', s, xs', last, hloop, hs, -, hlist, hpositions⟩ :=
    duplicateLoop_ok h hi hnumbers hfresh
  refine ⟨order', s.1, bind_ok (resolveLive_ok h hi) (bind_ok hloop rfl), ?_, hpositions⟩
  rw [List.append_cons, hlist, List.append_assoc, List.cons_append] at hs
  exact hs

/-! ### The initial list -/

theorem mem_insert_positions {positions : ExtTreeMap DeliveryKey Nat} {new k : DeliveryKey}
    {index : Nat} : k ∈ positions.insert new index ↔ k = new ∨ k ∈ positions := by
  rw [ExtTreeMap.mem_insert, LawfulEqCmp.compare_eq_iff_eq, eq_comm]

/-- A new arena holds the originals in physical order. -/
theorem new_ok {allocator : Allocator} (hallocator : ∀ reservation n, allocator reservation n = true)
    (prefixLen capacity : Nat) :
    ∃ order a, new allocator prefixLen capacity = .ok a ∧
      a.Represents order (Replay.start prefixLen).live ∧
      ∀ k, k ∈ a.positions ↔ k ∈ (Replay.start prefixLen).live := by
  have hreserve : tryReserve allocator .nodes capacity .materializationCapacity = .ok () := by
    rw [tryReserve, rejectIf_eq_ok, hallocator]
    exact Bool.noConfusion
  suffices hloop : ∃ order a, (List.range prefixLen).foldlM
      (fun a source => appendOriginal a ⟨source, 0⟩)
      { nodes := [], positions := ∅, head := none, tail := none } = .ok a ∧
      a.Represents order (Replay.start prefixLen).live ∧
      ∀ k, k ∈ a.positions ↔ k ∈ (Replay.start prefixLen).live by
    obtain ⟨order, a, hloop, ha⟩ := hloop
    exact ⟨order, a, bind_ok hreserve hloop, ha⟩
  induction prefixLen with
  | zero => exact ⟨[], _, rfl, represents_empty, fun k => by simp [Replay.start]⟩
  | succ n ih =>
      have hsnoc : (Replay.start (n + 1)).live = (Replay.start n).live ++ [⟨n, 0⟩] := by
        simp [Replay.start, List.range_succ]
      obtain ⟨order, a, hloop, ha, hpositions⟩ := ih
      have hnew : (⟨n, 0⟩ : DeliveryKey) ∉ a.positions := by
        rw [hpositions]
        intro hmem
        exact absurd ((Replay.numbered_start n).known _ hmem) (lt_irrefl n)
      obtain ⟨a', ha', hrepresents, hinsert⟩ := appendOriginal_ok ha hnew
      refine ⟨_, a', ?_, hsnoc ▸ hrepresents, fun k => ?_⟩
      · rw [List.range_succ, List.foldlM_append]
        refine bind_ok hloop ?_
        rw [List.foldlM_cons]
        exact bind_ok ha' rfl
      · rw [hinsert, mem_insert_positions, hpositions, hsnoc, List.mem_append, List.mem_singleton,
          or_comm]

end DeliveryArena

end KvCrucible
