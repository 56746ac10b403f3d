/-
KvCrucible/Materialize.lean

Materialization replays the schedule.

`Refines` relates an arena to a replay: the arena represents the live
occurrences and has positions for exactly the numbers used so far.  Every
planned action of an allowed schedule keeps the relation, so the arena at the
end represents the list the replay ends with, and walking it delivers that
list, source by source.
-/
import KvCrucible.Arena

namespace KvCrucible

open Basis Std

/-! ### Refinement of the replay -/

/-- An arena holds the occurrences of a replay. -/
structure Refines (a : DeliveryArena) (prefixLen : Nat) (r : Replay) : Prop where
  represents : ∃ order, a.Represents order r.live
  numbered : Replay.Numbered prefixLen r
  allocated : ∀ k : DeliveryKey, k ∈ a.positions ↔
    k.source < prefixLen ∧ k.occurrence < r.next k.source

section Refines

variable {a : DeliveryArena} {prefixLen : Nat} {r : Replay} {ids : List String}

/-- One planned action does what the replay does. -/
theorem Refines.execute (h : Refines a prefixLen r) {action : FaultAction}
    (hallows : r.Allows ids action) :
    ∃ a', a.execute (r.planned ids action) = .ok a' ∧
      Refines a' prefixLen (r.apply ids action) := by
  have hnumbered := h.numbered.apply hallows
  obtain ⟨order, hrepresents⟩ := h.represents
  cases action with
  | drop target =>
      obtain ⟨xs, ys, hlive, hxs, -⟩ := exists_split h.numbered.nodup hallows
      rw [hlive] at hrepresents
      obtain ⟨order', a', ha', hrepresents', hpositions⟩ :=
        DeliveryArena.dropDelivery_ok hrepresents
      refine ⟨a', ha', ⟨order', ?_⟩, hnumbered, fun k => ?_⟩
      · show a'.Represents order' (r.live.erase _)
        rw [hlive, erase_split hxs]
        exact hrepresents'
      · rw [hpositions]
        exact h.allocated k
  | duplicate target copies =>
      obtain ⟨hmem, hnumbers⟩ := hallows
      obtain ⟨xs, ys, hlive, hxs, -⟩ := exists_split h.numbered.nodup hmem
      have hknown := h.numbered.known _ hmem
      rw [hlive] at hrepresents
      have hfresh : ∀ k ∈ DeliveryArena.block (Replay.keyOf ids target).source
          (r.next (Replay.keyOf ids target).source) copies.toNat, k ∉ a.positions := by
        intro k hk hposition
        obtain ⟨hsource, hle, -⟩ := Replay.mem_unused.mp hk
        have hused := ((h.allocated k).mp hposition).2
        rw [hsource] at hused
        exact absurd hused (Nat.not_lt_of_le hle)
      obtain ⟨order', a', ha', hrepresents', hpositions⟩ :=
        DeliveryArena.duplicate_ok hrepresents hnumbers hfresh
      refine ⟨a', ha', ⟨order', ?_⟩, hnumbered, fun k => ?_⟩
      · show a'.Represents order' (insertAfter _ _ r.live)
        rw [hlive, insertAfter_split hxs]
        exact hrepresents'
      · show k ∈ a'.positions ↔ k.source < prefixLen ∧
          k.occurrence < Function.update r.next _ _ k.source
        rw [hpositions, h.allocated]
        have hblock : k ∈ DeliveryArena.block (Replay.keyOf ids target).source
            (r.next (Replay.keyOf ids target).source) copies.toNat ↔ _ := Replay.mem_unused
        rw [hblock]
        by_cases hsource : k.source = (Replay.keyOf ids target).source
        · rw [hsource, Function.update_self]
          omega
        · rw [Function.update_of_ne hsource]
          simp [hsource]
  | moveBefore target anchor =>
      obtain ⟨htarget, hanchor, hne⟩ := hallows
      obtain ⟨xs, ys, hlive, hxs, -⟩ := exists_split h.numbered.nodup htarget
      have hrest : (xs ++ ys).Nodup := by
        have := h.numbered.nodup
        rw [hlive] at this
        exact (List.nodup_cons.mp (List.nodup_middle.mp this)).2
      have hmem : Replay.keyOf ids anchor ∈ xs ++ ys := by
        rw [hlive] at hanchor
        simp only [List.mem_append, List.mem_cons] at hanchor ⊢
        exact hanchor.imp_right fun hor => hor.resolve_left (Ne.symm hne)
      obtain ⟨us, vs, hsplit, hus, -⟩ := exists_split hrest hmem
      rw [hlive] at hrepresents
      obtain ⟨order', a', ha', hrepresents', hpositions⟩ :=
        DeliveryArena.moveBefore_ok hrepresents hne hsplit
      refine ⟨a', ha', ⟨order', ?_⟩, hnumbered, fun k => ?_⟩
      · show a'.Represents order' (insertBefore _ _ (r.live.erase _))
        rw [hlive, erase_split hxs, hsplit, insertBefore_split hus]
        exact hrepresents'
      · rw [hpositions]
        exact h.allocated k

/-- A whole plan does what the replay does. -/
theorem Refines.executeAll {actions : List FaultAction} :
    ∀ {a : DeliveryArena} {r : Replay}, Refines a prefixLen r → Replay.AllowsAll ids r actions →
      ∃ a', (Replay.plannedAll ids r actions).foldlM DeliveryArena.execute a = .ok a' ∧
        Refines a' prefixLen (r.run ids actions) := by
  induction actions with
  | nil =>
      intro a r h _
      exact ⟨a, rfl, h⟩
  | cons action actions ih =>
      intro a r h hallows
      obtain ⟨a₁, h₁, hrefines⟩ := h.execute hallows.1
      obtain ⟨a', h', hrefines'⟩ := ih hrefines hallows.2
      refine ⟨a', ?_, hrefines'⟩
      rw [Replay.plannedAll, List.foldlM_cons]
      exact bind_ok h₁ h'

/-- A new arena is where the replay starts. -/
theorem refines_new {allocator : Allocator}
    (hallocator : ∀ reservation n, allocator reservation n = true) (prefixLen capacity : Nat) :
    ∃ a, DeliveryArena.new allocator prefixLen capacity = .ok a ∧
      Refines a prefixLen (Replay.start prefixLen) := by
  obtain ⟨order, a, ha, hrepresents, hpositions⟩ :=
    DeliveryArena.new_ok hallocator prefixLen capacity
  refine ⟨a, ha, ⟨order, hrepresents⟩, Replay.numbered_start _, fun k => ?_⟩
  rw [hpositions]
  show k ∈ (List.range prefixLen).map _ ↔ k.source < prefixLen ∧ k.occurrence < 1
  rw [List.mem_map]
  constructor
  · rintro ⟨source, hsource, rfl⟩
    exact ⟨List.mem_range.mp hsource, Nat.one_pos⟩
  · rintro ⟨hsource, hoccurrence⟩
    refine ⟨k.source, List.mem_range.mpr hsource, ?_⟩
    rw [← Nat.lt_one_iff.mp hoccurrence]

end Refines

/-! ### Walking the list -/

variable {canon : Canonical} {a : DeliveryArena} {sources : List (PreparedEnvelope canon)}
  {sourceStreams : List Nat} {prefixLen : Nat}

/-- A delivery is the one that an occurrence stands for. -/
structure Delivers (sources : List (PreparedEnvelope canon)) (sourceStreams : List Nat)
    (key : DeliveryKey) (delivery : ScheduledDelivery canon) : Prop where
  source : sources[key.source]? = some delivery.source
  streamIndex : sourceStreams[key.source]? = some delivery.streamIndex
  occurrence : delivery.occurrence = key.occurrence

theorem deliver_ok {node : DeliveryNode} (hlive : node.live = true)
    (hknown : node.key.source < prefixLen) (hbound : prefixLen ≤ sources.length)
    (hlength : sources.length = sourceStreams.length) :
    ∃ delivery, DeliveryArena.deliver sources sourceStreams prefixLen node = .ok delivery ∧
      Delivers sources sourceStreams node.key delivery := by
  have hcheck : rejectIf (node.live = false ∨ node.key.source ≥ prefixLen)
      (ScenarioFailure.error .materializationInvariant) = .ok () := by
    rw [rejectIf_eq_ok, hlive]
    simpa using hknown
  have hsource : sources[node.key.source]? = some sources[node.key.source] :=
    List.getElem?_eq_getElem (by omega)
  have hstream : sourceStreams[node.key.source]? = some sourceStreams[node.key.source] :=
    List.getElem?_eq_getElem (by omega)
  exact ⟨_, bind_ok hcheck (bind_ok (okOr_eq_ok.mpr hsource) (bind_ok (okOr_eq_ok.mpr hstream) rfl)),
    hsource, hstream, rfl⟩

namespace DeliveryArena

/-- From any place of the list on, the walk delivers the rest. -/
theorem walk_ok {order : List Nat} (hthreads : a.links.Threads order)
    (hbound : prefixLen ≤ sources.length) (hlength : sources.length = sourceStreams.length)
    {room : Nat} : ∀ {before rest : List Nat} {live : List DeliveryKey}, order = before ++ rest →
      rest.length ≤ room → Reads a.facts rest live → (∀ key ∈ live, key.source < prefixLen) →
      ∃ deliveries, a.walk sources sourceStreams prefixLen room rest.head? = .ok deliveries ∧
        List.Forall₂ (Delivers sources sourceStreams) live deliveries := by
  induction room with
  | zero =>
      intro before rest live _ hroom hreads _
      obtain rfl := List.length_eq_zero_iff.mp (Nat.le_zero.mp hroom)
      obtain rfl : live = [] := hreads.unique rfl
      exact ⟨[], rfl, .nil⟩
  | succ room ih =>
      intro before rest live horder hroom hreads hknown
      cases live with
      | nil =>
          obtain rfl := List.length_eq_zero_iff.mp hreads.length
          exact ⟨[], rfl, .nil⟩
      | cons key live =>
          obtain ⟨as, i, rest, rfl, has, hi, hrest⟩ :=
            Reads.split (show Reads a.facts rest ([] ++ key :: live) from hreads)
          obtain rfl := List.length_eq_zero_iff.mp has.length
          rw [List.forall_mem_cons] at hknown
          rw [facts, List.getElem?_map, Option.map_eq_some_iff] at hi
          obtain ⟨node, hnode, hfact⟩ := hi
          obtain ⟨rfl, hlive⟩ := Prod.mk.injEq .. ▸ hfact
          have hnext : node.next = rest.head? := by
            rw [← Links.Threads.next_eq (horder ▸ hthreads)]
            simp [links, hnode]
          obtain ⟨delivery, hdelivery, hdelivers⟩ :=
            deliver_ok hlive hknown.1 hbound hlength
          have horder' : order = (before ++ [i]) ++ rest := by
            rw [horder, List.append_assoc]
            rfl
          obtain ⟨deliveries, hwalk, hall⟩ :=
            ih horder' (Nat.le_of_succ_le_succ hroom) hrest hknown.2
          refine ⟨delivery :: deliveries, ?_, .cons hdelivers hall⟩
          rw [← hnext] at hwalk
          exact bind_ok (okOr_eq_ok.mpr hnode) (bind_ok hdelivery (bind_ok hwalk rfl))

/-- The live nodes are those of the list. -/
theorem Represents.countP_live {order : List Nat} {live : List DeliveryKey}
    (h : a.Represents order live) : a.nodes.countP (·.live) = live.length := by
  have hfacts : a.nodes.countP (·.live) = a.facts.countP Prod.snd := by
    rw [facts, List.countP_map]
    rfl
  have hlist : a.facts =
      (List.range a.facts.length).map fun i => a.facts.getD i (⟨0, 0⟩, false) := by
    refine List.ext_getElem (by simp) fun i hi _ => ?_
    simp [hi]
  rw [hfacts, hlist, List.countP_map, List.countP_eq_length_filter, ← h.reads.length]
  refine List.Perm.length_eq ((List.perm_ext_iff_of_nodup (List.nodup_range.filter _)
    h.nodup).mpr fun i => ?_)
  rw [List.mem_filter, List.mem_range]
  constructor
  · rintro ⟨hi, hlive⟩
    refine h.complete i a.facts[i].1 ?_
    rw [List.getElem?_eq_getElem hi, Option.some.injEq]
    refine Prod.ext rfl ?_
    simpa [hi] using hlive
  · intro hmem
    obtain ⟨key, -, hfact⟩ := h.reads.of_mem hmem
    refine ⟨(List.getElem?_eq_some_iff.mp hfact).1, ?_⟩
    simp [hfact]

theorem materialize_ok {allocator : Allocator}
    (hallocator : ∀ reservation n, allocator reservation n = true) {r : Replay}
    (h : Refines a prefixLen r) (hbound : prefixLen ≤ sources.length)
    (hlength : sources.length = sourceStreams.length) :
    ∃ deliveries, a.materialize allocator sources sourceStreams prefixLen = .ok deliveries ∧
      List.Forall₂ (Delivers sources sourceStreams) r.live deliveries := by
  obtain ⟨order, hrepresents⟩ := h.represents
  have hroom : order.length ≤ a.nodes.length := by
    have hsub : order ⊆ List.range a.nodes.length := fun i hi =>
      List.mem_range.mpr (hrepresents.valid i hi)
    simpa using (hrepresents.nodup.subperm hsub).length_le
  have hhead : a.head = order.head? := (hrepresents.threads [] order rfl).1
  obtain ⟨deliveries, hwalk, hall⟩ := walk_ok hrepresents.threads hbound hlength
    (List.nil_append order).symm hroom hrepresents.reads h.numbered.known
  have hreserve : tryReserve allocator .deliveries (a.nodes.countP (·.live))
      .materializationCapacity = .ok () := by
    rw [tryReserve, rejectIf_eq_ok, hallocator]
    exact Bool.noConfusion
  have hcount : rejectIf (deliveries.length ≠ a.nodes.countP (·.live))
      (ScenarioFailure.error .materializationInvariant) = .ok () := by
    rw [rejectIf_eq_ok, hrepresents.countP_live, hall.length_eq]
    exact fun hne => hne rfl
  rw [← hhead] at hwalk
  exact ⟨deliveries, bind_ok hreserve (bind_ok hwalk (bind_ok hcount rfl)), hall⟩

end DeliveryArena

/-! ### Whole schedules -/

theorem addCopies_ok {ids : List String} {actions : List FaultAction} :
    ∀ {r : Replay} {allocated : Nat}, allocated + totalCopies actions < 2 ^ 64 →
      (Replay.plannedAll ids r actions).foldlM addCopies allocated =
        .ok (allocated + totalCopies actions) := by
  induction actions with
  | nil =>
      intro r allocated _
      rfl
  | cons action actions ih =>
      intro r allocated hlt
      have htotal : totalCopies (action :: actions) = action.copies + totalCopies actions := by
        simp [totalCopies]
      have hcopies : (r.planned ids action).copies = action.copies := by
        cases action <;> rfl
      rw [htotal, ← Nat.add_assoc] at hlt
      have hadd : addCopies allocated (r.planned ids action) = .ok (allocated + action.copies) := by
        rw [addCopies, hcopies, okOr_eq_ok, checkedAdd_eq_some]
        exact ⟨rfl, by omega⟩
      rw [Replay.plannedAll, List.foldlM_cons, htotal, ← Nat.add_assoc]
      exact bind_ok hadd (ih hlt)

/-- A planned schedule materializes to what its replay ends with. -/
theorem materializeSchedule_ok {allocator : Allocator}
    (hallocator : ∀ reservation n, allocator reservation n = true) {plan : SchedulePlan}
    {ids : List String} {actions : List FaultAction} {streamCount : Nat} {limits : Limits}
    (hactions : plan.actions = Replay.plannedAll ids (Replay.start ids.length) actions)
    (hids : plan.prefixLen = ids.length)
    (hall : Replay.AllowsAll ids (Replay.start ids.length) actions)
    (hoccurrences : ids.length + totalCopies actions ≤ limits.maxOccurrencesPerSchedule.toNat)
    (hbound : plan.prefixLen ≤ sources.length) (hlength : sources.length = sourceStreams.length)
    (hstreams : plan.streamPrefixLen ≤ streamCount)
    (hroutes : ∀ stream ∈ sourceStreams.take plan.prefixLen, stream < plan.streamPrefixLen) :
    ∃ materialized,
      materializeSchedule allocator plan sources sourceStreams streamCount limits =
        .ok materialized ∧
      List.Forall₂ (Delivers sources sourceStreams)
        ((Replay.start ids.length).run ids actions).live materialized.deliveries := by
  have hmax := limits.maxOccurrencesPerSchedule.toNat_lt
  have hshape : rejectIf (plan.prefixLen > sources.length ∨ sources.length ≠ sourceStreams.length ∨
      plan.streamPrefixLen > streamCount ∨
      ∃ stream ∈ sourceStreams.take plan.prefixLen, stream ≥ plan.streamPrefixLen)
      (ScenarioFailure.error .materializationInvariant) = .ok () := by
    rw [rejectIf_eq_ok]
    rintro (hgt | hne | hgt | ⟨stream, hmem, hge⟩)
    · omega
    · exact hne hlength
    · omega
    · exact absurd (hroutes stream hmem) (Nat.not_lt_of_le hge)
  have hallocated : plan.actions.foldlM addCopies plan.prefixLen =
      .ok (ids.length + totalCopies actions) := by
    rw [hactions, hids]
    exact addCopies_ok (by omega)
  have hlimit : rejectIf (ids.length + totalCopies actions >
      limits.maxOccurrencesPerSchedule.toNat)
      (ScenarioFailure.error .materializationInvariant) = .ok () :=
    rejectIf_eq_ok.mpr (Nat.not_lt_of_le hoccurrences)
  obtain ⟨a₁, h₁, hrefines₁⟩ :=
    refines_new hallocator plan.prefixLen (ids.length + totalCopies actions)
  rw [← hids] at hall
  obtain ⟨a₂, h₂, hrefines₂⟩ := hrefines₁.executeAll hall
  rw [hids, ← hactions] at h₂
  obtain ⟨deliveries, h₃, hdeliveries⟩ :=
    DeliveryArena.materialize_ok hallocator hrefines₂ hbound hlength
  rw [hids] at hdeliveries
  exact ⟨_, bind_ok hshape <| bind_ok hallocated <| bind_ok hlimit <| bind_ok h₁ <| bind_ok h₂ <|
    bind_ok h₃ rfl, hdeliveries⟩

end KvCrucible
