/-
KvCrucible/Replay.lean

What a fault schedule means: the list semantics of its actions.

A replay holds the live occurrences in delivery order and, for every source,
the next unused occurrence number.  It starts with occurrence zero of every
earlier envelope.  `apply` interprets one recorded action on the list,
`Allows` says which actions only name live occurrences and stay within the
`u16` numbers.
-/
import KvCrucible.Basis.ListEdit
import KvCrucible.Trace

namespace KvCrucible

open Basis

/-- The occurrences of one schedule. -/
structure Replay where
  live : List DeliveryKey
  next : Nat → Nat

/-- The copies an action asks for. -/
def FaultAction.copies : FaultAction → Nat
  | .duplicate _ copies => copies.toNat
  | _ => 0

/-- The copies a schedule asks for. -/
def totalCopies (actions : List FaultAction) : Nat := (actions.map FaultAction.copies).sum

/-- The occurrences an action removes. -/
def FaultAction.drops : FaultAction → Nat
  | .drop _ => 1
  | _ => 0

/-- The drop actions of a schedule. -/
def totalDrops (actions : List FaultAction) : Nat := (actions.map FaultAction.drops).sum

namespace Replay

/-- Occurrence zero of every source. -/
def start (prefixLen : Nat) : Replay where
  live := (List.range prefixLen).map fun source => ⟨source, 0⟩
  next := fun _ => 1

/-- The occurrence a reference names, among the envelopes `ids`.  An unknown
envelope gets the number behind the last one. -/
def keyOf (ids : List String) (delivery : DeliveryRef) : DeliveryKey where
  source := ids.idxOf delivery.envelopeId
  occurrence := delivery.occurrence.toNat

variable (ids : List String) (r : Replay)

/-- The next unused occurrences of a source, ascending. -/
def unused (source copies : Nat) : List DeliveryKey :=
  (List.range copies).map fun offset => ⟨source, r.next source + offset⟩

/-- The list semantics of one action. -/
def apply : FaultAction → Replay
  | .drop target => { r with live := r.live.erase (keyOf ids target) }
  | .duplicate target copies =>
      let key := keyOf ids target
      { live := insertAfter key (r.unused key.source copies.toNat) r.live
        next := Function.update r.next key.source (r.next key.source + copies.toNat) }
  | .moveBefore target anchor =>
      let key := keyOf ids target
      { r with live := insertBefore (keyOf ids anchor) key (r.live.erase key) }

/-- An action names live occurrences only, and its copies have numbers. -/
def Allows : FaultAction → Prop
  | .drop target => keyOf ids target ∈ r.live
  | .duplicate target copies => keyOf ids target ∈ r.live ∧
      r.next (keyOf ids target).source + copies.toNat ≤ 2 ^ 16
  | .moveBefore target anchor => keyOf ids target ∈ r.live ∧ keyOf ids anchor ∈ r.live ∧
      keyOf ids target ≠ keyOf ids anchor

/-- The resolved form of an action. -/
def planned : FaultAction → PlannedAction
  | .drop target => .drop (keyOf ids target)
  | .duplicate target copies =>
      .duplicate (keyOf ids target) (r.next (keyOf ids target).source) copies.toNat
  | .moveBefore target anchor => .moveBefore (keyOf ids target) (keyOf ids anchor)

/-- The list semantics of a whole schedule. -/
def run (actions : List FaultAction) : Replay := actions.foldl (apply ids) r

/-- Every action is allowed when its turn comes. -/
def AllowsAll : Replay → List FaultAction → Prop
  | _, [] => True
  | r, action :: actions => r.Allows ids action ∧ AllowsAll (r.apply ids action) actions

/-- The resolved form of a schedule. -/
def plannedAll : Replay → List FaultAction → List PlannedAction
  | _, [] => []
  | r, action :: actions => r.planned ids action :: plannedAll (r.apply ids action) actions

/-! ### Occurrence numbers -/

/-- Live occurrences are distinct, of known sources, and below the next
unused number. -/
structure Numbered (prefixLen : Nat) (r : Replay) : Prop where
  nodup : r.live.Nodup
  known : ∀ key ∈ r.live, key.source < prefixLen
  used : ∀ key ∈ r.live, key.occurrence < r.next key.source

variable {ids r} {prefixLen : Nat} {action : FaultAction}

theorem numbered_start (prefixLen : Nat) : Numbered prefixLen (start prefixLen) where
  nodup := List.nodup_range.map fun _ _ h => congrArg DeliveryKey.source h
  known := fun key hkey => by
    obtain ⟨source, hsource, rfl⟩ := List.mem_map.mp hkey
    exact List.mem_range.mp hsource
  used := fun key hkey => by
    obtain ⟨source, -, rfl⟩ := List.mem_map.mp hkey
    exact Nat.one_pos

theorem mem_unused {source copies : Nat} {key : DeliveryKey} :
    key ∈ r.unused source copies ↔ key.source = source ∧ r.next source ≤ key.occurrence ∧
      key.occurrence < r.next source + copies := by
  unfold unused
  rw [List.mem_map]
  constructor
  · rintro ⟨offset, hoffset, rfl⟩
    have := List.mem_range.mp hoffset
    exact ⟨rfl, Nat.le_add_right _ _, Nat.add_lt_add_left this _⟩
  · rintro ⟨rfl, hle, hlt⟩
    refine ⟨key.occurrence - r.next key.source, List.mem_range.mpr (by omega), ?_⟩
    rw [Nat.add_sub_cancel' hle]

theorem nodup_unused (source copies : Nat) : (r.unused source copies).Nodup :=
  List.nodup_range.map fun _ _ h => Nat.add_left_cancel (congrArg DeliveryKey.occurrence h)

/-- The unused occurrences are not live. -/
theorem Numbered.unused_disjoint (hr : Numbered prefixLen r) (source copies : Nat) :
    (r.unused source copies).Disjoint r.live := by
  intro key hunused hlive
  obtain ⟨rfl, hle, -⟩ := mem_unused.mp hunused
  have := hr.used key hlive
  omega

/-- A move permutes the live occurrences. -/
theorem Numbered.moveBefore_perm (hr : Numbered prefixLen r) {target anchor : DeliveryRef}
    (h : r.Allows ids (.moveBefore target anchor)) :
    (r.apply ids (.moveBefore target anchor)).live.Perm r.live := by
  have hanchor : keyOf ids anchor ∈ r.live.erase (keyOf ids target) :=
    hr.nodup.mem_erase_iff.mpr ⟨fun heq => h.2.2 heq.symm, h.2.1⟩
  exact (insertBefore_perm hanchor).trans (List.perm_cons_erase h.1).symm

theorem Numbered.apply (hr : Numbered prefixLen r) (h : r.Allows ids action) :
    Numbered prefixLen (r.apply ids action) := by
  cases action with
  | drop target =>
      exact ⟨hr.nodup.erase _, fun key hkey => hr.known key (List.mem_of_mem_erase hkey),
        fun key hkey => hr.used key (List.mem_of_mem_erase hkey)⟩
  | duplicate target copies =>
      have hperm : (insertAfter (keyOf ids target) (r.unused (keyOf ids target).source
          copies.toNat) r.live).Perm _ := insertAfter_perm h.1
      refine ⟨?_, fun key hkey => ?_, fun key hkey => ?_⟩
      · exact hperm.nodup_iff.mpr ((nodup_unused _ _).append hr.nodup (hr.unused_disjoint _ _))
      · rcases List.mem_append.mp (hperm.mem_iff.mp hkey) with hnew | hold
        · rw [(mem_unused.mp hnew).1]
          exact hr.known _ h.1
        · exact hr.known key hold
      · show key.occurrence < Function.update r.next _ _ key.source
        rcases List.mem_append.mp (hperm.mem_iff.mp hkey) with hnew | hold
        · obtain ⟨hsource, -, hlt⟩ := mem_unused.mp hnew
          rw [hsource, Function.update_self]
          exact hlt
        · have hused := hr.used key hold
          by_cases hsource : key.source = (keyOf ids target).source
          · rw [hsource, Function.update_self]
            rw [hsource] at hused
            omega
          · rwa [Function.update_of_ne hsource]
  | moveBefore target anchor =>
      have hperm := hr.moveBefore_perm h
      exact ⟨hperm.nodup_iff.mpr hr.nodup, fun key hkey => hr.known key (hperm.mem_iff.mp hkey),
        fun key hkey => hr.used key (hperm.mem_iff.mp hkey)⟩

/-- An action adds the copies it asks for, and a drop takes one away. -/
theorem Numbered.length_apply (hr : Numbered prefixLen r) (h : r.Allows ids action) :
    (r.apply ids action).live.length + action.drops = r.live.length + action.copies := by
  cases action with
  | drop target =>
      have hpos : 0 < r.live.length := List.length_pos_of_mem h
      show (r.live.erase (keyOf ids target)).length + 1 = r.live.length + 0
      rw [List.length_erase_of_mem h]
      omega
  | duplicate target copies =>
      have hperm : (insertAfter (keyOf ids target) (r.unused (keyOf ids target).source
          copies.toNat) r.live).Perm _ := insertAfter_perm h.1
      show (insertAfter _ _ r.live).length + 0 = r.live.length + copies.toNat
      rw [hperm.length_eq, List.length_append, unused, List.length_map, List.length_range]
      omega
  | moveBefore target anchor => exact (hr.moveBefore_perm h).length_eq

/-- The live occurrences at the end are those of the start and the copies,
without the dropped ones. -/
theorem Numbered.length_run {actions : List FaultAction} (hr : Numbered prefixLen r)
    (h : AllowsAll ids r actions) : Numbered prefixLen (r.run ids actions) ∧
      (r.run ids actions).live.length + totalDrops actions =
        r.live.length + totalCopies actions := by
  induction actions generalizing r with
  | nil => exact ⟨hr, rfl⟩
  | cons action actions ih =>
      obtain ⟨hnumbered, hlength⟩ := ih (hr.apply h.1) h.2
      have hone := hr.length_apply h.1
      have hcopies : totalCopies (action :: actions) = action.copies + totalCopies actions := by
        simp [totalCopies]
      have hdrops : totalDrops (action :: actions) = action.drops + totalDrops actions := by
        simp [totalDrops]
      have hrun : r.run ids (action :: actions) = (r.apply ids action).run ids actions := rfl
      rw [hrun, hcopies, hdrops]
      exact ⟨hnumbered, by omega⟩

theorem Numbered.run {actions : List FaultAction} (hr : Numbered prefixLen r)
    (h : AllowsAll ids r actions) : Numbered prefixLen (r.run ids actions) ∧
      (r.run ids actions).live.length ≤ r.live.length + totalCopies actions := by
  obtain ⟨hnumbered, hlength⟩ := hr.length_run h
  exact ⟨hnumbered, by omega⟩

end Replay

end KvCrucible
