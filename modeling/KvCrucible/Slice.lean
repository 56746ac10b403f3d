/-
KvCrucible/Slice.lean

The actions of a schedule that a stream depends on.

An action on an occurrence of another stream can still decide where an
occurrence of the stream ends up: a later move may be anchored at what it
moved.  `slice` reads a schedule backwards and keeps the actions on watched
occurrences, which are those of the stream and the anchors of what was kept so
far.  Along a replay and the replay of its slice the watched occurrences are
the same and stand in the same order (`SameWatched`), so two schedules with one
slice leave the stream the same, whatever else they do.
-/
import KvCrucible.Replay

namespace KvCrucible

open Basis

namespace Replay

variable (ids : List String) (p : Nat → Bool) (anchors : List DeliveryKey)

/-! ### What a schedule depends on -/

/-- An occurrence of a watched source, or an anchor. -/
def watched (key : DeliveryKey) : Bool := p key.source || decide (key ∈ anchors)

/-- Among the copies of a source, which all have positive numbers, one may be
watched. -/
def watchesCopies (source : Nat) : Bool :=
  p source || anchors.any fun anchor => decide (anchor.source = source ∧ 0 < anchor.occurrence)

/-- An action drops or moves a watched occurrence, or numbers copies one of
which may be watched. -/
def concerns : FaultAction → Bool
  | .drop target => watched p anchors (keyOf ids target)
  | .duplicate target _ => watchesCopies p anchors (keyOf ids target).source
  | .moveBefore target _ => watched p anchors (keyOf ids target)

/-- The occurrence beside which an action puts something. -/
def anchorOf : FaultAction → DeliveryKey
  | .drop target => keyOf ids target
  | .duplicate target _ => keyOf ids target
  | .moveBefore _ anchor => keyOf ids anchor

/-- An action in front of a slice. -/
def sliceStep (action : FaultAction) (later : List FaultAction × List DeliveryKey) :
    List FaultAction × List DeliveryKey :=
  if concerns ids p later.2 action then (action :: later.1, anchorOf ids action :: later.2)
  else later

/-- The actions that some sources depend on, and their anchors. -/
def slice (actions : List FaultAction) : List FaultAction × List DeliveryKey :=
  actions.foldr (sliceStep ids p) ([], [])

variable {ids p anchors} {r r' : Replay} {action : FaultAction} {key : DeliveryKey}
  {before edits after actions actions' : List FaultAction}

theorem watched_nil : watched p [] key = p key.source := by
  simp [watched]

theorem watched_cons : watched p (key :: anchors) key = true := by
  simp [watched]

theorem watched_of_cons {anchor : DeliveryKey} (h : watched p anchors key = true) :
    watched p (anchor :: anchors) key = true := by
  unfold watched at h ⊢
  rcases (Bool.or_eq_true _ _).mp h with hsource | hmem
  · rw [hsource, Bool.true_or]
  · rw [decide_eq_true (List.mem_cons_of_mem _ (of_decide_eq_true hmem)), Bool.or_true]

theorem watchesCopies_of_cons {anchor : DeliveryKey} {source : Nat}
    (h : watchesCopies p anchors source = true) :
    watchesCopies p (anchor :: anchors) source = true := by
  unfold watchesCopies at h ⊢
  rw [List.any_cons, Bool.or_left_comm, h, Bool.or_true]

/-- The copies of a source that is not watched are not watched. -/
theorem watched_of_copy (h : watchesCopies p anchors key.source = false)
    (hcopy : 0 < key.occurrence) : watched p anchors key = false := by
  unfold watchesCopies at h
  obtain ⟨hsource, hnone⟩ := (Bool.or_eq_false_iff).mp h
  refine Bool.or_eq_false_iff.mpr ⟨hsource, decide_eq_false fun hmem => ?_⟩
  exact (List.any_eq_false.mp hnone) key hmem (decide_eq_true ⟨rfl, hcopy⟩)

/-- Edits that concern nothing behind them are not in the slice. -/
theorem slice_edits (h : ∀ edit ∈ edits, concerns ids p (slice ids p after).2 edit = false) :
    slice ids p (before ++ edits ++ after) = slice ids p (before ++ after) := by
  have hskipped : slice ids p (edits ++ after) = slice ids p after := by
    induction edits with
    | nil => rfl
    | cons edit edits ih =>
        rw [List.forall_mem_cons] at h
        have hrest := ih h.2
        show sliceStep ids p edit (slice ids p (edits ++ after)) = _
        rw [hrest, sliceStep, h.1, if_neg Bool.false_ne_true]
  rw [List.append_assoc, slice, List.foldr_append]
  show before.foldr (sliceStep ids p) (slice ids p (edits ++ after)) = _
  rw [hskipped]
  exact List.foldr_append.symm

/-! ### Along a replay -/

/-- Two replays show the same watched occurrences in the same order, and number
copies that may be watched alike. -/
structure SameWatched (p : Nat → Bool) (anchors : List DeliveryKey) (r r' : Replay) : Prop where
  live : r.live.filter (watched p anchors) = r'.live.filter (watched p anchors)
  next : ∀ source, watchesCopies p anchors source = true → r.next source = r'.next source
  positive : ∀ source, 0 < r.next source ∧ 0 < r'.next source

/-- Fewer anchors are watched all the same. -/
theorem SameWatched.of_cons {anchor : DeliveryKey} (h : SameWatched p (anchor :: anchors) r r') :
    SameWatched p anchors r r' where
  live := by
    have hnarrow : ∀ keys : List DeliveryKey, keys.filter (watched p anchors) =
        (keys.filter (watched p (anchor :: anchors))).filter (watched p anchors) := by
      intro keys
      rw [List.filter_filter]
      refine List.filter_congr fun key _ => ?_
      cases hkey : watched p anchors key with
      | false => rfl
      | true => rw [watched_of_cons hkey, Bool.and_true]
    rw [hnarrow r.live, hnarrow r'.live, h.live]
  next := fun source hsource => h.next source (watchesCopies_of_cons hsource)
  positive := h.positive

/-- No action takes a number back. -/
theorem next_le_apply (source : Nat) : r.next source ≤ (r.apply ids action).next source := by
  cases action with
  | drop target => exact Nat.le_refl _
  | moveBefore target anchor => exact Nat.le_refl _
  | duplicate target copies =>
      show _ ≤ Function.update r.next _ _ source
      by_cases hsource : source = (keyOf ids target).source
      · subst hsource
        rw [Function.update_self]
        exact Nat.le_add_right _ _
      · rw [Function.update_of_ne hsource]

/-- An action that concerns nothing watched is not seen. -/
theorem SameWatched.skip (h : SameWatched p anchors r r')
    (hskip : concerns ids p anchors action = false) :
    SameWatched p anchors (r.apply ids action) r' where
  live := by
    refine Eq.trans ?_ h.live
    cases action with
    | drop target => exact filter_erase hskip
    | duplicate target copies =>
        -- new copies have positive numbers, and none of them is watched
        refine filter_insertAfter fun key hkey => ?_
        obtain ⟨hsource, hle, -⟩ := mem_unused.mp hkey
        exact watched_of_copy (hsource ▸ hskip) ((h.positive _).1.trans_le hle)
    | moveBefore target anchor =>
        have hmoved : watched p anchors (keyOf ids target) = false := hskip
        exact (filter_insertBefore hmoved).trans (filter_erase hmoved)
  next := fun source hsource => by
    refine Eq.trans ?_ (h.next source hsource)
    cases action with
    | drop target => rfl
    | moveBefore target anchor => rfl
    | duplicate target copies =>
        refine Function.update_of_ne ?_ _ _
        rintro rfl
        exact Bool.false_ne_true (hskip.symm.trans hsource)
  positive := fun source =>
    ⟨(h.positive source).1.trans_le (next_le_apply source), (h.positive source).2⟩

/-- An action on something watched does the same on both sides, when its anchor
is watched as well. -/
theorem SameWatched.apply (h : SameWatched p (anchorOf ids action :: anchors) r r')
    (hconcerns : concerns ids p anchors action = true) :
    SameWatched p anchors (r.apply ids action) (r'.apply ids action) := by
  have hpositive : ∀ source,
      0 < (r.apply ids action).next source ∧ 0 < (r'.apply ids action).next source :=
    fun source => ⟨(h.positive source).1.trans_le (next_le_apply source),
      (h.positive source).2.trans_le (next_le_apply source)⟩
  -- with the anchor still watched behind the action both sides edit at one place
  suffices hboth : SameWatched p (anchorOf ids action :: anchors) (r.apply ids action)
      (r'.apply ids action) from hboth.of_cons
  refine ⟨?_, fun source hsource => ?_, hpositive⟩
  · cases action with
    | drop target =>
        show (r.live.erase _).filter _ = (r'.live.erase _).filter _
        rw [← List.erase_filter, ← List.erase_filter, h.live]
    | duplicate target copies =>
        have hanchor : watched p (anchorOf ids (.duplicate target copies) :: anchors)
            (keyOf ids target) = true := watched_cons
        have hnext := h.next _ (watchesCopies_of_cons hconcerns)
        show (insertAfter _ (r.unused _ _) r.live).filter _ =
          (insertAfter _ (r'.unused _ _) r'.live).filter _
        rw [filter_insertAfter_of_pos hanchor, filter_insertAfter_of_pos hanchor, h.live, unused,
          unused, hnext]
    | moveBefore target anchor =>
        have hanchor : watched p (anchorOf ids (.moveBefore target anchor) :: anchors)
            (keyOf ids anchor) = true := watched_cons
        have hmoved : watched p (anchorOf ids (.moveBefore target anchor) :: anchors)
            (keyOf ids target) = true := watched_of_cons hconcerns
        show (insertBefore _ _ (r.live.erase _)).filter _ =
          (insertBefore _ _ (r'.live.erase _)).filter _
        rw [filter_insertBefore_of_pos hanchor hmoved, filter_insertBefore_of_pos hanchor hmoved,
          ← List.erase_filter, ← List.erase_filter, h.live]
  · have hnext := h.next source hsource
    cases action with
    | drop target => exact hnext
    | moveBefore target anchor => exact hnext
    | duplicate target copies =>
        show Function.update r.next _ _ source = Function.update r'.next _ _ source
        by_cases hself : source = (keyOf ids target).source
        · subst hself
          rw [Function.update_self, Function.update_self, hnext]
        · rw [Function.update_of_ne hself, Function.update_of_ne hself, hnext]

/-- A schedule and its slice lead to the same watched occurrences. -/
theorem SameWatched.run (h : SameWatched p (slice ids p actions).2 r r') :
    SameWatched p [] (r.run ids actions) (r'.run ids (slice ids p actions).1) := by
  induction actions generalizing r r' with
  | nil => exact h
  | cons action actions ih =>
      have hstep : slice ids p (action :: actions) =
          sliceStep ids p action (slice ids p actions) := rfl
      rw [hstep, sliceStep] at h ⊢
      -- what the later actions watch decides whether this one is kept
      cases hconcerns : concerns ids p (slice ids p actions).2 action with
      | true =>
          rw [hconcerns, if_pos rfl] at h
          exact ih (h.apply hconcerns)
      | false =>
          rw [hconcerns, if_neg Bool.false_ne_true] at h
          exact ih (h.skip hconcerns)

/-- Schedules with one slice leave the occurrences of the sources in the same
order. -/
theorem filter_run {prefixLen : Nat} (h : (slice ids p actions).1 = (slice ids p actions').1) :
    ((start prefixLen).run ids actions).live.filter (fun key => p key.source) =
      ((start prefixLen).run ids actions').live.filter fun key => p key.source := by
  have hstart : ∀ anchors, SameWatched p anchors (start prefixLen) (start prefixLen) :=
    fun _ => ⟨rfl, fun _ _ => rfl, fun _ => ⟨Nat.one_pos, Nat.one_pos⟩⟩
  have hsource : watched p [] = fun key => p key.source := funext fun _ => watched_nil
  have hleft := (hstart (slice ids p actions).2).run.live
  have hright := (hstart (slice ids p actions').2).run.live
  rw [hsource] at hleft hright
  rw [hleft, hright, h]

end Replay

end KvCrucible
