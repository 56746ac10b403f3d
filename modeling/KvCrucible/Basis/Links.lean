/-
KvCrucible/Basis/Links.lean

Doubly linked lists, apart from where the links are stored.

Links are read at `Option ι`: behind and before an element, and at `none` for
both ends of the list, so that `next none` is its head and `prev none` its
tail.  `Threads L order` says that at every cut of `order` the links on both
sides of the cut point at each other.  Insertion and removal change the links
at one cut only, and the other cuts are told apart from it by the elements
next to them.
-/
import Mathlib

namespace Basis

variable {ι : Type*}

/-- Links between elements, with `none` at both ends. -/
@[ext]
structure Links (ι : Type*) where
  next : Option ι → Option ι
  prev : Option ι → Option ι

namespace Links

section Set

variable [DecidableEq ι] (L : Links ι) (place target : Option ι)

/-- Redirect the link behind a place. -/
def setNext : Links ι := { L with next := Function.update L.next place target }

/-- Redirect the link before a place. -/
def setPrev : Links ι := { L with prev := Function.update L.prev place target }

/-- Link an element in between two places. -/
def linkIn (before : Option ι) (i : ι) (behind : Option ι) : Links ι :=
  (((L.setNext (some i) behind).setPrev (some i) before).setNext before (some i)).setPrev behind
    (some i)

/-- Link an element out from between two places. -/
def linkOut (before : Option ι) (i : ι) (behind : Option ι) : Links ι :=
  (((L.setNext before behind).setPrev behind before).setPrev (some i) none).setNext (some i) none

@[simp] theorem setNext_next :
    (L.setNext place target).next = Function.update L.next place target := rfl

@[simp] theorem setNext_prev : (L.setNext place target).prev = L.prev := rfl

@[simp] theorem setPrev_next : (L.setPrev place target).next = L.next := rfl

@[simp] theorem setPrev_prev :
    (L.setPrev place target).prev = Function.update L.prev place target := rfl

end Set

/-- At every cut of the order, both sides point at each other. -/
def Threads (L : Links ι) (order : List ι) : Prop :=
  ∀ xs ys, order = xs ++ ys → L.next xs.getLast? = ys.head? ∧ L.prev ys.head? = xs.getLast?

variable {L L' : Links ι} {as bs cs xs ys : List ι} {i : ι}

/-! ### Cuts -/

/-- Around one element, a list without duplicates can be cut in one way. -/
theorem split_unique {a : ι} (hnodup : (as ++ a :: bs).Nodup)
    (heq : as ++ a :: bs = xs ++ a :: ys) : xs = as ∧ ys = bs := by
  have hnot := (List.nodup_cons.mp (List.nodup_middle.mp hnodup)).1
  have has : a ∉ as := fun hmem => hnot (List.mem_append_left _ hmem)
  have hbs : a ∉ bs := fun hmem => hnot (List.mem_append_right _ hmem)
  obtain ⟨hxs, -, hys⟩ := (List.append_cons_inj_of_notMem has hbs).mp heq
  exact ⟨hxs.symm, hys.symm⟩

/-- A cut is determined by the element before it. -/
theorem cut_of_getLast? (hnodup : (as ++ bs).Nodup) (heq : as ++ bs = xs ++ ys)
    (hlast : xs.getLast? = as.getLast?) : xs = as := by
  rcases List.eq_nil_or_concat as with rfl | ⟨as, a, rfl⟩
  · exact List.getLast?_eq_none_iff.mp hlast
  · rw [List.concat_eq_append] at *
    rw [List.getLast?_concat, List.getLast?_eq_some_iff] at hlast
    obtain ⟨xs, rfl⟩ := hlast
    rw [List.append_assoc, List.singleton_append] at hnodup
    rw [List.append_assoc, List.append_assoc, List.singleton_append, List.singleton_append] at heq
    rw [(split_unique hnodup heq).1]

/-- A cut is determined by the element behind it. -/
theorem cut_of_head? (hnodup : (as ++ bs).Nodup) (heq : as ++ bs = xs ++ ys)
    (hhead : ys.head? = bs.head?) : xs = as := by
  cases bs with
  | nil =>
      obtain rfl := List.head?_eq_none_iff.mp hhead
      rw [List.append_nil, List.append_nil] at heq
      exact heq.symm
  | cons b bs =>
      obtain ⟨ys, rfl⟩ := List.head?_eq_some_iff.mp hhead
      exact (split_unique hnodup heq).1

theorem getLast?_behind {c : ι} : (as ++ i :: cs.concat c).getLast? = some c := by
  rw [List.concat_eq_append, ← List.cons_append, ← List.append_assoc, List.getLast?_concat]

/-! ### One more and one less -/

/-- Link an element in at a cut. -/
theorem Threads.insert (h : L.Threads (as ++ bs)) (hnodup : (as ++ i :: bs).Nodup)
    (hnext : ∀ c, c ≠ as.getLast? → c ≠ some i → L'.next c = L.next c)
    (hprev : ∀ c, c ≠ bs.head? → c ≠ some i → L'.prev c = L.prev c)
    (hbefore : L'.next as.getLast? = some i) (hbehind : L'.prev bs.head? = some i)
    (hinext : L'.next (some i) = bs.head?) (hiprev : L'.prev (some i) = as.getLast?) :
    L'.Threads (as ++ i :: bs) := by
  have hold : (as ++ bs).Nodup := (List.nodup_cons.mp (List.nodup_middle.mp hnodup)).2
  have hi : i ∉ as ++ bs := (List.nodup_cons.mp (List.nodup_middle.mp hnodup)).1
  -- the links at every other cut of the old order
  have hother : ∀ xs ys, as ++ bs = xs ++ ys → xs ≠ as →
      L'.next xs.getLast? = ys.head? ∧ L'.prev ys.head? = xs.getLast? := by
    intro xs ys heq hne
    obtain ⟨hforth, hback⟩ := h xs ys heq
    rw [heq] at hi
    constructor
    · rw [hnext _ (fun hc => hne (cut_of_getLast? hold heq hc)), hforth]
      exact fun hc => hi (List.mem_append_left _ (List.mem_of_getLast? hc))
    · rw [hprev _ (fun hc => hne (cut_of_head? hold heq hc)), hback]
      exact fun hc => hi (List.mem_append_right _ (List.mem_of_head? hc))
  intro xs ys heq
  rcases List.append_eq_append_iff.mp heq with ⟨cs, rfl, hcs⟩ | ⟨cs, rfl, rfl⟩
  · cases cs with
    | nil =>
        rw [List.nil_append] at hcs
        obtain rfl := hcs
        rw [List.append_nil]
        exact ⟨hbefore, hiprev⟩
    | cons c cs =>
        obtain ⟨rfl, rfl⟩ := List.cons.inj hcs
        rcases List.eq_nil_or_concat cs with rfl | ⟨cs, c, rfl⟩
        · rw [List.getLast?_concat]
          exact ⟨hinext, hbehind⟩
        · -- the cut lies behind the new element
          have := hother (as ++ cs.concat c) ys (List.append_assoc _ _ _).symm (by simp)
          rw [getLast?_behind]
          simpa using this
  · cases cs with
    | nil =>
        rw [List.append_nil] at hbefore hiprev
        exact ⟨hbefore, hiprev⟩
    | cons c cs =>
        -- the cut lies before the new element
        have := hother xs (c :: cs ++ bs) (List.append_assoc _ _ _) (by simp)
        simpa using this

/-- Link an element out. -/
theorem Threads.erase (h : L.Threads (as ++ i :: bs)) (hnodup : (as ++ i :: bs).Nodup)
    (hnext : ∀ c, c ≠ as.getLast? → c ≠ some i → L'.next c = L.next c)
    (hprev : ∀ c, c ≠ bs.head? → c ≠ some i → L'.prev c = L.prev c)
    (hbefore : L'.next as.getLast? = bs.head?) (hbehind : L'.prev bs.head? = as.getLast?) :
    L'.Threads (as ++ bs) := by
  have hold : (as ++ bs).Nodup := (List.nodup_cons.mp (List.nodup_middle.mp hnodup)).2
  have hi : i ∉ as ++ bs := (List.nodup_cons.mp (List.nodup_middle.mp hnodup)).1
  intro xs ys heq
  by_cases hne : xs = as
  · subst hne
    obtain rfl := List.append_cancel_left heq
    exact ⟨hbefore, hbehind⟩
  · have hlast : xs.getLast? ≠ as.getLast? := fun hc => hne (cut_of_getLast? hold heq hc)
    have hhead : ys.head? ≠ bs.head? := fun hc => hne (cut_of_head? hold heq hc)
    rw [heq] at hi
    rw [hnext _ hlast fun hc => hi (List.mem_append_left _ (List.mem_of_getLast? hc)),
      hprev _ hhead fun hc => hi (List.mem_append_right _ (List.mem_of_head? hc))]
    rcases List.append_eq_append_iff.mp heq with ⟨cs, rfl, rfl⟩ | ⟨cs, rfl, rfl⟩
    · rcases List.eq_nil_or_concat cs with rfl | ⟨cs, c, rfl⟩
      · exact absurd (List.append_nil _) hne
      · have := h (as ++ i :: cs.concat c) ys (by simp)
        rw [getLast?_behind] at this
        simpa using this
    · cases cs with
      | nil => exact absurd (List.append_nil _).symm hne
      | cons c cs =>
          have := h xs (c :: cs ++ i :: bs) (by simp)
          simpa using this

section LinkInOut

variable [DecidableEq ι]

theorem Threads.linkIn (h : L.Threads (as ++ bs)) (hnodup : (as ++ i :: bs).Nodup) :
    (L.linkIn as.getLast? i bs.head?).Threads (as ++ i :: bs) := by
  have hout : i ∉ as ++ bs := (List.nodup_cons.mp (List.nodup_middle.mp hnodup)).1
  have hlast : some i ≠ as.getLast? := fun hc =>
    hout (List.mem_append_left _ (List.mem_of_getLast? hc.symm))
  have hhead : some i ≠ bs.head? := fun hc =>
    hout (List.mem_append_right _ (List.mem_of_head? hc.symm))
  refine h.insert hnodup (fun c hc hci => ?_) (fun c hc hci => ?_) ?_ ?_ ?_ ?_
  · simp [Links.linkIn, hc, hci]
  · simp [Links.linkIn, hc, hci]
  · simp [Links.linkIn]
  · simp [Links.linkIn]
  · simp [Links.linkIn, hlast]
  · simp [Links.linkIn, hhead]

theorem Threads.linkOut (h : L.Threads (as ++ i :: bs)) (hnodup : (as ++ i :: bs).Nodup) :
    (L.linkOut as.getLast? i bs.head?).Threads (as ++ bs) := by
  have hout : i ∉ as ++ bs := (List.nodup_cons.mp (List.nodup_middle.mp hnodup)).1
  have hlast : as.getLast? ≠ some i := fun hc =>
    hout (List.mem_append_left _ (List.mem_of_getLast? hc))
  have hhead : bs.head? ≠ some i := fun hc =>
    hout (List.mem_append_right _ (List.mem_of_head? hc))
  refine h.erase hnodup (fun c hc hci => ?_) (fun c hc hci => ?_) ?_ ?_
  · simp [Links.linkOut, hc, hci]
  · simp [Links.linkOut, hc, hci]
  · simp [Links.linkOut, hlast]
  · simp [Links.linkOut, hhead]

end LinkInOut

/-- What stands behind an element of the list. -/
theorem Threads.next_eq (h : L.Threads (as ++ i :: bs)) : L.next (some i) = bs.head? := by
  have hcut := (h (as ++ [i]) bs (List.append_cons as i bs)).1
  rwa [List.getLast?_concat] at hcut

/-- What stands before an element of the list. -/
theorem Threads.prev_eq (h : L.Threads (as ++ i :: bs)) : L.prev (some i) = as.getLast? :=
  (h as (i :: bs) rfl).2

end Links

end Basis
