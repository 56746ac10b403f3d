/-
KvCrucible/Basis/LogFold.lean

Folding a position-indexed log into a state.

A log assigns an entry to every position and entries act on states.
`foldLog act log lo hi s` runs the entries at `lo, lo + 1, .., hi - 1` in
order.
-/
import Mathlib

namespace Basis

variable {α σ : Type*} (act : α → σ → σ)

/-- Run the log entries at positions `lo ≤ i < hi` in order. -/
def foldLog (log : Nat → α) (lo hi : Nat) (s : σ) : σ :=
  (List.range' lo (hi - lo)).foldl (fun s i => act (log i) s) s

variable {act}

@[simp] theorem foldLog_self (log : Nat → α) (lo : Nat) (s : σ) :
    foldLog act log lo lo s = s := by
  simp [foldLog]

theorem foldLog_succ (log : Nat → α) {lo hi : Nat} (h : lo ≤ hi) (s : σ) :
    foldLog act log lo (hi + 1) s = act (log hi) (foldLog act log lo hi s) := by
  have hlen : hi + 1 - lo = (hi - lo) + 1 := by omega
  have hlast : lo + (hi - lo) = hi := by omega
  rw [foldLog, foldLog, hlen, List.range'_concat, List.foldl_append, Nat.one_mul, hlast]
  rfl

/-- A fold over a list of entries laid out contiguously from `hi` extends the
fold up to `hi`. -/
theorem foldLog_add (log : Nat → α) {lo hi : Nat} (h : lo ≤ hi) (entries : List α) (s : σ)
    (hentries : ∀ k, ∀ hk : k < entries.length, log (hi + k) = entries[k]) :
    foldLog act log lo (hi + entries.length) s
      = entries.foldl (fun s a => act a s) (foldLog act log lo hi s) := by
  induction entries using List.reverseRecOn with
  | nil => simp
  | append_singleton entries a ih =>
      have hlen : hi + (entries ++ [a]).length = (hi + entries.length) + 1 := by
        rw [List.length_append]
        rfl
      have hlast : log (hi + entries.length) = a := by
        rw [hentries entries.length (by simp)]
        simp
      rw [hlen, foldLog_succ log (by omega), List.foldl_append, hlast,
        ih fun k hk => ?_]
      · rfl
      · rw [hentries k (by simp; omega), List.getElem_append_left hk]

/-! ### Frontiers -/

/-- `next` is the first position a reader of the delivered positions `S` has
not passed: it starts at `init`, may jump to any reset position in `R`, and
otherwise advances over delivered positions only. -/
structure Frontier (init : Nat) (S R : Nat → Prop) (next : Nat) : Prop where
  init_le : init ≤ next
  not_delivered : ¬ S next
  resets_past : ∀ r, R r → r < next
  anchor : ∃ a, (a = init ∨ R a) ∧ a ≤ next ∧ ∀ c, a ≤ c → c < next → S c

theorem Frontier.le {init : Nat} {S R : Nat → Prop} {next next' : Nat}
    (h : Frontier init S R next) (h' : Frontier init S R next') : next' ≤ next := by
  refine Nat.le_of_not_lt fun hlt => ?_
  obtain ⟨a, ha, -, hdense⟩ := h'.anchor
  -- `next` was not delivered, so the other reader anchored behind it
  have hbehind : next < a := Nat.lt_of_not_le fun hle => h.not_delivered (hdense next hle hlt)
  rcases ha with rfl | ha
  · exact absurd h.init_le (Nat.not_le_of_lt hbehind)
  · exact absurd (h.resets_past a ha) (Nat.not_lt_of_lt hbehind)

/-- The frontier is a function of what was delivered. -/
theorem Frontier.unique {init : Nat} {S R : Nat → Prop} {next next' : Nat}
    (h : Frontier init S R next) (h' : Frontier init S R next') : next = next' :=
  Nat.le_antisymm (h'.le h) (h.le h')

/-- Over an interval of deliveries the frontier is right behind it. -/
theorem Frontier.of_interval {init : Nat} {S R : Nat → Prop} {next m : Nat}
    (h : Frontier init S R next) (hinit : init ≤ m) (hS : ∀ c, S c ↔ init ≤ c ∧ c ≤ m)
    (hR : ∀ r, R r → S r) : next = m + 1 := by
  have hlt : m < next := by
    refine Nat.lt_of_not_le fun hle => h.not_delivered ?_
    exact (hS next).mpr ⟨h.init_le, hle⟩
  obtain ⟨a, ha, -, hdense⟩ := h.anchor
  have ham : a ≤ m := by
    rcases ha with rfl | ha
    · exact hinit
    · exact ((hS a).mp (hR a ha)).2
  have hle : next ≤ m + 1 := by
    refine Nat.le_of_not_lt fun hgt => ?_
    have := (hS (m + 1)).mp (hdense (m + 1) (by omega) hgt)
    omega
  omega

end Basis
