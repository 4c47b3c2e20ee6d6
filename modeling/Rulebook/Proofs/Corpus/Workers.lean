import Rulebook.Corpus.Workers

/-!
# Dividing the work

The shares of a list, joined, are the list. There is one for every worker or fewer, and none is empty.
Work that is shared out therefore comes to what one worker does alone.
-/

namespace Rulebook

set_option autoImplicit false

variable {α β : Type} {size fuel : Nat} {xs : List α}

theorem flatten_shares (hsize : 0 < size) (hfuel : xs.length ≤ fuel) :
    (shares size fuel xs).flatten = xs := by
  induction fuel generalizing xs with
  | zero =>
    have hnil : xs = [] := List.length_eq_zero_iff.mp (Nat.le_zero.mp hfuel)
    simp [shares, hnil]
  | succ fuel ih =>
    cases xs with
    | nil => simp [shares]
    | cons x rest =>
      rw [shares, List.flatten_cons, ih, List.take_append_drop]
      · simp only [List.length_drop, List.length_cons] at hfuel ⊢
        omega
      · exact List.cons_ne_nil _ _

theorem length_shares_le {count : Nat} (h : xs.length ≤ count * size) :
    (shares size fuel xs).length ≤ count := by
  induction fuel generalizing xs count with
  | zero => exact Nat.zero_le _
  | succ fuel ih =>
    cases xs with
    | nil => exact Nat.zero_le _
    | cons x rest =>
      cases count with
      | zero =>
        rw [Nat.zero_mul] at h
        cases h
      | succ count =>
        rw [shares, List.length_cons]
        · refine Nat.succ_le_succ (ih ?_)
          rw [List.length_drop]
          rw [Nat.succ_mul] at h
          omega
        · exact List.cons_ne_nil _ _

theorem filled_of_mem_shares (hsize : 0 < size) {share : List α}
    (h : share ∈ shares size fuel xs) : share ≠ [] ∧ share.length ≤ size := by
  induction fuel generalizing xs with
  | zero => cases h
  | succ fuel ih =>
    cases xs with
    | nil => cases h
    | cons x rest =>
      rw [shares] at h
      · rcases List.mem_cons.mp h with rfl | h
        · refine ⟨fun hnil => ?_, List.length_take_le _ _⟩
          have hlength := congrArg List.length hnil
          simp only [List.length_take, List.length_cons, List.length_nil] at hlength
          omega
        · exact ih h
      · exact List.cons_ne_nil _ _

/-! ## How long the shares are -/

theorem effectiveWorkers_pos (available requested items : Nat) :
    0 < effectiveWorkers available requested items := by
  rw [effectiveWorkers]
  omega

theorem shareSize_pos {workers items : Nat} (hworkers : 0 < workers) (hitems : 0 < items) :
    0 < shareSize workers items :=
  Nat.div_pos (by omega) hworkers

theorem le_mul_shareSize {workers items : Nat} (hworkers : 0 < workers) :
    items ≤ workers * shareSize workers items := by
  have hlt : items + workers - 1 < workers * (shareSize workers items + 1) :=
    Nat.lt_mul_div_succ _ hworkers
  rw [Nat.mul_succ] at hlt
  omega

/-- A list cut up for a number of workers. -/
structure Divides (workers size : Nat) (items : List α) (parts : List (List α)) : Prop where
  size_pos : items ≠ [] → 0 < size
  flatten : parts.flatten = items
  few : parts.length ≤ workers
  filled : ∀ part ∈ parts, part ≠ [] ∧ part.length ≤ size

theorem divides_shares {workers : Nat} (hworkers : 0 < workers) (items : List α) :
    Divides workers (shareSize workers items.length) items
      (shares (shareSize workers items.length) items.length items) := by
  cases items with
  | nil => exact ⟨fun hne => absurd rfl hne, rfl, Nat.zero_le _, fun _ h => by cases h⟩
  | cons x rest =>
    have hsize : 0 < shareSize workers (x :: rest).length :=
      shareSize_pos hworkers (Nat.succ_pos _)
    constructor
    · exact fun _ => hsize
    · exact flatten_shares hsize (Nat.le_refl _)
    · exact length_shares_le (le_mul_shareSize hworkers)
    · exact fun _ hpart => filled_of_mem_shares hsize hpart

theorem Divides.flatMap_map {workers : Nat} {items : List α} {parts : List (List α)}
    (h : Divides workers size items parts) (work : α → β) :
    parts.flatMap (List.map work) = items.map work := by
  rw [List.flatMap_def, ← List.map_flatten, h.flatten]

theorem shareOut_eq_map {workers : Nat} (hworkers : 0 < workers) (work : α → β) (items : List α) :
    shareOut workers work items = items.map work := by
  rw [shareOut]
  split
  · rfl
  · exact (divides_shares hworkers items).flatMap_map work

end Rulebook
