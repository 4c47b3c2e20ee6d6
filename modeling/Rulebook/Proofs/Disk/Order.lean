import Rulebook.Disk.Path
import Rulebook.Proofs.Basic

/-!
# The order of paths

Paths are ordered by their components, and a path comes before those that lead on from it. The order is
strict, and of two paths with different components one comes before the other, so sorted paths with
different components rise.
-/

namespace Rulebook.Path

set_option autoImplicit false

namespace Component

theorem before_name_iff {s t : String} : (name s).before (name t) = true ↔ s < t := decide_eq_true_iff

theorem before_irrefl (a : Component) : ¬ a.before a = true := by
  cases a with
  | name s => exact fun h => String.lt_irrefl s (before_name_iff.mp h)
  | _ => decide

theorem before_trans {a b c : Component} (hab : a.before b = true) (hbc : b.before c = true) :
    a.before c = true := by
  cases a <;> cases b <;> cases c
  case name.name.name =>
    exact before_name_iff.mpr (String.lt_trans (before_name_iff.mp hab) (before_name_iff.mp hbc))
  all_goals simp_all [before, rank]

theorem before_or_eq (a b : Component) : a.before b = true ∨ a = b ∨ b.before a = true := by
  cases a with
  | name s =>
    cases b with
    | name t =>
      rw [before_name_iff, before_name_iff, name.injEq]
      exact Std.lt_trichotomy s t
    | _ => exact .inr (.inr rfl)
  | _ => cases b <;> simp [before, rank]

end Component

theorem componentsBefore_cons_iff {a b : Component} {as bs : List Component} :
    componentsBefore (a :: as) (b :: bs) = true ↔
      a.before b = true ∨ a = b ∧ componentsBefore as bs = true := by
  rw [componentsBefore, Bool.or_eq_true, Bool.and_eq_true, beq_iff_eq]

theorem componentsBefore_irrefl (as : List Component) : ¬ componentsBefore as as = true := by
  induction as with
  | nil => exact Bool.false_ne_true
  | cons a as ih =>
    rw [componentsBefore_cons_iff, not_or, not_and]
    exact ⟨a.before_irrefl, fun _ => ih⟩

theorem componentsBefore_trans {as bs cs : List Component} (hab : componentsBefore as bs = true)
    (hbc : componentsBefore bs cs = true) : componentsBefore as cs = true := by
  induction as generalizing bs cs with
  | nil =>
    cases cs with
    | nil => cases bs <;> cases hbc
    | cons c cs => rfl
  | cons a as ih =>
    cases bs with
    | nil => cases hab
    | cons b bs =>
      cases cs with
      | nil => cases hbc
      | cons c cs =>
        rw [componentsBefore_cons_iff] at hab hbc ⊢
        rcases hab with hab | ⟨rfl, hab⟩
        · rcases hbc with hbc | ⟨rfl, -⟩
          · exact .inl (Component.before_trans hab hbc)
          · exact .inl hab
        · exact hbc.imp_right fun ⟨heq, hbc⟩ => ⟨heq, ih hab hbc⟩

theorem componentsBefore_or_eq (as bs : List Component) :
    componentsBefore as bs = true ∨ as = bs ∨ componentsBefore bs as = true := by
  induction as generalizing bs with
  | nil =>
    cases bs with
    | nil => exact .inr (.inl rfl)
    | cons b bs => exact .inl rfl
  | cons a as ih =>
    cases bs with
    | nil => exact .inr (.inr rfl)
    | cons b bs =>
      rw [componentsBefore_cons_iff, componentsBefore_cons_iff]
      rcases a.before_or_eq b with hbefore | rfl | hbefore
      · exact .inl (.inl hbefore)
      · rcases ih bs with hbefore | rfl | hbefore
        · exact .inl (.inr ⟨rfl, hbefore⟩)
        · exact .inr (.inl rfl)
        · exact .inr (.inr (.inr ⟨rfl, hbefore⟩))
      · exact .inr (.inr (.inl hbefore))

variable {p q r : Path}

theorem before_or_eq (p q : Path) :
    p.before q = true ∨ p.components = q.components ∨ q.before p = true :=
  componentsBefore_or_eq _ _

theorem before_asymm (h : p.before q = true) : ¬ q.before p = true :=
  fun hback => componentsBefore_irrefl _ (componentsBefore_trans h hback)

theorem before_of_not_before (hpq : p.before q = true) (hrq : ¬ r.before q = true) :
    p.before r = true := by
  rcases q.before_or_eq r with hqr | heq | hback
  · exact componentsBefore_trans hpq hqr
  · rwa [before, ← heq]
  · exact absurd hback hrq

/-- Paths with different components rise once they are sorted. -/
theorem pairwise_before_mergeSort {paths : List Path} (hdistinct : (paths.map components).Nodup) :
    (paths.mergeSort fun p q => !q.before p).Pairwise fun p q => p.before q = true := by
  have htrans (p q r : Path) (hpq : (!q.before p) = true) (hqr : (!r.before q) = true) :
      (!r.before p) = true := by
    rw [Bool.not_eq_true', ← Bool.not_eq_true] at hpq hqr ⊢
    exact fun hrp => hqr (before_of_not_before hrp hpq)
  have htotal (p q : Path) : (!q.before p || !p.before q) = true := by
    cases hqp : q.before p with
    | false => rfl
    | true => rw [Bool.eq_false_iff.mpr (before_asymm hqp), Bool.not_false, Bool.or_true]
  have hsorted := List.pairwise_mergeSort htrans htotal paths
  have hapart : ((paths.mergeSort fun p q => !q.before p).map components).Nodup :=
    ((List.mergeSort_perm paths _).map components).nodup_iff.mpr hdistinct
  rw [List.Nodup, List.pairwise_map] at hapart
  refine (hsorted.and hapart).imp ?_
  rintro p q ⟨hnot, hne⟩
  rw [Bool.not_eq_true', ← Bool.not_eq_true] at hnot
  rcases p.before_or_eq q with hbefore | heq | hback
  · exact hbefore
  · exact absurd heq hne
  · exact absurd hback hnot

/-- Paths that rise are told by which they are. -/
theorem eq_of_pairwise_before {ps qs : List Path} (hps : ps.Pairwise fun p q => p.before q = true)
    (hqs : qs.Pairwise fun p q => p.before q = true) (h : ∀ p, p ∈ ps ↔ p ∈ qs) : ps = qs :=
  eq_of_mem_iff (fun _ _ => before_asymm) hps hqs h

end Rulebook.Path
