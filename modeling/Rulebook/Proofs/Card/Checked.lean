import Mathlib.Data.List.Induction
import Rulebook.Card.Schema
import Rulebook.Proofs.Keyed

/-!
# Checks and their combinations

A check gives a value if it has made it and found nothing wrong. It is explained if it says why where
it has made nothing. Both pass on to further checks, to checks beside each other, and to tables that
are filled entry by entry. So does what all violations have in common that a check finds.
-/

namespace Rulebook

set_option autoImplicit false

open Yaml (Node)

/-! ## Checks and their combinations -/

namespace Checked

variable {α β : Type} {x : Checked α}

/-- The check has made the value and found nothing wrong. -/
def Gives (x : Checked α) (a : α) : Prop := x.value = some a ∧ x.violations = []

/-- If the check has made nothing, it says why. -/
def Explained (x : Checked α) : Prop := x.value = none → x.violations ≠ []

@[simp] theorem gives_ok_iff {a b : α} : (ok a).Gives b ↔ a = b := by
  simp [Gives, ok]

@[simp] theorem gives_pure_iff {a b : α} : (pure a : Checked α).Gives b ↔ a = b := gives_ok_iff

@[simp] theorem not_gives_fail {field : String} {kind : ViolationKind} {a : α} :
    ¬ (fail field kind).Gives a := by
  simp [Gives, fail]

theorem gives_if_iff {p : Prop} [Decidable p] {field : String} {kind : ViolationKind} {a b : α} :
    (if p then pure a else fail field kind).Gives b ↔ p ∧ a = b := by
  split <;> simp [*]

theorem gives_unless_iff {p : Prop} [Decidable p] {field : String} {kind : ViolationKind} {a b : α} :
    (if p then fail field kind else pure a).Gives b ↔ ¬ p ∧ a = b := by
  split <;> simp [*]

theorem gives_bind_iff {check : α → Checked β} {b : β} :
    (x >>= check).Gives b ↔ ∃ a, x.Gives a ∧ (check a).Gives b := by
  show (x.next check).Gives b ↔ _
  obtain ⟨value, violations⟩ := x
  cases value with
  | none => simp [Gives, next]
  | some a => simp [Gives, next, and_left_comm]

theorem gives_also_iff {f : Checked (α → β)} {b : β} :
    (f.also x).Gives b ↔ ∃ g a, f.Gives g ∧ x.Gives a ∧ g a = b := by
  obtain ⟨make, found⟩ := f
  obtain ⟨value, violations⟩ := x
  cases make <;> cases value <;> simp [Gives, also, and_comm, and_assoc]

theorem Gives.also {f : Checked (α → β)} {g : α → β} {a : α} (hf : f.Gives g) (hx : x.Gives a) :
    (f.also x).Gives (g a) :=
  gives_also_iff.mpr ⟨g, a, hf, hx, rfl⟩

theorem explained_ok (a : α) : (ok a).Explained := fun h => nomatch h

theorem explained_fail (field : String) (kind : ViolationKind) :
    (fail field kind : Checked α).Explained :=
  fun _ => List.cons_ne_nil _ _

theorem explained_if {p : Prop} [Decidable p] {field : String} {kind : ViolationKind} {a : α} :
    (if p then pure a else fail field kind).Explained := by
  split
  · exact explained_ok a
  · exact explained_fail field kind

theorem explained_unless {p : Prop} [Decidable p] {field : String} {kind : ViolationKind} {a : α} :
    (if p then fail field kind else pure a).Explained := by
  split
  · exact explained_fail field kind
  · exact explained_ok a

theorem Explained.bind {check : α → Checked β} (hx : x.Explained)
    (hcheck : ∀ a, (check a).Explained) : (x >>= check).Explained := by
  show (x.next check).Explained
  obtain ⟨value, violations⟩ := x
  cases value with
  | none => exact fun _ => hx rfl
  | some a => exact fun hnone hnil => hcheck a hnone (List.append_eq_nil_iff.mp hnil).2

theorem Explained.also {f : Checked (α → β)} (hf : f.Explained) (hx : x.Explained) :
    (f.also x).Explained := by
  intro hnone hnil
  obtain ⟨hfound, hviolations⟩ := List.append_eq_nil_iff.mp hnil
  cases hmake : f.value with
  | none => exact hf hmake hfound
  | some g =>
    cases hvalue : x.value with
    | none => exact hx hvalue hviolations
    | some a => simp [Checked.also, hmake, hvalue] at hnone

theorem Explained.exists_gives (h : x.Explained) (hnil : x.violations = []) : ∃ a, x.Gives a := by
  cases hvalue : x.value with
  | none => exact absurd hnil (h hvalue)
  | some a => exact ⟨a, hvalue, hnil⟩

/-- All that the check has found wrong is like this. -/
def FindsOnly (x : Checked α) (p : Violation → Prop) : Prop := ∀ v ∈ x.violations, p v

section

variable {p q : Violation → Prop} {field : String} {kind : ViolationKind} {a : α}

theorem findsOnly_ok : (ok a).FindsOnly p := fun _ h => absurd h List.not_mem_nil

theorem findsOnly_fail (h : p ⟨field, kind⟩) : (fail field kind : Checked α).FindsOnly p :=
  List.forall_mem_singleton.mpr h

theorem findsOnly_if {c : Prop} [Decidable c] (h : p ⟨field, kind⟩) :
    (if c then pure a else fail field kind).FindsOnly p := by
  split
  · exact findsOnly_ok
  · exact findsOnly_fail h

theorem findsOnly_unless {c : Prop} [Decidable c] (h : p ⟨field, kind⟩) :
    (if c then fail field kind else pure a).FindsOnly p := by
  split
  · exact findsOnly_fail h
  · exact findsOnly_ok

theorem FindsOnly.imp (h : x.FindsOnly p) (hpq : ∀ v, p v → q v) : x.FindsOnly q :=
  fun v hv => hpq v (h v hv)

/-- A further check is only made of what the first one has made. -/
theorem FindsOnly.bind_value {check : α → Checked β} (hx : x.FindsOnly p)
    (hcheck : ∀ a, x.value = some a → (check a).FindsOnly p) : (x >>= check).FindsOnly p := by
  show (x.next check).FindsOnly p
  obtain ⟨value, violations⟩ := x
  cases value with
  | none => exact hx
  | some a => exact List.forall_mem_append.mpr ⟨hx, hcheck a rfl⟩

theorem FindsOnly.bind {check : α → Checked β} (hx : x.FindsOnly p)
    (hcheck : ∀ a, (check a).FindsOnly p) : (x >>= check).FindsOnly p :=
  hx.bind_value fun a _ => hcheck a

theorem FindsOnly.also {f : Checked (α → β)} (hf : f.FindsOnly p) (hx : x.FindsOnly p) :
    (f.also x).FindsOnly p :=
  List.forall_mem_append.mpr ⟨hf, hx⟩

end

end Checked

/-! ## Tables that are filled -/

namespace Filling

variable {α ε : Type} {filling : Filling α} {table : Keyed α}

def full (table : Keyed α) : Filling α := ⟨table, true, []⟩

def Explained (filling : Filling α) : Prop := filling.complete = false → filling.violations ≠ []

@[simp] theorem refuse_ne_full {field : String} {kind : ViolationKind} :
    filling.refuse field kind ≠ full table := by
  simp [refuse, full]

theorem store_eq_full_iff {name : String} {x : Checked α} :
    filling.store name x = full table ↔
      ∃ before value, filling = full before ∧ x.Gives value ∧ before.insert name value = table := by
  obtain ⟨before, complete, found⟩ := filling
  obtain ⟨value, violations⟩ := x
  cases value with
  | none => simp [store, full, Checked.Gives]
  | some value =>
    simp only [store, full, Checked.Gives, Filling.mk.injEq, List.append_eq_nil_iff,
      Option.some.injEq]
    constructor
    · rintro ⟨htable, hcomplete, hfound, hviolations⟩
      exact ⟨before, value, ⟨rfl, hcomplete, hfound⟩, ⟨rfl, hviolations⟩, htable⟩
    · rintro ⟨_, _, ⟨rfl, hcomplete, hfound⟩, ⟨rfl, hviolations⟩, htable⟩
      exact ⟨htable, hcomplete, hfound, hviolations⟩

theorem gives_checked_iff : filling.checked.Gives table ↔ filling = full table := by
  obtain ⟨before, complete, found⟩ := filling
  cases complete <;> simp [checked, Checked.Gives, full]

theorem Explained.store (h : filling.Explained) {x : Checked α} (hx : x.Explained) (name : String) :
    (filling.store name x).Explained := by
  obtain ⟨value, violations⟩ := x
  cases value with
  | none => exact fun _ hnil => hx rfl (List.append_eq_nil_iff.mp hnil).2
  | some value => exact fun hcomplete hnil => h hcomplete (List.append_eq_nil_iff.mp hnil).1

theorem explained_refuse (filling : Filling α) (field : String) (kind : ViolationKind) :
    (filling.refuse field kind).Explained :=
  fun _ hnil => List.cons_ne_nil _ _ (List.append_eq_nil_iff.mp hnil).2

theorem explained_checked {step : Filling α → ε → Filling α}
    (hstep : ∀ filling entry, filling.Explained → (step filling entry).Explained)
    (entries : List ε) : (entries.foldl step start).checked.Explained := by
  have hfilling : (entries.foldl step start).Explained :=
    List.foldlRecOn entries step (motive := Explained) (fun h => nomatch h) fun _ h entry _ =>
      hstep _ entry h
  intro hnone
  refine hfilling (Bool.eq_false_iff.mpr fun hcomplete => ?_)
  rw [checked, hcomplete] at hnone
  cases hnone

def FindsOnly (filling : Filling α) (p : Violation → Prop) : Prop := ∀ v ∈ filling.violations, p v

theorem FindsOnly.store {p : Violation → Prop} (h : filling.FindsOnly p) {x : Checked α}
    (hx : x.FindsOnly p) (name : String) : (filling.store name x).FindsOnly p := by
  obtain ⟨value, violations⟩ := x
  cases value <;> exact List.forall_mem_append.mpr ⟨h, hx⟩

theorem FindsOnly.refuse {p : Violation → Prop} (h : filling.FindsOnly p) {field : String}
    {kind : ViolationKind} (hp : p ⟨field, kind⟩) : (filling.refuse field kind).FindsOnly p :=
  List.forall_mem_append.mpr ⟨h, List.forall_mem_singleton.mpr hp⟩

theorem findsOnly_checked_of_mem {p : Violation → Prop} {step : Filling α → ε → Filling α} {entries : List ε}
    (hstep : ∀ entry ∈ entries, ∀ filling, filling.FindsOnly p → (step filling entry).FindsOnly p) :
    (entries.foldl step start).checked.FindsOnly p :=
  List.foldlRecOn entries step (motive := fun filling => filling.FindsOnly p)
    (fun _ h => absurd h List.not_mem_nil) fun filling h entry hentry => hstep entry hentry filling h

theorem findsOnly_checked {p : Violation → Prop} {step : Filling α → ε → Filling α}
    (hstep : ∀ filling entry, filling.FindsOnly p → (step filling entry).FindsOnly p)
    (entries : List ε) : (entries.foldl step start).checked.FindsOnly p :=
  findsOnly_checked_of_mem fun entry _ filling h => hstep filling entry h

/-- If a step stores what it reads from an entry, apart from the names so far, then a table is filled
from entries that can all be read, with names apart from each other. -/
theorem foldl_eq_full_iff (reads : ε → String × α → Prop) (apart : String → String → Prop)
    {step : Filling α → ε → Filling α}
    (hstep : ∀ filling entry table, step filling entry = full table ↔
      ∃ before pair, filling = full before ∧ reads entry pair ∧
        (∀ name ∈ before.keys, apart name pair.1) ∧ before.insert pair.1 pair.2 = table)
    {entries : List ε} :
    entries.foldl step start = full table ↔
      ∃ pairs, List.Forall₂ reads entries pairs ∧ (Keyed.keys pairs).Pairwise apart ∧
        Keyed.ofList pairs = table := by
  have hkeys (pairs : List (String × α)) (name : String) :
      name ∈ (Keyed.ofList pairs).keys ↔ name ∈ Keyed.keys pairs := Keyed.mem_keys_ofList pairs name
  -- from the last entry, whose step decides
  induction entries using List.reverseRecOn generalizing table with
  | nil =>
    constructor
    · intro h
      cases h
      exact ⟨[], .nil, .nil, rfl⟩
    · rintro ⟨_, hreads, -, rfl⟩
      cases hreads
      rfl
  | append_singleton entries entry ih =>
    rw [List.foldl_append, List.foldl_cons, List.foldl_nil, hstep]
    constructor
    · rintro ⟨before, pair, hfull, hreads, hnew, rfl⟩
      obtain ⟨pairs, hentries, hapart, rfl⟩ := ih.mp hfull
      refine ⟨pairs ++ [pair], List.rel_append hentries (.cons hreads .nil), ?_, ?_⟩
      · rw [Keyed.keys, List.map_append, List.pairwise_append]
        refine ⟨hapart, List.pairwise_singleton _ _, fun name hname other hother => ?_⟩
        rw [List.mem_singleton.mp hother]
        exact hnew name ((hkeys pairs name).mpr hname)
      · rw [Keyed.ofList, List.foldl_append]
        rfl
    · rintro ⟨all, hreads, hapart, rfl⟩
      obtain ⟨pairs, pair, hentries, hpair, rfl⟩ := forall₂_concat_iff.mp hreads
      rw [Keyed.keys, List.map_append, List.pairwise_append] at hapart
      refine ⟨_, pair, ih.mpr ⟨pairs, hentries, hapart.1, rfl⟩, hpair, fun name hname => ?_, ?_⟩
      · exact hapart.2.2 name ((hkeys pairs name).mp hname) _ (List.mem_singleton_self _)
      · rw [Keyed.ofList, Keyed.ofList, List.foldl_append]
        rfl

end Filling

end Rulebook
