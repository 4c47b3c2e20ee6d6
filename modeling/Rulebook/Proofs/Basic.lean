import Mathlib.Data.List.Forall2

/-!
# Steps and neighbours

What the steps of a computation have done that went well, and neighbours in related lists.
-/

namespace Rulebook

set_option autoImplicit false

/-- A step that works does so because its part does. -/
theorem Except.bind_ok {ε α β : Type} {x : Except ε α} {f : α → Except ε β} {b : β}
    (h : (x >>= f) = .ok b) : ∃ a, x = .ok a ∧ f a = .ok b := by
  cases x with
  | error e => cases h
  | ok a => exact ⟨a, rfl, h⟩

theorem Except.bind_ok_iff {ε α β : Type} {x : Except ε α} {f : α → Except ε β} {b : β} :
    (x >>= f) = .ok b ↔ ∃ a, x = .ok a ∧ f a = .ok b := by
  constructor
  · exact bind_ok
  · rintro ⟨a, rfl, h⟩
    exact h

theorem Except.pure_ok_iff {ε α : Type} {a b : α} : (pure a : Except ε α) = .ok b ↔ a = b :=
  ⟨Except.ok.inj, congrArg _⟩

/-- What goes on unless a condition holds. -/
theorem Except.unless_throw_ok_iff {ε β : Type} {c : Prop} [Decidable c] {e : ε}
    {k : PUnit → Except ε β} {x : Except ε β} {b : β} :
    (if c then throw e >>= k else x) = .ok b ↔ ¬ c ∧ x = .ok b := by
  split
  · rename_i hc
    exact iff_of_false nofun fun h => h.1 hc
  · rename_i hc
    exact (and_iff_right hc).symm

theorem Except.else_throw_ok_iff {ε β : Type} {c : Prop} [Decidable c] {e : ε} {x : Except ε β}
    {b : β} : (if c then x else throw e) = .ok b ↔ c ∧ x = .ok b := by
  split
  · rename_i hc
    exact (and_iff_right hc).symm
  · rename_i hc
    exact iff_of_false nofun fun h => hc h.1

theorem Except.toOption_bind {ε α β : Type} {x : Except ε α} {f : α → Except ε β} :
    (x >>= f).toOption = x.toOption.bind fun a => (f a).toOption := by
  cases x <;> rfl

theorem Except.toOption_eq_some_iff {ε α : Type} {x : Except ε α} {a : α} :
    x.toOption = some a ↔ x = .ok a := by
  cases x <;> simp [Except.toOption]

/-- Neighbours in a list are related if all its items are. -/
theorem rel_of_mem_zip_drop {α : Type} {r : α → α → Prop} {xs : List α} (h : xs.Pairwise r)
    {x y : α} (hmem : (x, y) ∈ xs.zip (xs.drop 1)) : r x y := by
  induction xs with
  | nil => cases hmem
  | cons first rest ih =>
    obtain ⟨hfirst, hrest⟩ := List.pairwise_cons.mp h
    cases rest with
    | nil => cases hmem
    | cons second others =>
      rw [List.drop_succ_cons, List.drop_zero, List.zip_cons_cons, List.mem_cons] at hmem
      rcases hmem with heq | hmem
      · obtain ⟨rfl, rfl⟩ := Prod.mk.inj heq
        exact hfirst _ List.mem_cons_self
      · exact ih hrest hmem

/-- A list is in order if its neighbours are. -/
theorem pairwise_of_zip_drop {α : Type} {r : α → α → Prop}
    (htrans : ∀ x y z, r x y → r y z → r x z) {xs : List α}
    (h : ∀ x y, (x, y) ∈ xs.zip (xs.drop 1) → r x y) : xs.Pairwise r := by
  induction xs with
  | nil => exact .nil
  | cons first rest ih =>
    cases rest with
    | nil => exact List.pairwise_singleton r first
    | cons second others =>
      rw [List.drop_succ_cons, List.drop_zero, List.zip_cons_cons] at h
      have hneighbours : r first second := h _ _ List.mem_cons_self
      have hrest := ih fun x y hmem => h x y (List.mem_cons_of_mem _ hmem)
      refine List.pairwise_cons.mpr ⟨fun x hx => ?_, hrest⟩
      rcases List.mem_cons.mp hx with rfl | hx
      · exact hneighbours
      · exact htrans _ _ _ hneighbours ((List.pairwise_cons.mp hrest).1 x hx)

/-- Lists in one strict order with the same items are the same. -/
theorem eq_of_mem_iff {α : Type} {r : α → α → Prop} (hasymm : ∀ x y, r x y → ¬ r y x)
    {xs ys : List α} (hxs : xs.Pairwise r) (hys : ys.Pairwise r) (h : ∀ x, x ∈ xs ↔ x ∈ ys) :
    xs = ys := by
  have hnodup {zs : List α} (hzs : zs.Pairwise r) : zs.Nodup := by
    refine List.nodup_iff_pairwise_ne.mpr (hzs.imp fun hr heq => ?_)
    rw [heq] at hr
    exact hasymm _ _ hr hr
  have hperm := (List.perm_ext_iff_of_nodup (hnodup hxs) (hnodup hys)).mpr h
  exact hperm.eq_of_pairwise (fun x y _ _ hxy hyx => absurd hyx (hasymm x y hxy)) hxs hys

theorem string_lt_asymm (s t : String) (h : s < t) : ¬ t < s :=
  fun h' => String.lt_irrefl s (String.lt_trans h h')

theorem nodup_of_rising {ids : List String} (h : ids.Pairwise (· < ·)) : ids.Nodup := by
  refine List.nodup_iff_pairwise_ne.mpr (h.imp fun hlt heq => ?_)
  rw [heq] at hlt
  exact String.lt_irrefl _ hlt

/-- Sorting by key leaves items alone that come by rising key. -/
theorem mergeSort_of_rising {α : Type} {key : α → String} {xs : List α}
    (h : (xs.map key).Pairwise (· < ·)) :
    xs.mergeSort (fun x y => !decide (key y < key x)) = xs := by
  refine List.mergeSort_of_pairwise ((List.pairwise_map.mp h).imp fun {x y} hlt => ?_)
  rw [Bool.not_eq_true', decide_eq_false_iff_not]
  exact string_lt_asymm _ _ hlt

theorem sorted_mergeSort {α : Type} (key : α → String) (xs : List α) :
    (xs.mergeSort fun x y => !decide (key y < key x)).Pairwise fun x y => ¬ key y < key x := by
  have hle (x y : α) : (!decide (key y < key x)) = true ↔ key x ≤ key y := by
    rw [Bool.not_eq_true', decide_eq_false_iff_not, Std.not_lt]
  have hsorted : (xs.mergeSort fun x y => !decide (key y < key x)).Pairwise
      fun x y => (!decide (key y < key x)) = true := by
    refine List.pairwise_mergeSort (fun x y z hxy hyz => ?_) (fun x y => ?_) xs
    · rw [hle] at hxy hyz ⊢
      exact Std.le_trans hxy hyz
    · rw [Bool.or_eq_true, hle, hle]
      exact Std.le_total
  exact hsorted.imp fun h => Std.not_lt.mpr ((hle _ _).mp h)

/-- Items with different keys rise strictly once they are sorted. -/
theorem rising_mergeSort {α : Type} {key : α → String} {xs : List α} (h : (xs.map key).Nodup) :
    ((xs.mergeSort fun x y => !decide (key y < key x)).map key).Pairwise (· < ·) := by
  have hapart := ((List.mergeSort_perm xs fun x y => !decide (key y < key x)).map key).nodup_iff.mpr h
  rw [List.Nodup, List.pairwise_map] at hapart
  rw [List.pairwise_map]
  refine ((sorted_mergeSort key xs).and hapart).imp ?_
  rintro x y ⟨hnot, hne⟩
  exact Std.lt_of_le_of_ne (Std.not_lt.mp hnot) hne

/-- Sorting forgets the order of items with different keys. -/
theorem mergeSort_eq_iff_perm {α : Type} {key : α → String} {xs ys : List α} (h : (xs.map key).Nodup) :
    (xs.mergeSort fun x y => !decide (key y < key x)) =
      (ys.mergeSort fun x y => !decide (key y < key x)) ↔ xs.Perm ys := by
  constructor
  · intro heq
    exact (List.mergeSort_perm xs _).symm.trans (heq ▸ List.mergeSort_perm ys _)
  · intro hperm
    have hys : (ys.map key).Nodup := (hperm.map key).nodup_iff.mp h
    refine eq_of_mem_iff (fun x y => string_lt_asymm (key x) (key y))
      (List.pairwise_map.mp (rising_mergeSort h)) (List.pairwise_map.mp (rising_mergeSort hys)) fun x => ?_
    rw [List.mem_mergeSort, List.mem_mergeSort, hperm.mem_iff]

/-- What comes before the first separator can be taken off. -/
theorem append_separator_inj {α : Type} {separator : α} {as bs rest rest' : List α} (has : separator ∉ as)
    (hbs : separator ∉ bs) (h : as ++ separator :: rest = bs ++ separator :: rest') :
    as = bs ∧ rest = rest' := by
  induction as generalizing bs with
  | nil =>
    cases bs with
    | nil => exact ⟨rfl, (List.cons.inj h).2⟩
    | cons b bs =>
      obtain ⟨rfl, -⟩ := List.cons.inj h
      exact absurd List.mem_cons_self hbs
  | cons a as ih =>
    cases bs with
    | nil =>
      obtain ⟨rfl, -⟩ := List.cons.inj h
      exact absurd List.mem_cons_self has
    | cons b bs =>
      obtain ⟨rfl, htails⟩ := List.cons.inj h
      obtain ⟨rfl, hrest⟩ := ih (List.not_mem_of_not_mem_cons has) (List.not_mem_of_not_mem_cons hbs) htails
      exact ⟨rfl, hrest⟩

theorem eq_of_map_eq {α β : Type} {f : α → β} {xs ys : List α}
    (hinj : ∀ x ∈ xs, ∀ y ∈ ys, f x = f y → x = y) (h : xs.map f = ys.map f) : xs = ys := by
  induction xs generalizing ys with
  | nil => exact (List.map_eq_nil_iff.mp h.symm).symm
  | cons x xs ih =>
    cases ys with
    | nil => cases h
    | cons y ys =>
      obtain ⟨hhead, htail⟩ := List.cons.inj h
      rw [hinj x List.mem_cons_self y List.mem_cons_self hhead,
        ih (fun z hz w hw => hinj z (List.mem_cons_of_mem _ hz) w (List.mem_cons_of_mem _ hw)) htail]

theorem filterMap_if_eq {α β : Type} (p : α → Bool) (f : α → β) (xs : List α) :
    xs.filterMap (fun x => if p x then some (f x) else none) = (xs.filter p).map f := by
  induction xs with
  | nil => rfl
  | cons x rest ih => cases hp : p x <;> simp [hp, ih]

theorem sublist_of_filterMap {α β γ : Type} {f : α → Option β} {g : β → γ} {k : α → γ}
    (h : ∀ x y, f x = some y → g y = k x) (xs : List α) :
    ((xs.filterMap f).map g).Sublist (xs.map k) := by
  induction xs with
  | nil => exact .slnil
  | cons x rest ih =>
    cases hx : f x with
    | none =>
      rw [List.filterMap_cons_none hx]
      exact ih.cons _
    | some y =>
      rw [List.filterMap_cons_some hx, List.map_cons, List.map_cons, h x y hx]
      exact ih.cons_cons _

/-- What one item of a list has contributed. -/
theorem filter_flatMap_of_nodup {α β : Type} {f : α → List β} {xs : List α} {own : β → Bool}
    (hnodup : xs.Nodup) {x : α} (hx : x ∈ xs) (hown : ∀ y ∈ f x, own y = true)
    (hother : ∀ z, z ≠ x → ∀ y ∈ f z, own y = false) :
    (xs.flatMap f).filter own = f x := by
  obtain ⟨before, after, rfl⟩ := List.append_of_mem hx
  obtain ⟨-, hafter, hbefore⟩ := List.nodup_append.mp hnodup
  have hnone {zs : List α} (hzs : ∀ z ∈ zs, z ≠ x) : (zs.flatMap f).filter own = [] := by
    rw [List.filter_eq_nil_iff]
    intro y hy
    obtain ⟨z, hz, hy⟩ := List.mem_flatMap.mp hy
    rw [hother z (hzs z hz) y hy]
    exact Bool.false_ne_true
  rw [List.flatMap_append, List.filter_append, List.flatMap_cons, List.filter_append,
    hnone fun z hz => hbefore z hz x List.mem_cons_self,
    hnone fun z hz heq => (List.nodup_cons.mp hafter).1 (heq ▸ hz),
    List.filter_eq_self.mpr hown, List.nil_append, List.append_nil]

/-- Nothing is reported for the items of a list, whatever their places. -/
theorem filterMap_zipIdx_eq_nil_iff {α β : Type} {report : α × Nat → Option β} {good : α → Prop}
    (h : ∀ x i, report (x, i) = none ↔ good x) (xs : List α) :
    xs.zipIdx.filterMap report = [] ↔ ∀ x ∈ xs, good x := by
  rw [List.filterMap_eq_nil_iff]
  constructor
  · intro hall x hx
    rw [← List.zipIdx_map_fst 0 xs, List.mem_map] at hx
    obtain ⟨⟨_, i⟩, hmem, rfl⟩ := hx
    exact (h _ i).mp (hall _ hmem)
  · rintro hall ⟨x, i⟩ hmem
    exact (h x i).mpr (hall x (List.fst_mem_of_mem_zipIdx hmem))

/-! ## Related lists -/

section

variable {β γ : Type} {r : β → γ → Prop} {xs : List β} {ys : List γ}

theorem exists_of_mem_left (h : List.Forall₂ r xs ys) {x : β} (hx : x ∈ xs) : ∃ y ∈ ys, r x y := by
  induction h with
  | nil => cases hx
  | cons hr _ ih =>
    rcases List.mem_cons.mp hx with rfl | hx
    · exact ⟨_, List.mem_cons_self, hr⟩
    · obtain ⟨y, hy, hr⟩ := ih hx
      exact ⟨y, List.mem_cons_of_mem _ hy, hr⟩

theorem exists_of_mem_right (h : List.Forall₂ r xs ys) {y : γ} (hy : y ∈ ys) : ∃ x ∈ xs, r x y :=
  exists_of_mem_left h.flip hy

theorem forall₂_concat_iff {x : β} :
    List.Forall₂ r (xs ++ [x]) ys ↔ ∃ zs y, List.Forall₂ r xs zs ∧ r x y ∧ zs ++ [y] = ys := by
  rw [← List.forall₂_reverse_iff, List.reverse_concat, List.forall₂_cons_left_iff]
  constructor
  · rintro ⟨y, zs, hy, hzs, hys⟩
    refine ⟨zs.reverse, y, ?_, hy, ?_⟩
    · rwa [← List.forall₂_reverse_iff, List.reverse_reverse]
    · rw [← List.reverse_cons, ← hys, List.reverse_reverse]
  · rintro ⟨zs, y, hzs, hy, rfl⟩
    exact ⟨y, zs.reverse, hy, List.forall₂_reverse_iff.mpr hzs, List.reverse_concat⟩

theorem exists_forall₂ (h : ∀ x ∈ xs, ∃ y, r x y) : ∃ ys, List.Forall₂ r xs ys := by
  induction xs with
  | nil => exact ⟨[], .nil⟩
  | cons x xs ih =>
    obtain ⟨y, hy⟩ := h x List.mem_cons_self
    obtain ⟨ys, hys⟩ := ih fun z hz => h z (List.mem_cons_of_mem _ hz)
    exact ⟨y :: ys, .cons hy hys⟩

/-- What is asked of the items alone can be asked first. -/
theorem forall₂_iff_of_mem {s : β → γ → Prop} {good : β → Prop}
    (h : ∀ x ∈ xs, ∀ y, r x y ↔ good x ∧ s x y) :
    List.Forall₂ r xs ys ↔ (∀ x ∈ xs, good x) ∧ List.Forall₂ s xs ys := by
  rw [← List.forall₂_and_left]
  induction xs generalizing ys with
  | nil => simp
  | cons x xs ih =>
    obtain ⟨hx, hxs⟩ := List.forall_mem_cons.mp h
    simp only [List.forall₂_cons_left_iff, hx, ih hxs]

/-- What is read of items is read of those in their place. -/
theorem forall₂_carry {δ : Type} {s : β → δ → Prop} {t : γ → δ → Prop} {zs : List δ}
    (hcarry : ∀ x y z, r x y → s x z → t y z) (h : List.Forall₂ r xs ys) (hread : List.Forall₂ s xs zs) :
    List.Forall₂ t ys zs := by
  induction h generalizing zs with
  | nil =>
    cases hread
    exact .nil
  | cons hr _ ih =>
    cases hread with
    | cons hs hrest => exact .cons (hcarry _ _ _ hr hs) (ih hrest)

/-- Readings differ exactly if the results that are read do. -/
theorem nodup_map_iff_of_forall₂ {δ : Type} {f : β → Option δ} {g : γ → δ}
    (h : List.Forall₂ (fun x y => f x = some (g y)) xs ys) : (xs.map f).Nodup ↔ (ys.map g).Nodup := by
  have hsome : xs.map f = (ys.map g).map some := by
    rw [← List.forall₂_eq_eq_eq, List.map_map, List.forall₂_map_left_iff, List.forall₂_map_right_iff]
    exact h
  rw [hsome, List.Nodup, List.pairwise_map, List.Nodup]
  simp only [ne_eq, Option.some.injEq]

/-- Items are apart exactly if what is read from them is. -/
theorem pairwise_iff_of_forall₂ {s : γ → γ → Prop} (hunique : ∀ x y z, r x y → r x z → y = z)
    (h : List.Forall₂ r xs ys) :
    ys.Pairwise s ↔ xs.Pairwise fun a b => ∀ y z, r a y → r b z → s y z := by
  induction h with
  | nil => simp
  | @cons x y xs ys hxy hrest ih =>
    rw [List.pairwise_cons, List.pairwise_cons, ih]
    refine and_congr_left fun _ => ?_
    constructor
    · intro hy x' hx' z z' hz hz'
      obtain ⟨w, hw, hr⟩ := exists_of_mem_left hrest hx'
      rw [hunique x z y hz hxy, hunique x' z' w hz' hr]
      exact hy w hw
    · intro hx z hz
      obtain ⟨x', hx', hr⟩ := exists_of_mem_right hrest hz
      exact hx x' hx' y z hxy hr

end

end Rulebook
