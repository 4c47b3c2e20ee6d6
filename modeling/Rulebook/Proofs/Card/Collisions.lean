import Rulebook.Proofs.Card.Violations

/-!
# Names that collide

Of two lists under one name the second is refused only if the first was stored, and a list that is not
sound is not stored. So a collision is reported exactly if a sound list comes before another one of its
name, and the order of two lists of one name matters if just one of them is sound.
-/

namespace Rulebook

set_option autoImplicit false

open Yaml (Node)

/-! ## Lists that are made without complaint -/

namespace Checked

variable {α β : Type} {x : Checked α}

/-- If the check has made something, it has found nothing wrong. -/
def IsClean (x : Checked α) : Prop := x.value ≠ none → x.violations = []

theorem isClean_ok (a : α) : (ok a).IsClean := fun _ => rfl

theorem isClean_fail (field : String) (kind : ViolationKind) : (fail field kind : Checked α).IsClean :=
  fun h => absurd rfl h

theorem IsClean.also {f : Checked (α → β)} (hf : f.IsClean) (hx : x.IsClean) : (f.also x).IsClean := by
  intro hvalue
  obtain ⟨make, found⟩ := f
  obtain ⟨value, violations⟩ := x
  cases make with
  | none => exact absurd rfl hvalue
  | some g =>
    cases value with
    | none => exact absurd rfl hvalue
    | some a => exact List.append_eq_nil_iff.mpr ⟨hf nofun, hx nofun⟩

theorem IsClean.value_eq_some_iff (h : x.IsClean) {a : α} : x.value = some a ↔ x.Gives a := by
  constructor
  · intro hvalue
    exact ⟨hvalue, h (by rw [hvalue]; nofun)⟩
  · exact And.left

end Checked

theorem Filling.mem_keys_store {α : Type} (filling : Filling α) {own name : String} {x : Checked α} :
    name ∈ (filling.store own x).table.keys ↔
      (name = own ∧ x.value.isSome = true) ∨ name ∈ filling.table.keys := by
  rw [Filling.store]
  cases x.value with
  | none => simp
  | some a => simp [Keyed.mem_keys_insert]

namespace Card

variable {field name : String} {taken more : List String} {entry a b : Node × Node}
  {lists xs ys zs : Entries}

theorem isClean_checkText (field : String) (value : Node) : (checkText field value).IsClean := by
  rw [checkText]
  split
  · exact Checked.isClean_fail _ _
  · dsimp only
    split
    · exact Checked.isClean_fail _ _
    · exact Checked.isClean_ok _

theorem isClean_checkItems (field : String) (i : Nat) (items : List Node) :
    (checkItems field i items).IsClean := by
  induction items generalizing i with
  | nil => exact Checked.isClean_ok _
  | cons item rest ih => exact ((Checked.isClean_ok _).also (isClean_checkText _ _)).also (ih _)

theorem isClean_checkList (field : String) (value : Node) : (checkList field value).IsClean := by
  rw [checkList]
  split
  · exact Checked.isClean_fail _ _
  · exact Checked.isClean_fail _ _
  · exact isClean_checkItems _ _ _

/-! ## One entry after others -/

/-- The entry has the name, and a sound list under it. -/
def Stores (entry : Node × Node) (name : String) : Prop :=
  HasText entry.1 name ∧ ∃ texts, HasTexts entry.2 texts

def nameOf? (entry : Node × Node) : Option String :=
  (entry.1.text?.map Text.trim).filter (!·.isEmpty)

/-- The name that an entry takes, if it takes one. -/
def takes (entry : Node × Node) : List String :=
  (nameOf? entry).toList.filter fun _ => (checkList "" entry.2).value.isSome

/-- What is said of an entry when these names are taken. -/
def entryViolations (field : String) (taken : List String) (entry : Node × Node) : List Violation :=
  match nameOf? entry with
  | none => [⟨field ++ ".<key>", .wrongType "a non-empty string key"⟩]
  | some name =>
    if name ∈ taken then [⟨field ++ "." ++ name, .duplicateKey name⟩]
    else (checkList (field ++ "." ++ name) entry.2).violations

def tableViolations (field : String) : List String → Entries → List Violation
  | _, [] => []
  | taken, entry :: rest =>
    entryViolations field taken entry ++ tableViolations field (takes entry ++ taken) rest

theorem nameOf?_eq_some_iff : nameOf? entry = some name ↔ HasText entry.1 name :=
  trimmedName_eq_some_iff

theorem isSome_checkList_iff {value : Node} :
    (checkList field value).value.isSome = true ↔ ∃ texts, HasTexts value texts := by
  rw [Option.isSome_iff_exists]
  refine exists_congr fun texts => ?_
  rw [(isClean_checkList field value).value_eq_some_iff, gives_checkList_iff]

theorem mem_takes_iff : name ∈ takes entry ↔ Stores entry name := by
  rw [takes, List.mem_filter, isSome_checkList_iff, Option.mem_toList, nameOf?_eq_some_iff, Stores]

theorem entryViolations_congr (h : ∀ name, HasText entry.1 name → (name ∈ more ↔ name ∈ taken)) :
    entryViolations field more entry = entryViolations field taken entry := by
  rw [entryViolations, entryViolations]
  cases hname : nameOf? entry with
  | none => rfl
  | some name => simp only [h name (nameOf?_eq_some_iff.mp hname)]

theorem tableViolations_congr (h : ∀ name, name ∈ more ↔ name ∈ taken) :
    tableViolations field more lists = tableViolations field taken lists := by
  induction lists generalizing more taken with
  | nil => rfl
  | cons entry rest ih =>
    rw [tableViolations, tableViolations, entryViolations_congr fun name _ => h name]
    congr 1
    apply ih
    intro name
    rw [List.mem_append, List.mem_append, h]

theorem tableViolations_append :
    tableViolations field taken (xs ++ ys) =
      tableViolations field taken xs ++ tableViolations field (xs.flatMap takes ++ taken) ys := by
  induction xs generalizing taken with
  | nil => rfl
  | cons entry rest ih =>
    rw [List.cons_append, tableViolations, tableViolations, ih, List.append_assoc]
    congr 2
    apply tableViolations_congr
    intro name
    simp only [List.flatMap_cons, List.mem_append]
    tauto

theorem contains_eq_true_iff {table : Keyed (List String)} :
    table.contains name = true ↔ name ∈ table.keys := by
  rw [Keyed.contains, Keyed.find?_isSome_iff]

/-- A step says of the entry what is to be said after the entries that are stored. -/
theorem violations_checkListEntry (field : String) (filling : Filling (List String))
    (entry : Node × Node) :
    (checkListEntry field filling entry).violations =
      filling.violations ++ entryViolations field filling.table.keys entry := by
  rw [entryViolations]
  cases hname : nameOf? entry with
  | none =>
    rw [nameOf?] at hname
    simp only [checkListEntry, hname, Filling.refuse]
  | some name =>
    rw [nameOf?] at hname
    simp only [checkListEntry, hname, contains_eq_true_iff]
    by_cases htaken : name ∈ filling.table.keys
    · simp only [htaken, if_true, Filling.refuse]
    · simp only [htaken, if_false, Filling.store]
      split <;> rfl

theorem mem_keys_checkListEntry (field : String) (filling : Filling (List String))
    (entry : Node × Node) :
    name ∈ (checkListEntry field filling entry).table.keys ↔
      name ∈ takes entry ++ filling.table.keys := by
  rw [List.mem_append, mem_takes_iff, Stores, ← nameOf?_eq_some_iff]
  cases hname : nameOf? entry with
  | none =>
    rw [nameOf?] at hname
    simp only [checkListEntry, hname, Filling.refuse, reduceCtorEq, false_and, false_or]
  | some own =>
    rw [nameOf?] at hname
    simp only [checkListEntry, hname, contains_eq_true_iff, Option.some.injEq]
    by_cases htaken : own ∈ filling.table.keys
    · simp only [htaken, if_true, Filling.refuse]
      refine (or_iff_right_of_imp ?_).symm
      rintro ⟨rfl, -⟩
      exact htaken
    · rw [if_neg htaken, Filling.mem_keys_store, isSome_checkList_iff]
      exact or_congr_left (and_congr_left fun _ => eq_comm)

theorem violations_foldl (field : String) (filling : Filling (List String)) (lists : Entries) :
    (lists.foldl (checkListEntry field) filling).violations =
      filling.violations ++ tableViolations field filling.table.keys lists := by
  induction lists generalizing filling with
  | nil => exact (List.append_nil _).symm
  | cons entry rest ih =>
    rw [List.foldl_cons, ih, violations_checkListEntry, tableViolations, List.append_assoc]
    congr 2
    exact tableViolations_congr fun name => mem_keys_checkListEntry field filling entry

/-! ## Collisions -/

theorem mem_takes_flatMap_iff : name ∈ lists.flatMap takes ↔ ∃ entry ∈ lists, Stores entry name := by
  simp only [List.mem_flatMap, mem_takes_iff]

theorem mem_tableViolations_iff {v : Violation} :
    v ∈ tableViolations field [] lists ↔ ∃ before entry after, lists = before ++ entry :: after ∧
      v ∈ entryViolations field (before.flatMap takes) entry := by
  constructor
  · intro hv
    -- from the last entry, before which all others stand
    induction lists using List.reverseRecOn with
    | nil => cases hv
    | append_singleton lists entry ih =>
      rw [tableViolations_append, List.mem_append] at hv
      rcases hv with hv | hv
      · obtain ⟨before, other, after, rfl, hother⟩ := ih hv
        exact ⟨before, other, after ++ [entry], by simp, hother⟩
      · rw [tableViolations, tableViolations, List.append_nil, List.append_nil] at hv
        exact ⟨lists, entry, [], rfl, hv⟩
  · rintro ⟨before, entry, after, rfl, hv⟩
    rw [tableViolations_append, tableViolations, List.append_nil]
    exact List.mem_append_right _ (List.mem_append_left _ hv)

/-- An entry is said to be a duplicate of a name if it has the name and the name is taken. -/
theorem duplicate_mem_entryViolations_iff :
    ⟨field ++ "." ++ name, .duplicateKey name⟩ ∈ entryViolations field taken entry ↔
      HasText entry.1 name ∧ name ∈ taken := by
  rw [entryViolations, ← nameOf?_eq_some_iff]
  cases nameOf? entry with
  | none => simp
  | some own =>
    rw [Option.some.injEq]
    dsimp only
    split
    · rename_i htaken
      rw [List.mem_singleton]
      constructor
      · intro heq
        cases congrArg Violation.kind heq
        exact ⟨rfl, htaken⟩
      · rintro ⟨rfl, -⟩
        rfl
    · rename_i hfree
      constructor
      · intro hv
        obtain ⟨_, hkind⟩ := checkList_findsOnly _ _ _ hv
        simp at hkind
      · rintro ⟨rfl, htaken⟩
        exact absurd htaken hfree

/-! ## Two entries in either order -/

theorem entryViolations_of_mem (hname : HasText entry.1 name) (htaken : name ∈ taken) :
    entryViolations field taken entry = [⟨field ++ "." ++ name, .duplicateKey name⟩] := by
  rw [entryViolations, nameOf?_eq_some_iff.mpr hname]
  exact if_pos htaken

theorem entryViolations_of_not_mem (hname : HasText entry.1 name) (hfree : name ∉ taken) :
    entryViolations field taken entry = (checkList (field ++ "." ++ name) entry.2).violations := by
  rw [entryViolations, nameOf?_eq_some_iff.mpr hname]
  exact if_neg hfree

theorem entryViolations_of_stores (h : Stores entry name) (hfree : name ∉ taken) :
    entryViolations field taken entry = [] := by
  rw [entryViolations_of_not_mem h.1 hfree]
  exact isClean_checkList _ _ (Option.isSome_iff_ne_none.mp (isSome_checkList_iff.mpr h.2))

theorem hasText_unique {node : Node} {other : String} (h : HasText node name) (hother : HasText node other) :
    other = name :=
  Option.some.inj ((trimmedName_eq_some_iff.mpr hother).symm.trans (trimmedName_eq_some_iff.mpr h))

theorem mem_takes_iff_of_hasText {other : String} (hname : HasText entry.1 name) :
    other ∈ takes entry ↔ other = name ∧ Stores entry name := by
  rw [mem_takes_iff]
  constructor
  · intro h
    obtain rfl := hasText_unique hname h.1
    exact ⟨rfl, h⟩
  · rintro ⟨rfl, h⟩
    exact h

section

variable (ha : HasText a.1 name) (hb : HasText b.1 name)

include ha hb

theorem told_alike_of_mem (between : List String) (htaken : name ∈ taken) :
    entryViolations field taken a = entryViolations field taken b ∧
      entryViolations field (between ++ (takes a ++ taken)) b =
        entryViolations field (between ++ (takes b ++ taken)) a := by
  have hstill (more : List String) : name ∈ between ++ (more ++ taken) := by simp [htaken]
  rw [entryViolations_of_mem ha htaken, entryViolations_of_mem hb htaken,
    entryViolations_of_mem ha (hstill _), entryViolations_of_mem hb (hstill _)]
  exact ⟨rfl, rfl⟩

theorem told_alike_of_stores (between : List String) (hstores : Stores a name)
    (hstores' : Stores b name) :
    entryViolations field taken a = entryViolations field taken b ∧
      entryViolations field (between ++ (takes a ++ taken)) b =
        entryViolations field (between ++ (takes b ++ taken)) a := by
  by_cases htaken : name ∈ taken
  · exact told_alike_of_mem ha hb between htaken
  · have hnow {entry : Node × Node} (h : Stores entry name) :
        name ∈ between ++ (takes entry ++ taken) := by
      simp [mem_takes_iff.mpr h]
    rw [entryViolations_of_stores hstores htaken, entryViolations_of_stores hstores' htaken,
      entryViolations_of_mem ha (hnow hstores'), entryViolations_of_mem hb (hnow hstores)]
    exact ⟨rfl, rfl⟩

end

/-- Nothing else is said of an entry after entries that do not take its name. -/
theorem told_the_same (ha : HasText a.1 name) {between : List String} (hbetween : name ∉ between)
    (hb : ¬ Stores b name) :
    entryViolations field (between ++ (takes b ++ taken)) a = entryViolations field taken a := by
  apply entryViolations_congr
  intro other hother
  obtain rfl := hasText_unique ha hother
  simp [hbetween, mem_takes_iff, hb]

/-- The name is taken before both entries, or both are sound, or neither is and none between them. -/
def OrderIsFree (name : String) (xs : Entries) (a : Node × Node) (ys : Entries) (b : Node × Node) : Prop :=
  (∃ entry ∈ xs, Stores entry name) ∨ (Stores a name ∧ Stores b name) ∨
    (¬ Stores a name ∧ ¬ Stores b name ∧ ∀ entry ∈ ys, ¬ Stores entry name)

/-- Either way the same names are taken once both entries have come. -/
theorem mem_takes_exchange (ha : HasText a.1 name) (hb : HasText b.1 name)
    (h : OrderIsFree name xs a ys b) (other : String) :
    other ∈ takes b ++ xs.flatMap takes ↔ other ∈ takes a ++ xs.flatMap takes := by
  rw [List.mem_append, List.mem_append, mem_takes_iff_of_hasText ha, mem_takes_iff_of_hasText hb]
  rcases h with htaken | ⟨hstores, hstores'⟩ | ⟨hnot, hnot', -⟩
  · have hmem : other = name → other ∈ xs.flatMap takes := by
      rintro rfl
      exact mem_takes_flatMap_iff.mpr htaken
    rw [or_iff_right_of_imp fun h => hmem h.1, or_iff_right_of_imp fun h => hmem h.1]
  · simp [hstores, hstores']
  · simp [hnot, hnot']

theorem perm_exchange {α : Type} [BEq α] [LawfulBEq α] (as bs ms rs : List α) :
    (as ++ (ms ++ (bs ++ rs))).Perm (bs ++ (ms ++ (as ++ rs))) := by
  rw [List.perm_iff_count]
  intro x
  simp only [List.count_append]
  omega

theorem tableViolations_exchange (ha : HasText a.1 name) (hb : HasText b.1 name)
    (h : OrderIsFree name xs a ys b) :
    (tableViolations field [] (xs ++ a :: (ys ++ b :: zs))).Perm
      (tableViolations field [] (xs ++ b :: (ys ++ a :: zs))) := by
  have hafter (other : String) :
      other ∈ takes a ++ (ys.flatMap takes ++ (takes b ++ xs.flatMap takes)) ↔
        other ∈ takes b ++ (ys.flatMap takes ++ (takes a ++ xs.flatMap takes)) := by
    simp only [List.mem_append]
    tauto
  simp only [tableViolations, tableViolations_append, List.append_nil]
  apply List.Perm.append_left
  rw [tableViolations_congr (mem_takes_exchange ha hb h), tableViolations_congr hafter]
  rcases h with htaken | ⟨hstores, hstores'⟩ | ⟨hnot, hnot', hnone⟩
  · obtain ⟨hfirst, hsecond⟩ := told_alike_of_mem ha hb (ys.flatMap takes)
      (mem_takes_flatMap_iff.mpr htaken)
    rw [hfirst, hsecond]
  · obtain ⟨hfirst, hsecond⟩ := told_alike_of_stores ha hb (ys.flatMap takes) hstores hstores'
    rw [hfirst, hsecond]
  · have hbetween : name ∉ ys.flatMap takes := by
      simpa only [mem_takes_flatMap_iff, not_exists, not_and] using hnone
    rw [told_the_same ha hbetween hnot', told_the_same hb hbetween hnot]
    exact perm_exchange _ _ _ _

theorem duplicate_not_mem (h : ∀ entry ∈ lists, ¬ HasText entry.1 name) :
    ⟨field ++ "." ++ name, .duplicateKey name⟩ ∉ tableViolations field taken lists := by
  induction lists generalizing taken with
  | nil => exact List.not_mem_nil
  | cons entry rest ih =>
    obtain ⟨hentry, hrest⟩ := List.forall_mem_cons.mp h
    rw [tableViolations, List.mem_append, duplicate_mem_entryViolations_iff]
    rintro (⟨hname, -⟩ | hmem)
    · exact hentry hname
    · exact ih hrest hmem

/-- The second of two entries of a name is a duplicate if the first is sound, and the first never is. -/
theorem duplicate_mem_iff_of_two (ha : HasText a.1 name) (hb : HasText b.1 name)
    (hothers : ∀ entry ∈ xs ++ (ys ++ zs), ¬ HasText entry.1 name) :
    ⟨field ++ "." ++ name, .duplicateKey name⟩ ∈ tableViolations field [] (xs ++ a :: (ys ++ b :: zs)) ↔
      Stores a name := by
  simp only [List.forall_mem_append] at hothers
  obtain ⟨hxs, hys, hzs⟩ := hothers
  have hfree {lists : Entries} (h : ∀ entry ∈ lists, ¬ HasText entry.1 name) :
      name ∉ lists.flatMap takes := by
    simpa only [mem_takes_flatMap_iff, not_exists, not_and] using
      fun entry hentry hstores => h entry hentry hstores.1
  simp only [tableViolations, tableViolations_append, List.mem_append,
    duplicate_mem_entryViolations_iff, duplicate_not_mem hxs, duplicate_not_mem hys,
    duplicate_not_mem hzs, hfree hxs, hfree hys, mem_takes_iff, ha, hb, List.not_mem_nil, true_and,
    false_or, or_false]

/-! ## Documents -/

/-- The entries of a table of lists, if the document has the table. -/
def lists? (field : String) (document : Node) : Option Entries :=
  (document.member? field).bind (·.entries?)

/-- The documents have the same keys, and the same values in all fields but this one. -/
structure AgreeBeside (field : String) (document other : Node) : Prop where
  keys : other.entries?.map (·.map Prod.fst) = document.entries?.map (·.map Prod.fst)
  members : ∀ name, name ≠ field → other.member? name = document.member? name

variable {document other : Node} {entries : Entries}

theorem member?_of_entries? (h : document.entries? = some entries) (name : String) :
    document.member? name = Node.valueOf? name entries := by
  rw [Node.member?, h, Option.bind_some]

theorem exists_entries (h : lists? field document = some lists) :
    ∃ entries, document.entries? = some entries := by
  obtain ⟨value, hvalue, -⟩ := Option.bind_eq_some_iff.mp h
  obtain ⟨entries, hentries, -⟩ := Option.bind_eq_some_iff.mp hvalue
  exact ⟨entries, hentries⟩

theorem foundIn_eq_tableViolations (hfield : field ∈ ["detect", "refs"])
    (hentries : document.entries? = some entries) (h : lists? field document = some lists) :
    foundIn entries field = tableViolations field [] lists := by
  rw [lists?, member?_of_entries? hentries] at h
  obtain ⟨value, hvalue, hlists⟩ := Option.bind_eq_some_iff.mp h
  have hchecked : (checkLists entries field).violations = tableViolations field [] lists := by
    rw [checkLists, hvalue]
    dsimp only
    rw [hlists]
    exact (violations_foldl field .start lists).trans (List.nil_append _)
  rcases List.mem_pair.mp hfield with rfl | rfl
  · exact hchecked
  · exact hchecked

theorem mem_fields (hfield : field ∈ ["detect", "refs"]) : field ∈ fields := by
  rcases List.mem_pair.mp hfield with rfl | rfl <;> decide

theorem duplicate_mem_violations_iff (hfield : field ∈ ["detect", "refs"])
    (h : lists? field document = some lists) :
    ⟨field ++ "." ++ name, .duplicateKey name⟩ ∈ violations document ↔
      ⟨field ++ "." ++ name, .duplicateKey name⟩ ∈ tableViolations field [] lists := by
  obtain ⟨entries, hentries⟩ := exists_entries h
  have hin : Violation.isIn field ⟨field ++ "." ++ name, .duplicateKey name⟩ = true :=
    isIn_of_concerns (mem_fields hfield) (Violation.concerns_dot name nofun rfl)
  rw [← foundIn_eq_tableViolations hfield hentries h,
    ← filter_violations hentries (mem_fields hfield), List.mem_filter, and_iff_left hin]

theorem perm_violations {others : Entries} (hfield : field ∈ ["detect", "refs"])
    (h : lists? field document = some lists) (hother : lists? field other = some others)
    (hagree : AgreeBeside field document other)
    (hperm : (tableViolations field [] lists).Perm (tableViolations field [] others)) :
    (violations document).Perm (violations other) := by
  obtain ⟨entries, hentries⟩ := exists_entries h
  obtain ⟨entries', hentries'⟩ := exists_entries hother
  have hkeys := hagree.keys
  rw [hentries, hentries', Option.map_some, Option.map_some, Option.some.injEq] at hkeys
  rw [violations_eq hentries, violations_eq hentries', hkeys]
  refine List.Perm.append_left _ (List.Perm.flatMap_left fields fun name _ => ?_)
  by_cases hname : name = field
  · rw [hname, foundIn_eq_tableViolations hfield hentries h,
      foundIn_eq_tableViolations hfield hentries' hother]
    exact hperm
  · have hvalue := hagree.members name hname
    rw [member?_of_entries? hentries, member?_of_entries? hentries'] at hvalue
    rw [foundIn_congr hvalue]

/-- In a table of lists a collision of names is reported exactly if a sound list comes before another
entry of its name. Exchanging two entries of one name leaves the report as it is, but for the order, if
the name is taken before both, or both are sound, or neither is and nothing between takes the name; if
they are the only entries of the name, it does so exactly if both are sound or neither is. -/
theorem collisions_reported (hfield : field ∈ ["detect", "refs"])
    (h : lists? field document = some lists) :
    (∀ name, ⟨field ++ "." ++ name, .duplicateKey name⟩ ∈ violations document ↔
      ∃ before entry after, lists = before ++ entry :: after ∧ HasText entry.1 name ∧
        ∃ earlier ∈ before, Stores earlier name) ∧
    ∀ xs a ys b zs name other, lists = xs ++ a :: (ys ++ b :: zs) →
      HasText a.1 name → HasText b.1 name → AgreeBeside field document other →
      lists? field other = some (xs ++ b :: (ys ++ a :: zs)) →
      (OrderIsFree name xs a ys b → (violations document).Perm (violations other)) ∧
      ((∀ entry ∈ xs ++ (ys ++ zs), ¬ HasText entry.1 name) →
        ((∀ v, v ∈ violations document ↔ v ∈ violations other) ↔
          (Stores a name ↔ Stores b name))) := by
  refine ⟨fun name => ?_, ?_⟩
  · simp only [duplicate_mem_violations_iff hfield h, mem_tableViolations_iff,
      duplicate_mem_entryViolations_iff, mem_takes_flatMap_iff]
  · rintro xs a ys b zs name other rfl ha hb hagree hother
    have hperm (hfree : OrderIsFree name xs a ys b) : (violations document).Perm (violations other) :=
      perm_violations hfield h hother hagree (tableViolations_exchange ha hb hfree)
    refine ⟨hperm, fun hothers => ⟨fun hsame => ?_, fun hboth => ?_⟩⟩
    · have hduplicate := hsame ⟨field ++ "." ++ name, .duplicateKey name⟩
      rwa [duplicate_mem_violations_iff hfield h, duplicate_mem_violations_iff hfield hother,
        duplicate_mem_iff_of_two ha hb hothers, duplicate_mem_iff_of_two hb ha hothers] at hduplicate
    · refine fun v => (hperm ?_).mem_iff
      by_cases hstores : Stores a name
      · exact .inr (.inl ⟨hstores, hboth.mp hstores⟩)
      · refine .inr (.inr ⟨hstores, fun hstores' => hstores (hboth.mpr hstores'), ?_⟩)
        exact fun entry hentry hstored => hothers entry (by simp [hentry]) hstored.1

def vacant : Node × Node := (.string "t", .sequence [])

def settled : Node × Node := (.string " t", .sequence [.string "1"])

/-- A document with two entries in a table, and without most of its fields. -/
def sketch (a b : Node × Node) : Node := .mapping [(.string "detect", .mapping [a, b])]

theorem not_stores_vacant : ¬ Stores vacant "t" := by
  rintro ⟨-, _, _, hitems, hne, -⟩
  cases hitems
  exact hne rfl

theorem stores_settled : Stores settled "t" :=
  ⟨⟨" t", rfl, rfl, by decide⟩, ["1"], [.string "1"], rfl, List.cons_ne_nil _ _,
    .cons ⟨"1", rfl, rfl, by decide⟩ .nil⟩

theorem collisions_reported_sketch :
    lists? "detect" (sketch vacant settled) = some [vacant, settled] ∧
      lists? "detect" (sketch settled vacant) = some [settled, vacant] ∧
      ⟨"detect.t", .duplicateKey "t"⟩ ∉ violations (sketch vacant settled) ∧
      ⟨"detect.t", .duplicateKey "t"⟩ ∈ violations (sketch settled vacant) ∧
      ¬ ∀ v, v ∈ violations (sketch vacant settled) ↔ v ∈ violations (sketch settled vacant) := by
  have hlists : lists? "detect" (sketch vacant settled) = some [vacant, settled] := rfl
  have hlists' : lists? "detect" (sketch settled vacant) = some [settled, vacant] := rfl
  obtain ⟨-, horder⟩ := collisions_reported List.mem_cons_self hlists
  obtain ⟨hreported, -⟩ := collisions_reported List.mem_cons_self hlists'
  have hagree : AgreeBeside "detect" (sketch vacant settled) (sketch settled vacant) := by
    refine ⟨rfl, fun name hname => ?_⟩
    simp [Node.member?, sketch, Node.entries?, Node.bare, Node.valueOf?, Ne.symm hname]
  have hvacant : HasText vacant.1 "t" := ⟨"t", rfl, rfl, by decide⟩
  obtain ⟨-, hsame⟩ := horder [] vacant [] settled [] "t" (sketch settled vacant) rfl hvacant
    stores_settled.1 hagree rfl
  refine ⟨hlists, hlists', by decide, ?_, ?_⟩
  · exact (hreported "t").mpr ⟨[settled], vacant, [], rfl, hvacant, settled, List.mem_cons_self,
      stores_settled⟩
  · rw [hsame (by simp)]
    exact fun h => not_stores_vacant (h.mpr stores_settled)

end Card

end Rulebook
