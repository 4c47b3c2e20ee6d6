import Rulebook.Proofs.Card.Checks
import Rulebook.Proofs.Yaml.Tree

/-!
# Values of a card's fields

What the values of the fields must be, stated for values without tags, and what is stored for them. A
check reads a value exactly if it is as it must be, and gives what is stored for it.
-/

namespace Rulebook.Card

set_option autoImplicit false

open Yaml (Node)

/-! ## What values must be -/

/-- A text that is not blank. -/
def IsText (value : Node) : Prop := ∃ s, value = .string s ∧ Text.trim s ≠ ""

/-- What is left of a text without the blanks around it. -/
def Trims (value : Node) (s : String) : Prop := ∃ raw, value = .string raw ∧ s = Text.trim raw

/-- At least one text, none of them blank. -/
def AreTexts (value : Node) : Prop :=
  ∃ items, value = .sequence items ∧ items ≠ [] ∧ ∀ item ∈ items, IsText item

/-- Lists of texts by names that differ without the blanks around them. -/
def AreLists (value : Node) : Prop :=
  ∃ lists, value = .mapping lists ∧ (∀ entry ∈ lists, IsText entry.1 ∧ AreTexts entry.2) ∧
    lists.Pairwise fun a b => ∀ s t, Trims a.1 s → Trims b.1 t → s ≠ t

/-- A truth value, text or finite number, and how it is stored. -/
inductive IsScalar : Node → Json → Prop
  | bool (b : Bool) : IsScalar (.bool b) (.bool b)
  | string (s : String) : IsScalar (.string s) (.string s)
  | number (n : JsonNumber) : IsScalar (.number n) (.number n)

/-- Scalars by names that are not blank. -/
def AreDefaults (value : Node) : Prop :=
  ∃ defaults, value = .mapping defaults ∧
    ∀ entry ∈ defaults, IsText entry.1 ∧ ∃ v, IsScalar entry.2 v

/-! ## What is stored -/

def TrimsAll (value : Node) (texts : List String) : Prop :=
  ∃ items, value = .sequence items ∧ List.Forall₂ Trims items texts

/-- The table has each list under its name, all without the blanks around them. -/
def TrimsLists (value : Node) (table : Keyed (List String)) : Prop :=
  ∃ lists, value = .mapping lists ∧ ∀ name texts, (name, texts) ∈ table ↔
    ∃ entry ∈ lists, Trims entry.1 name ∧ TrimsAll entry.2 texts

/-- The table has each scalar under its name, as they are written. -/
def KeepsDefaults (value : Node) (table : Keyed Json) : Prop :=
  ∃ defaults, value = .mapping defaults ∧ ∀ name v, (name, v) ∈ table ↔
    ∃ entry ∈ defaults, entry.1 = .string name ∧ IsScalar entry.2 v

/-! ## What checks read -/

variable {value : Node}

theorem hasText_iff (h : value.isPlain = true) {s : String} :
    HasText value s ↔ IsText value ∧ Trims value s := by
  constructor
  · rintro ⟨raw, hraw, rfl, hne⟩
    rw [Node.text?_eq_some_iff h] at hraw
    exact ⟨⟨raw, hraw, hne⟩, raw, hraw, rfl⟩
  · rintro ⟨⟨raw, rfl, hne⟩, raw', hraw, rfl⟩
    cases hraw
    exact ⟨raw, rfl, rfl, hne⟩

theorem IsText.exists_trims (h : IsText value) : ∃ s, Trims value s := by
  obtain ⟨raw, hraw, -⟩ := h
  exact ⟨Text.trim raw, raw, hraw, rfl⟩

theorem Trims.unique {s t : String} (hs : Trims value s) (ht : Trims value t) : s = t := by
  obtain ⟨raw, rfl, rfl⟩ := hs
  obtain ⟨raw', hraw, rfl⟩ := ht
  cases hraw
  rfl

theorem forall₂_hasText_iff {items : List Node} {texts : List String}
    (h : ∀ item ∈ items, item.isPlain = true) :
    List.Forall₂ HasText items texts ↔
      (∀ item ∈ items, IsText item) ∧ List.Forall₂ Trims items texts :=
  forall₂_iff_of_mem fun item hitem _ => hasText_iff (h item hitem)

theorem hasTexts_iff (h : value.isPlain = true) {texts : List String} :
    HasTexts value texts ↔ AreTexts value ∧ TrimsAll value texts := by
  constructor
  · rintro ⟨items, hitems, hne, htexts⟩
    rw [Node.items?_eq_some_iff h] at hitems
    subst hitems
    rw [forall₂_hasText_iff (Node.isPlain_sequence_iff.mp h)] at htexts
    exact ⟨⟨items, rfl, hne, htexts.1⟩, items, rfl, htexts.2⟩
  · rintro ⟨⟨items, rfl, hne, hall⟩, items', hitems, htexts⟩
    cases hitems
    exact ⟨items, rfl, hne,
      (forall₂_hasText_iff (Node.isPlain_sequence_iff.mp h)).mpr ⟨hall, htexts⟩⟩

theorem AreTexts.exists_trimsAll (h : AreTexts value) : ∃ texts, TrimsAll value texts := by
  obtain ⟨items, hitems, -, hall⟩ := h
  obtain ⟨texts, htexts⟩ := exists_forall₂ fun item hitem => (hall item hitem).exists_trims
  exact ⟨texts, items, hitems, htexts⟩

theorem TrimsAll.unique {texts others : List String} (hs : TrimsAll value texts)
    (ht : TrimsAll value others) : texts = others := by
  obtain ⟨items, rfl, hs⟩ := hs
  obtain ⟨items', hitems, ht⟩ := ht
  cases hitems
  have hunique : Relator.RightUnique Trims := fun _ _ _ => Trims.unique
  exact List.right_unique_forall₂' hunique hs ht

theorem forall₂_hasListEntry_iff {lists : List (Node × Node)}
    (h : (Node.mapping lists).isPlain = true) {pairs : List (String × List String)} :
    List.Forall₂ HasListEntry lists pairs ↔
      (∀ entry ∈ lists, IsText entry.1 ∧ AreTexts entry.2) ∧
        List.Forall₂ (fun entry pair => Trims entry.1 pair.1 ∧ TrimsAll entry.2 pair.2) lists
          pairs := by
  refine forall₂_iff_of_mem fun entry hentry pair => ?_
  obtain ⟨hkey, hlist⟩ := (Node.isPlain_mapping_iff.mp h).2 entry hentry
  rw [HasListEntry, hasText_iff hkey, hasTexts_iff hlist, and_and_and_comm]

theorem hasLists_iff (h : value.isPlain = true) {table : Keyed (List String)} :
    HasLists value table ↔ AreLists value ∧ table.Rising ∧ TrimsLists value table := by
  have hmade {lists : List (Node × Node)}
      (hall : ∀ entry ∈ lists, IsText entry.1 ∧ AreTexts entry.2) :=
    Keyed.exists_ofList_eq_iff (Trims ·.1) (TrimsAll ·.2) (fun _ _ _ => Trims.unique)
      (fun _ _ _ => TrimsAll.unique)
      (fun entry hentry => ⟨(hall entry hentry).1.exists_trims, (hall entry hentry).2.exists_trimsAll⟩)
      table
  constructor
  · rintro ⟨lists, pairs, hlists, hpairs, hnodup, hofList⟩
    rw [Node.entries?_eq_some_iff h] at hlists
    subst hlists
    obtain ⟨hall, hpairs⟩ := (forall₂_hasListEntry_iff h).mp hpairs
    obtain ⟨hapart, hrising, hmem⟩ := (hmade hall).mp ⟨pairs, hpairs, hnodup, hofList⟩
    exact ⟨⟨lists, rfl, hall, hapart⟩, hrising, lists, rfl, hmem⟩
  · rintro ⟨⟨lists, rfl, hall, hapart⟩, hrising, lists', hlists, hmem⟩
    cases hlists
    obtain ⟨pairs, hpairs, hnodup, hofList⟩ := (hmade hall).mpr ⟨hapart, hrising, hmem⟩
    exact ⟨lists, pairs, rfl, (forall₂_hasListEntry_iff h).mpr ⟨hall, hpairs⟩, hnodup, hofList⟩

theorem AreLists.exists_hasLists (hplain : value.isPlain = true) (h : AreLists value) :
    ∃ table, HasLists value table := by
  obtain ⟨lists, rfl, hall, hapart⟩ := h
  have hentry : ∀ entry ∈ lists, ∃ pair : String × List String,
      Trims entry.1 pair.1 ∧ TrimsAll entry.2 pair.2 := by
    intro entry hentry
    obtain ⟨name, hname⟩ := (hall entry hentry).1.exists_trims
    obtain ⟨texts, htexts⟩ := (hall entry hentry).2.exists_trimsAll
    exact ⟨(name, texts), hname, htexts⟩
  obtain ⟨pairs, hpairs⟩ := exists_forall₂ hentry
  have hnodup := (Keyed.nodup_keys_iff (fun (entry : Node × Node) s => Trims entry.1 s)
    (fun (entry : Node × Node) texts => TrimsAll entry.2 texts) (fun _ _ _ => Trims.unique)
    hpairs).mpr hapart
  exact ⟨_, lists, pairs, rfl, (forall₂_hasListEntry_iff hplain).mpr ⟨hall, hpairs⟩, hnodup, rfl⟩

theorem scalar?_eq_some_iff {v : Json} : value.scalar? = some v ↔ IsScalar value v := by
  constructor
  · intro h
    cases value <;> cases h <;> constructor
  · rintro (_ | _ | _) <;> rfl

theorem IsScalar.unique {v w : Json} (hv : IsScalar value v) (hw : IsScalar value w) : v = w :=
  Option.some.inj ((scalar?_eq_some_iff.mpr hv).symm.trans (scalar?_eq_some_iff.mpr hw))

theorem forall₂_hasDefault_iff {defaults : List (Node × Node)}
    (h : (Node.mapping defaults).isPlain = true) {pairs : List (String × Json)} :
    List.Forall₂ HasDefault defaults pairs ↔
      (∀ entry ∈ defaults, IsText entry.1 ∧ ∃ v, IsScalar entry.2 v) ∧
        List.Forall₂ (fun entry pair => entry.1 = .string pair.1 ∧ IsScalar entry.2 pair.2)
          defaults pairs := by
  refine forall₂_iff_of_mem fun entry hentry pair => ?_
  have hkey := ((Node.isPlain_mapping_iff.mp h).2 entry hentry).1
  rw [HasDefault, Node.text?_eq_some_iff hkey, scalar?_eq_some_iff]
  constructor
  · rintro ⟨hname, hne, hscalar⟩
    exact ⟨⟨⟨pair.1, hname, hne⟩, pair.2, hscalar⟩, hname, hscalar⟩
  · rintro ⟨⟨⟨s, hs, hne⟩, -⟩, hname, hscalar⟩
    cases hs.symm.trans hname
    exact ⟨hname, hne, hscalar⟩

/-- Keys that are texts differ as texts. -/
theorem names_apart {defaults : List (Node × Node)} (h : (Node.mapping defaults).isPlain = true) :
    defaults.Pairwise fun a b => ∀ s t, a.1 = .string s → b.1 = .string t → s ≠ t := by
  refine (Node.isPlain_mapping_iff.mp h).1.imp ?_
  rintro a b hdiffer s t hs ht rfl
  simp [hs, ht, Node.same] at hdiffer

theorem name_unique (entry : Node × Node) (s t : String) (hs : entry.1 = .string s)
    (ht : entry.1 = .string t) : s = t := Node.string.inj (hs.symm.trans ht)

theorem nodup_keys_of_hasDefault {defaults : List (Node × Node)}
    (h : (Node.mapping defaults).isPlain = true) {pairs : List (String × Json)}
    (hpairs : List.Forall₂ HasDefault defaults pairs) : (Keyed.keys pairs).Nodup :=
  (Keyed.nodup_keys_iff (fun (entry : Node × Node) s => entry.1 = .string s)
    (fun (entry : Node × Node) v => IsScalar entry.2 v) name_unique
    ((forall₂_hasDefault_iff h).mp hpairs).2).mpr (names_apart h)

theorem hasDefaults_iff (h : value.isPlain = true) {table : Keyed Json} :
    HasDefaults value table ↔ AreDefaults value ∧ table.Rising ∧ KeepsDefaults value table := by
  have hmade {defaults : List (Node × Node)}
      (hall : ∀ entry ∈ defaults, IsText entry.1 ∧ ∃ v, IsScalar entry.2 v) :=
    Keyed.exists_ofList_eq_iff (·.1 = .string ·) (IsScalar ·.2) name_unique
      (fun _ _ _ => IsScalar.unique)
      (fun entry hentry => ⟨(hall entry hentry).1.imp fun _ h => h.1, (hall entry hentry).2⟩) table
  constructor
  · rintro ⟨defaults, pairs, hdefaults, hpairs, hofList⟩
    rw [Node.entries?_eq_some_iff h] at hdefaults
    subst hdefaults
    have hnodup := nodup_keys_of_hasDefault h hpairs
    obtain ⟨hall, hpairs⟩ := (forall₂_hasDefault_iff h).mp hpairs
    obtain ⟨-, hrising, hmem⟩ := (hmade hall).mp ⟨pairs, hpairs, hnodup, hofList⟩
    exact ⟨⟨defaults, rfl, hall⟩, hrising, defaults, rfl, hmem⟩
  · rintro ⟨⟨defaults, rfl, hall⟩, hrising, others, hothers, hmem⟩
    cases hothers
    obtain ⟨pairs, hpairs, -, hofList⟩ := (hmade hall).mpr ⟨names_apart h, hrising, hmem⟩
    exact ⟨defaults, pairs, rfl, (forall₂_hasDefault_iff h).mpr ⟨hall, hpairs⟩, hofList⟩

theorem AreDefaults.exists_hasDefaults (hplain : value.isPlain = true) (h : AreDefaults value) :
    ∃ table, HasDefaults value table := by
  obtain ⟨defaults, rfl, hall⟩ := h
  have hentry : ∀ entry ∈ defaults, ∃ pair : String × Json,
      entry.1 = .string pair.1 ∧ IsScalar entry.2 pair.2 := by
    intro entry hentry
    obtain ⟨⟨name, hname, -⟩, v, hv⟩ := hall entry hentry
    exact ⟨(name, v), hname, hv⟩
  obtain ⟨pairs, hpairs⟩ := exists_forall₂ hentry
  exact ⟨_, defaults, pairs, rfl, (forall₂_hasDefault_iff hplain).mpr ⟨hall, hpairs⟩, rfl⟩

end Rulebook.Card
