import Rulebook.Proofs.Card.Checked

/-!
# What the checks of a card accept

For each check it is stated what it gives for a document, with or without tags, as a relation between
the value of the field and what is stored. A check that gives nothing has always said why.
-/

namespace Rulebook.Card

set_option autoImplicit false

open Yaml (Node)

variable {α : Type} {entries : Entries} {key field : String} {value : Node}

/-! ## Fields -/

/-- The field is there, and its value is as it should be. -/
def FieldHas (entries : Entries) (key : String) (good : Node → Prop) : Prop :=
  ∃ value, Node.valueOf? key entries = some value ∧ good value

theorem gives_required_iff :
    (required entries key field).Gives value ↔
      Node.valueOf? key entries = some value ∧ value ≠ .null := by
  rw [required]
  split
  · simp [*]
  · rename_i hfound
    simp only [Checked.not_gives_fail, hfound, Option.some.injEq, false_iff, not_and, not_not]
    exact Eq.symm
  · rename_i found hnull hfound
    simp only [Checked.gives_ok_iff, hfound, Option.some.injEq, iff_self_and]
    rintro rfl
    exact hnull

theorem explained_required (entries : Entries) (key field : String) :
    (required entries key field).Explained := by
  rw [required]
  split
  · exact Checked.explained_fail _ _
  · exact Checked.explained_fail _ _
  · exact Checked.explained_ok _

/-- A null is never taken for the value of a field that must be there. -/
theorem gives_required_bind_iff (good : Node → α → Prop) {check : Node → Checked α}
    (hcheck : ∀ value a, (check value).Gives a ↔ good value a) (hnull : ∀ a, ¬ good .null a) {a : α} :
    (required entries key field >>= check).Gives a ↔ FieldHas entries key (good · a) := by
  rw [Checked.gives_bind_iff]
  refine exists_congr fun value => ?_
  rw [gives_required_iff, hcheck, and_assoc]
  refine and_congr_right fun _ => and_iff_right_of_imp ?_
  rintro hgood rfl
  exact hnull a hgood

/-! ## Texts -/

/-- The value is a text, and this is what is left of it without the blanks around it. -/
def HasText (value : Node) (s : String) : Prop :=
  ∃ raw, value.text? = some raw ∧ Text.trim raw = s ∧ s ≠ ""

theorem gives_checkText_iff {s : String} : (checkText field value).Gives s ↔ HasText value s := by
  rw [checkText, HasText]
  cases value.text? with
  | none => simp
  | some raw =>
    by_cases hempty : Text.trim raw = ""
    · simp [hempty]
    · simp only [String.isEmpty_iff, hempty, if_false, Checked.gives_ok_iff, Option.some.injEq,
        exists_eq_left', iff_self_and]
      rintro rfl
      exact hempty

theorem explained_checkText (field : String) (value : Node) : (checkText field value).Explained := by
  rw [checkText]
  split
  · exact Checked.explained_fail _ _
  · dsimp only
    split
    · exact Checked.explained_fail _ _
    · exact Checked.explained_ok _

/-- A text field that must be there, and what is made of its text. -/
theorem gives_requiredText_iff {check : String → Checked α} {a : α} :
    (required entries key key >>= fun value => checkText key value >>= check).Gives a ↔
      ∃ s, FieldHas entries key (HasText · s) ∧ (check s).Gives a := by
  have hcheck (value : Node) (a : α) : (checkText key value >>= check).Gives a ↔
      ∃ s, HasText value s ∧ (check s).Gives a := by
    simp only [Checked.gives_bind_iff, gives_checkText_iff]
  rw [gives_required_bind_iff _ hcheck]
  · simp only [FieldHas, ← exists_and_left, ← exists_and_right, and_assoc]
    exact exists_comm
  · rintro a ⟨s, ⟨raw, hnull, -⟩, -⟩
    cases hnull

theorem explained_requiredText {check : String → Checked α} (h : ∀ s, (check s).Explained) :
    (required entries key key >>= fun value => checkText key value >>= check).Explained :=
  (explained_required _ _ _).bind fun value => (explained_checkText key value).bind h

theorem gives_checkId_iff {id : String} :
    (checkId entries).Gives id ↔
      FieldHas entries "id" (HasText · id) ∧ RuleId.valid id = true := by
  rw [checkId, gives_requiredText_iff]
  simp only [Checked.gives_if_iff, exists_eq_right_right]

theorem explained_checkId (entries : Entries) : (checkId entries).Explained :=
  explained_requiredText fun _ => Checked.explained_if

def HasLength (lengths : Nat × Option Nat) (s : String) : Prop :=
  lengths.1 ≤ s.length ∧ ∀ most ∈ lengths.2, s.length ≤ most

theorem outOfRange_iff {lengths : Nat × Option Nat} {s : String} :
    (s.length < lengths.1 || lengths.2.any (· < s.length)) = true ↔ ¬ HasLength lengths s := by
  obtain ⟨least, most⟩ := lengths
  cases most <;> simp [HasLength, imp_iff_not_or]

theorem gives_checkLength_iff {lengths : Nat × Option Nat} {s : String} :
    (checkLength entries key lengths).Gives s ↔
      FieldHas entries key (HasText · s) ∧ HasLength lengths s := by
  rw [checkLength, gives_requiredText_iff]
  simp only [Checked.gives_unless_iff, outOfRange_iff, not_not, exists_eq_right_right]

theorem explained_checkLength (entries : Entries) (key : String) (lengths : Nat × Option Nat) :
    (checkLength entries key lengths).Explained :=
  explained_requiredText fun _ => Checked.explained_unless

theorem severity_parse_eq_some_iff {name : String} {severity : Severity} :
    Severity.parse name = some severity ↔ severity.name = name := by
  constructor
  · intro h
    simpa using List.find?_some h
  · rintro rfl
    exact severity.parse_name

theorem gives_checkSeverity_iff {severity : Severity} :
    (checkSeverity entries).Gives severity ↔
      FieldHas entries "severity" (HasText · severity.name) := by
  rw [checkSeverity, gives_requiredText_iff]
  constructor
  · rintro ⟨name, htext, hname⟩
    split at hname
    · rename_i found hfound
      obtain rfl := Checked.gives_pure_iff.mp hname
      rwa [severity_parse_eq_some_iff.mp hfound]
    · exact absurd hname Checked.not_gives_fail
  · intro htext
    refine ⟨severity.name, htext, ?_⟩
    rw [Severity.parse_name]
    exact Checked.gives_pure_iff.mpr rfl

theorem explained_checkSeverity (entries : Entries) : (checkSeverity entries).Explained := by
  refine explained_requiredText fun name => ?_
  split
  · exact Checked.explained_ok _
  · exact Checked.explained_fail _ _

theorem gives_checkScope_iff {scope : String} :
    (checkScope entries).Gives scope ↔
      FieldHas entries "scope" (HasText · scope) ∧
        ∀ c ∈ scope.toList, Text.isBlank c = false := by
  rw [checkScope, gives_requiredText_iff]
  simp only [Checked.gives_unless_iff, exists_eq_right_right, List.any_eq_true, not_exists, not_and,
    Bool.not_eq_true]

theorem explained_checkScope (entries : Entries) : (checkScope entries).Explained :=
  explained_requiredText fun _ => Checked.explained_unless

/-! ## Lists of texts -/

/-- The value is a list of texts, at least one, and these are what is left of them. -/
def HasTexts (value : Node) (texts : List String) : Prop :=
  ∃ items, value.items? = some items ∧ items ≠ [] ∧ List.Forall₂ HasText items texts

theorem gives_checkItems_iff {i : Nat} {items : List Node} {texts : List String} :
    (checkItems field i items).Gives texts ↔ List.Forall₂ HasText items texts := by
  induction items generalizing i texts with
  | nil => simp [checkItems, eq_comm]
  | cons item rest ih =>
    simp only [checkItems, Checked.gives_also_iff, Checked.gives_ok_iff, ih, gives_checkText_iff,
      List.forall₂_cons_left_iff]
    constructor
    · rintro ⟨_, others, ⟨_, first, rfl, hfirst, rfl⟩, hothers, rfl⟩
      exact ⟨first, others, hfirst, hothers, rfl⟩
    · rintro ⟨first, others, hfirst, hothers, rfl⟩
      exact ⟨_, others, ⟨_, first, rfl, hfirst, rfl⟩, hothers, rfl⟩

theorem explained_checkItems (field : String) (i : Nat) (items : List Node) :
    (checkItems field i items).Explained := by
  induction items generalizing i with
  | nil => exact Checked.explained_ok _
  | cons item rest ih =>
    exact ((Checked.explained_ok _).also (explained_checkText _ _)).also (ih _)

theorem gives_checkList_iff {texts : List String} :
    (checkList field value).Gives texts ↔ HasTexts value texts := by
  rw [checkList, HasTexts]
  split
  · simp [*]
  · simp [*]
  · rename_i items hne hitems
    simp only [hitems, gives_checkItems_iff, Option.some.injEq, exists_eq_left', iff_and_self]
    rintro - rfl
    exact hne rfl

theorem explained_checkList (field : String) (value : Node) : (checkList field value).Explained := by
  rw [checkList]
  split
  · exact Checked.explained_fail _ _
  · exact Checked.explained_fail _ _
  · exact explained_checkItems _ _ _

theorem gives_requiredList_iff {texts : List String} :
    (requiredList entries key field).Gives texts ↔
      FieldHas entries key (HasTexts · texts) := by
  refine gives_required_bind_iff HasTexts (fun _ _ => gives_checkList_iff) ?_
  rintro texts ⟨items, hnull, -⟩
  cases hnull

theorem explained_requiredList (entries : Entries) (key field : String) :
    (requiredList entries key field).Explained :=
  (explained_required _ _ _).bind fun value => explained_checkList field value

/-! ## Tables -/

/-- A field that may be left out, and then stands for something. -/
def FieldMayHave (entries : Entries) (key : String) (absent : Prop) (good : Node → Prop) : Prop :=
  match Node.valueOf? key entries with
  | none => absent
  | some value => good value

theorem FieldHas.mayHave {good : Node → Prop} (h : FieldHas entries key good) (absent : Prop) :
    FieldMayHave entries key absent good := by
  obtain ⟨value, hfound, hgood⟩ := h
  rwa [FieldMayHave, hfound]

def HasListEntry (entry : Node × Node) (pair : String × List String) : Prop :=
  HasText entry.1 pair.1 ∧ HasTexts entry.2 pair.2

/-- The value is a mapping from names to lists of texts, with different names, and this table of it. -/
def HasLists (value : Node) (table : Keyed (List String)) : Prop :=
  ∃ entries pairs, value.entries? = some entries ∧ List.Forall₂ HasListEntry entries pairs ∧
    (Keyed.keys pairs).Nodup ∧ Keyed.ofList pairs = table

theorem trimmedName_eq_some_iff {node : Node} {name : String} :
    (node.text?.map Text.trim).filter (!·.isEmpty) = some name ↔ HasText node name := by
  rw [HasText]
  cases node.text? with
  | none => simp
  | some raw => simp [Option.filter_eq_some_iff]

theorem forall_ne_iff {names : Keyed α} {name : String} :
    (∀ other ∈ names.keys, other ≠ name) ↔ names.contains name = false := by
  rw [← Bool.not_eq_true, Keyed.contains, Keyed.find?_isSome_iff]
  exact ⟨fun h hmem => h name hmem rfl, fun h other hother heq => h (heq ▸ hother)⟩

theorem checkListEntry_eq_full_iff (field : String) (filling : Filling (List String))
    (entry : Node × Node) (table : Keyed (List String)) :
    checkListEntry field filling entry = .full table ↔
      ∃ before pair, filling = .full before ∧ HasListEntry entry pair ∧
        (∀ name ∈ before.keys, name ≠ pair.1) ∧ before.insert pair.1 pair.2 = table := by
  simp only [HasListEntry, ← trimmedName_eq_some_iff, forall_ne_iff]
  rw [checkListEntry]
  cases (entry.1.text?.map Text.trim).filter (!·.isEmpty) with
  | none => simp
  | some name =>
    dsimp only
    constructor
    · intro h
      split at h
      · exact absurd h Filling.refuse_ne_full
      · rename_i hnew
        obtain ⟨before, texts, rfl, hgives, htable⟩ := Filling.store_eq_full_iff.mp h
        exact ⟨before, (name, texts), rfl, ⟨rfl, gives_checkList_iff.mp hgives⟩,
          Bool.not_eq_true _ ▸ hnew, htable⟩
    · rintro ⟨before, ⟨_, texts⟩, rfl, ⟨hname, htexts⟩, hnew, htable⟩
      obtain rfl := Option.some.inj hname
      have hname' : ¬ (Filling.full before).table.contains name = true := ne_true_of_eq_false hnew
      rw [if_neg hname']
      exact Filling.store_eq_full_iff.mpr
        ⟨before, texts, rfl, gives_checkList_iff.mpr htexts, htable⟩

theorem explained_checkListEntry (field : String) (filling : Filling (List String))
    (entry : Node × Node) (h : filling.Explained) :
    (checkListEntry field filling entry).Explained := by
  rw [checkListEntry]
  split
  · exact Filling.explained_refuse _ _ _
  · split
    · exact Filling.explained_refuse _ _ _
    · exact h.store (explained_checkList _ _) _

theorem gives_checkLists_iff {table : Keyed (List String)} :
    (checkLists entries field).Gives table ↔
      FieldMayHave entries field (table = []) (HasLists · table) := by
  rw [checkLists, FieldMayHave]
  cases Node.valueOf? field entries with
  | none => exact Checked.gives_ok_iff.trans eq_comm
  | some value =>
    dsimp only
    rw [HasLists]
    cases value.entries? with
    | none => simp
    | some lists =>
      dsimp only
      rw [Filling.gives_checked_iff,
        Filling.foldl_eq_full_iff HasListEntry (· ≠ ·) (checkListEntry_eq_full_iff field)]
      simp [List.Nodup]

theorem explained_checkLists (entries : Entries) (field : String) :
    (checkLists entries field).Explained := by
  rw [checkLists]
  split
  · exact Checked.explained_ok _
  · split
    · exact Checked.explained_fail _ _
    · exact Filling.explained_checked (explained_checkListEntry field) _

-- the name is stored as it is written, blanks included, and is only looked at without them
def HasDefault (entry : Node × Node) (pair : String × Json) : Prop :=
  entry.1.text? = some pair.1 ∧ Text.trim pair.1 ≠ "" ∧ entry.2.scalar? = some pair.2

/-- The value is a mapping from names to scalars, and this table of it. -/
def HasDefaults (value : Node) (table : Keyed Json) : Prop :=
  ∃ entries pairs, value.entries? = some entries ∧ List.Forall₂ HasDefault entries pairs ∧
    Keyed.ofList pairs = table

theorem checkDefault_eq_full_iff (filling : Filling Json) (entry : Node × Node)
    (table : Keyed Json) :
    checkDefault filling entry = .full table ↔
      ∃ before pair, filling = .full before ∧ HasDefault entry pair ∧
        before.insert pair.1 pair.2 = table := by
  have hname {name : String} :
      (entry.1.text?.filter fun key => !(Text.trim key).isEmpty) = some name ↔
        entry.1.text? = some name ∧ Text.trim name ≠ "" := by
    simp [Option.filter_eq_some_iff]
  simp only [HasDefault, ← and_assoc, ← hname]
  rw [checkDefault]
  cases entry.1.text?.filter fun key => !(Text.trim key).isEmpty with
  | none => simp
  | some name =>
    cases entry.2.scalar? with
    | none => simp
    | some value => simp [Filling.store_eq_full_iff, Prod.exists]

theorem explained_checkDefault (filling : Filling Json) (entry : Node × Node)
    (h : filling.Explained) : (checkDefault filling entry).Explained := by
  rw [checkDefault]
  split
  · exact Filling.explained_refuse _ _ _
  · split
    · exact h.store (Checked.explained_ok _) _
    · exact Filling.explained_refuse _ _ _

theorem gives_checkDefaults_iff {table : Keyed Json} :
    (checkDefaults entries).Gives table ↔
      FieldMayHave entries "defaults" (table = []) (HasDefaults · table) := by
  rw [checkDefaults, FieldMayHave]
  cases Node.valueOf? "defaults" entries with
  | none => exact Checked.gives_ok_iff.trans eq_comm
  | some value =>
    dsimp only
    rw [HasDefaults]
    cases value.entries? with
    | none => simp
    | some defaults =>
      dsimp only
      rw [Filling.gives_checked_iff, Filling.foldl_eq_full_iff HasDefault (fun _ _ => True)
        fun filling entry table => by simp [checkDefault_eq_full_iff filling entry table]]
      simp [List.pairwise_of_forall]

theorem explained_checkDefaults (entries : Entries) : (checkDefaults entries).Explained := by
  rw [checkDefaults]
  split
  · exact Checked.explained_ok _
  · split
    · exact Checked.explained_fail _ _
    · exact Filling.explained_checked explained_checkDefault _

/-! ## The other fields -/

theorem unknownKeys_eq_nil_iff {place : String} {allowed : List String} :
    unknownKeys place allowed entries = [] ↔
      ∀ entry ∈ entries, ∃ name ∈ allowed, entry.1.text? = some name := by
  rw [unknownKeys, List.filterMap_eq_nil_iff]
  refine forall₂_congr fun ⟨key, _⟩ _ => ?_
  dsimp only
  cases key.text? with
  | none => simp
  | some name => simp

/-- The value is a mapping with tests and nothing else. -/
def HasTests (value : Node) (tests : List String) : Prop :=
  ∃ part, value.entries? = some part ∧
    (∀ entry ∈ part, ∃ name ∈ verifyFields, entry.1.text? = some name) ∧
    FieldHas part "tests" (HasTexts · tests)

theorem gives_checkVerify_iff {tests : List String} :
    (checkVerify entries).Gives tests ↔
      FieldHas entries "verify" (HasTests · tests) := by
  rw [checkVerify]
  refine gives_required_bind_iff HasTests (fun value tests => ?_) ?_
  · rw [HasTests]
    cases value.entries? with
    | none => simp
    | some part =>
      have hunknown : unknownKeys "verify." verifyFields part = [] ↔ _ := unknownKeys_eq_nil_iff
      have htests : (requiredList part "tests" "verify.tests").Gives tests ↔ _ :=
        gives_requiredList_iff
      simp only [Option.some.injEq, exists_eq_left', ← hunknown, ← htests, Checked.Gives,
        List.append_eq_nil_iff]
      exact and_left_comm
  · rintro tests ⟨part, hnull, -⟩
    cases hnull

theorem explained_checkVerify (entries : Entries) : (checkVerify entries).Explained := by
  refine (explained_required _ _ _).bind fun value => ?_
  split
  · exact Checked.explained_fail _ _
  · rename_i part _
    intro hnone hnil
    exact explained_requiredList part "tests" "verify.tests" hnone (List.append_eq_nil_iff.mp hnil).2

theorem gives_checkFlag_iff {b : Bool} :
    (checkFlag entries field).Gives b ↔
      FieldMayHave entries field (b = false) (· = .bool b) := by
  rw [checkFlag, FieldMayHave]
  cases Node.valueOf? field entries with
  | none => exact Checked.gives_ok_iff.trans eq_comm
  | some value => cases value <;> simp

theorem explained_checkFlag (entries : Entries) (field : String) :
    (checkFlag entries field).Explained := by
  rw [checkFlag]
  split
  · exact Checked.explained_ok _
  · exact Checked.explained_ok _
  · exact Checked.explained_fail _ _

/-! ## Documents -/

/-- The card that can be read from the fields of a document, whatever else the document holds. -/
structure HasFields (entries : Entries) (card : Card) : Prop where
  id : FieldHas entries "id" (HasText · card.id) ∧ RuleId.valid card.id = true
  title : FieldHas entries "title" (HasText · card.title) ∧ HasLength titleLengths card.title
  severity : FieldHas entries "severity" (HasText · card.severity.name)
  scope : FieldHas entries "scope" (HasText · card.scope) ∧
    ∀ c ∈ card.scope.toList, Text.isBlank c = false
  requirement : FieldHas entries "requirement" (HasText · card.requirement) ∧
    HasLength requirementLengths card.requirement
  dos : FieldHas entries "do" (HasTexts · card.dos)
  donts : FieldHas entries "dont" (HasTexts · card.donts)
  detect : FieldMayHave entries "detect" (card.detect = []) (HasLists · card.detect)
  tests : FieldHas entries "verify" (HasTests · card.tests)
  refs : FieldMayHave entries "refs" (card.refs = []) (HasLists · card.refs)
  disabled : FieldMayHave entries "disabled" (card.disabled = false) (· = .bool card.disabled)
  defaults : FieldMayHave entries "defaults" (card.defaults = []) (HasDefaults · card.defaults)

variable {card : Card}

theorem gives_checkFields_iff : (checkFields entries).Gives card ↔ HasFields entries card := by
  constructor
  · intro h
    simp only [checkFields, Checked.gives_also_iff, Checked.gives_ok_iff] at h
    obtain ⟨_, _, ⟨_, _, ⟨_, _, ⟨_, _, ⟨_, _, ⟨_, _, ⟨_, _, ⟨_, _, ⟨_, _, ⟨_, _, ⟨_, _, ⟨_, _,
      rfl, hid, rfl⟩, htitle, rfl⟩, hseverity, rfl⟩, hscope, rfl⟩, hrequirement, rfl⟩, hdos, rfl⟩,
      hdonts, rfl⟩, hdetect, rfl⟩, htests, rfl⟩, hrefs, rfl⟩, hdisabled, rfl⟩, hdefaults, rfl⟩ := h
    exact ⟨gives_checkId_iff.mp hid, gives_checkLength_iff.mp htitle,
      gives_checkSeverity_iff.mp hseverity, gives_checkScope_iff.mp hscope,
      gives_checkLength_iff.mp hrequirement, gives_requiredList_iff.mp hdos,
      gives_requiredList_iff.mp hdonts, gives_checkLists_iff.mp hdetect,
      gives_checkVerify_iff.mp htests, gives_checkLists_iff.mp hrefs,
      gives_checkFlag_iff.mp hdisabled, gives_checkDefaults_iff.mp hdefaults⟩
  · intro h
    exact (Checked.gives_ok_iff.mpr rfl)
      |>.also (gives_checkId_iff.mpr h.id)
      |>.also (gives_checkLength_iff.mpr h.title)
      |>.also (gives_checkSeverity_iff.mpr h.severity)
      |>.also (gives_checkScope_iff.mpr h.scope)
      |>.also (gives_checkLength_iff.mpr h.requirement)
      |>.also (gives_requiredList_iff.mpr h.dos)
      |>.also (gives_requiredList_iff.mpr h.donts)
      |>.also (gives_checkLists_iff.mpr h.detect)
      |>.also (gives_checkVerify_iff.mpr h.tests)
      |>.also (gives_checkLists_iff.mpr h.refs)
      |>.also (gives_checkFlag_iff.mpr h.disabled)
      |>.also (gives_checkDefaults_iff.mpr h.defaults)

theorem explained_checkFields (entries : Entries) : (checkFields entries).Explained :=
  (Checked.explained_ok _)
    |>.also (explained_checkId entries)
    |>.also (explained_checkLength entries _ _)
    |>.also (explained_checkSeverity entries)
    |>.also (explained_checkScope entries)
    |>.also (explained_checkLength entries _ _)
    |>.also (explained_requiredList entries _ _)
    |>.also (explained_requiredList entries _ _)
    |>.also (explained_checkLists entries _)
    |>.also (explained_checkVerify entries)
    |>.also (explained_checkLists entries _)
    |>.also (explained_checkFlag entries _)
    |>.also (explained_checkDefaults entries)

/-- A document is read as a card if it has the card's fields and no key besides. -/
theorem validate_eq_ok_iff {document : Node} :
    validate document = .ok card ↔
      ∃ entries, document.entries? = some entries ∧
        (∀ entry ∈ entries, ∃ name ∈ fields, entry.1.text? = some name) ∧
        HasFields entries card := by
  rw [validate]
  cases document.entries? with
  | none => simp
  | some entries =>
    have hunknown : unknownKeys "" fields entries = [] ↔ _ := unknownKeys_eq_nil_iff
    simp only [← gives_checkFields_iff, ← hunknown, Checked.Gives, Option.some.injEq,
      exists_eq_left']
    constructor
    · intro h
      split at h
      · rename_i hnil hvalue
        obtain ⟨hunknown, hviolations⟩ := List.append_eq_nil_iff.mp hnil
        cases h
        exact ⟨hunknown, hvalue, hviolations⟩
      · cases h
    · rintro ⟨hunknown, hvalue, hviolations⟩
      rw [hunknown, hvalue, hviolations]
      rfl

theorem validate_error {document : Node} {violations : List Violation}
    (h : validate document = .error violations) : violations ≠ [] := by
  rw [validate] at h
  split at h
  · cases h
    exact List.cons_ne_nil _ _
  · rename_i entries _
    dsimp only at h
    split at h
    · cases h
    · rename_i hnot
      cases h
      -- with nothing to report, every check would have made its value, and so a card
      intro hnil
      obtain ⟨card, hvalue, -⟩ :=
        (explained_checkFields entries).exists_gives (List.append_eq_nil_iff.mp hnil).2
      exact hnot card hnil hvalue

end Rulebook.Card
