import Mathlib.Data.List.Perm.Basic
import Rulebook.Proofs.Card.Conforms

/-!
# The layout of a document does not matter

Two documents may differ in the order of the entries of their mappings, in the blanks around their
strings outside `defaults`, and in those around the names in `detect` and `refs`. They are both refused
or both read as the same card.
-/

namespace Rulebook.Card

set_option autoImplicit false

open Yaml (Node)

/-! ## Layout -/

/-- Which blanks do not count in a part of a document: those that do not count under its keys, those
around its strings but not its keys, all, or none. -/
inductive Slack
  | document
  | texts
  | all
  | none
  deriving DecidableEq

namespace Slack

/-- The slack of the value under a key. -/
def under : Slack → Node → Slack
  | document, .string field =>
    if field = "defaults" then none else if field ∈ ["detect", "refs"] then all else texts
  | document, _ => texts
  | slack, _ => slack

def ofItems : Slack → Slack
  | document => texts
  | slack => slack

def ofKeys : Slack → Slack
  | all => all
  | _ => none

end Slack

/-- Two values that differ in layout only: in the order in which mappings have their entries, and in
blanks that do not count. -/
inductive Relaid : Slack → Node → Node → Prop
  | same {slack : Slack} (n : Node) : Relaid slack n n
  | string {slack : Slack} {s t : String} (hslack : slack ≠ .none) (h : Text.trim s = Text.trim t) :
    Relaid slack (.string s) (.string t)
  | sequence {slack : Slack} {items others : List Node} (hlength : items.length = others.length)
    (hitems : ∀ a b, (a, b) ∈ items.zip others → Relaid slack.ofItems a b) :
    Relaid slack (.sequence items) (.sequence others)
  | mapping {slack : Slack} {entries moved others : Entries} (hlength : entries.length = moved.length)
    (hkeys : ∀ a b, (a, b) ∈ entries.zip moved → Relaid slack.ofKeys a.1 b.1)
    (hvalues : ∀ a b, (a, b) ∈ entries.zip moved → Relaid (slack.under a.1) a.2 b.2)
    (hperm : moved.Perm others) : Relaid slack (.mapping entries) (.mapping others)

/-- Two entries that differ in layout only. -/
def RelaidEntry (slack : Slack) (a b : Node × Node) : Prop :=
  Relaid slack.ofKeys a.1 b.1 ∧ Relaid (slack.under a.1) a.2 b.2

/-- The entries of two mappings that differ in layout only. -/
def RelaidEntries (slack : Slack) (entries others : Entries) : Prop :=
  ∃ moved, List.Forall₂ (RelaidEntry slack) entries moved ∧ moved.Perm others

variable {slack : Slack} {a b : Node} {entries others : Entries} {s : String}

theorem RelaidEntries.refl (slack : Slack) (entries : Entries) : RelaidEntries slack entries entries :=
  ⟨entries, List.forall₂_same.mpr fun entry _ => ⟨.same entry.1, .same entry.2⟩, .refl entries⟩

theorem Relaid.eq_string (h : Relaid .none (.string s) b) : b = .string s := by
  cases h with
  | same => rfl
  | string hslack => exact absurd rfl hslack

/-- Keys that differ in layout only stand for the same field. -/
theorem under_eq (h : Relaid slack.ofKeys a b) : slack.under a = slack.under b := by
  cases slack with
  | document =>
    cases h with
    | string hslack => exact absurd rfl hslack
    | _ => rfl
  | _ => rfl

theorem Relaid.ofItems {items others : List Node} (h : List.Forall₂ (Relaid slack.ofItems) items others) :
    Relaid slack (.sequence items) (.sequence others) :=
  .sequence h.length_eq fun _ _ => (List.forall₂_iff_zip.mp h).2

theorem Relaid.ofEntries (h : RelaidEntries slack entries others) :
    Relaid slack (.mapping entries) (.mapping others) := by
  obtain ⟨moved, hrelaid, hperm⟩ := h
  obtain ⟨hlength, hzip⟩ := List.forall₂_iff_zip.mp hrelaid
  exact .mapping hlength (fun _ _ hmem => (hzip hmem).1) (fun _ _ hmem => (hzip hmem).2) hperm

theorem Relaid.symm (h : Relaid slack a b) : Relaid slack b a := by
  induction h with
  | same n => exact .same n
  | string hslack h => exact .string hslack h.symm
  | sequence hlength _ ih => exact .ofItems (List.forall₂_iff_zip.mpr ⟨hlength, ih _ _⟩).flip
  | @mapping slack entries moved others hlength hkeys _ hperm ihKeys ihValues =>
    have hback : List.Forall₂ (RelaidEntry slack) moved entries := by
      apply List.Forall₂.flip
      refine List.forall₂_iff_zip.mpr ⟨hlength, fun {x y} hmem => ⟨ihKeys x y hmem, ?_⟩⟩
      rw [← under_eq (hkeys x y hmem)]
      exact ihValues x y hmem
    exact .ofEntries (List.perm_comp_forall₂ hperm.symm hback)

/-! ## What is seen of a value -/

theorem Relaid.of_text? (h : Relaid slack a b) (htext : a.text? = some s) :
    ∃ t, b.text? = some t ∧ Text.trim s = Text.trim t ∧ (slack = .none → s = t) := by
  cases h with
  | same => exact ⟨s, htext, rfl, fun _ => rfl⟩
  | @string _ s' t hslack h =>
    cases htext
    exact ⟨t, rfl, h, fun hnone => absurd hnone hslack⟩
  | _ => cases htext

theorem Relaid.of_items? {items : List Node} (h : Relaid slack a b) (hitems : a.items? = some items) :
    ∃ others, b.items? = some others ∧ List.Forall₂ (Relaid slack.ofItems) items others := by
  cases h with
  | same => exact ⟨items, hitems, List.forall₂_same.mpr fun item _ => .same item⟩
  | sequence hlength hrelaid =>
    cases hitems
    exact ⟨_, rfl, List.forall₂_iff_zip.mpr ⟨hlength, hrelaid _ _⟩⟩
  | _ => cases hitems

theorem Relaid.of_entries? (h : Relaid slack a b) (hentries : a.entries? = some entries) :
    ∃ others, b.entries? = some others ∧ RelaidEntries slack entries others := by
  cases h with
  | same => exact ⟨entries, hentries, .refl slack entries⟩
  | mapping hlength hkeys hvalues hperm =>
    cases hentries
    refine ⟨_, rfl, _, List.forall₂_iff_zip.mpr ⟨hlength, ?_⟩, hperm⟩
    exact fun {x y} hmem => ⟨hkeys x y hmem, hvalues x y hmem⟩
  | _ => cases hentries

theorem Relaid.of_scalar? {v : Json} (h : Relaid .none a b) (hscalar : a.scalar? = some v) :
    b.scalar? = some v := by
  cases h with
  | same => exact hscalar
  | string hslack => exact absurd rfl hslack
  | _ => cases hscalar

theorem RelaidEntries.symm (h : RelaidEntries slack entries others) :
    RelaidEntries slack others entries := by
  obtain ⟨back, hback, h⟩ := (Relaid.ofEntries h).symm.of_entries? rfl
  cases hback
  exact h

theorem RelaidEntries.exists_of_mem (h : RelaidEntries slack entries others) {entry : Node × Node}
    (hmem : entry ∈ entries) : ∃ other ∈ others, RelaidEntry slack entry other := by
  obtain ⟨moved, hrelaid, hperm⟩ := h
  obtain ⟨other, hother, hentry⟩ := exists_of_mem_left hrelaid hmem
  exact ⟨other, hperm.subset hother, hentry⟩

/-! ## The values of the fields -/

/-- What is good of a value is good of every value that differs from it in layout only. -/
def Lasts (slack : Slack) (good : Node → Prop) : Prop :=
  ∀ a b, a.isPlain = true → b.isPlain = true → Relaid slack a b → good a → good b

theorem HasText.relaid (h : HasText a s) (hrelaid : Relaid slack a b) : HasText b s := by
  obtain ⟨raw, hraw, rfl, hne⟩ := h
  obtain ⟨raw', hraw', htrim, -⟩ := hrelaid.of_text? hraw
  exact ⟨raw', hraw', htrim.symm, hne⟩

theorem HasTexts.relaid {texts : List String} (h : HasTexts a texts) (hrelaid : Relaid slack a b) :
    HasTexts b texts := by
  obtain ⟨items, hitems, hne, htexts⟩ := h
  obtain ⟨others, hothers, hrelaid⟩ := hrelaid.of_items? hitems
  refine ⟨others, hothers, ?_, forall₂_carry ?_ hrelaid htexts⟩
  · rintro rfl
    exact hne (List.forall₂_nil_right_iff.mp hrelaid)
  · exact fun _ _ _ hitem htext => htext.relaid hitem

/-- The same table is made of entries that differ in layout only, whatever their order, if no two of them
have one name. -/
theorem RelaidEntries.table {α : Type} {reads : Node × Node → String × α → Prop}
    {pairs : List (String × α)} (hrelaid : RelaidEntries slack entries others)
    (hreads : ∀ entry other pair, RelaidEntry slack entry other → reads entry pair → reads other pair)
    (hpairs : List.Forall₂ reads entries pairs) (hdistinct : (Keyed.keys pairs).Nodup) :
    ∃ more, List.Forall₂ reads others more ∧ (Keyed.keys more).Nodup ∧
      Keyed.ofList more = Keyed.ofList pairs := by
  obtain ⟨moved, hrelaid, hperm⟩ := hrelaid
  obtain ⟨more, hmore, hpermPairs⟩ := List.perm_comp_forall₂ hperm.symm (forall₂_carry hreads hrelaid hpairs)
  have hdistinctMore : (Keyed.keys more).Nodup := (hpermPairs.map _).nodup_iff.mpr hdistinct
  refine ⟨more, hmore, hdistinctMore, ?_⟩
  refine Keyed.eq_of_rising (Keyed.rising_ofList more) (Keyed.rising_ofList pairs) fun pair => ?_
  rw [Keyed.mem_ofList_iff hdistinctMore, Keyed.mem_ofList_iff hdistinct, hpermPairs.mem_iff]

theorem lasts_lists (table : Keyed (List String)) : Lasts .all (HasLists · table) := by
  rintro a b - - hrelaid ⟨lists, pairs, hlists, hpairs, hdistinct, rfl⟩
  obtain ⟨others, hothers, hentries⟩ := hrelaid.of_entries? hlists
  obtain ⟨more, hmore⟩ := hentries.table
    (fun _ _ _ hentry hread => ⟨hread.1.relaid hentry.1, hread.2.relaid hentry.2⟩) hpairs hdistinct
  exact ⟨others, more, hothers, hmore⟩

theorem HasDefault.relaid {entry other : Node × Node} {pair : String × Json} (h : HasDefault entry pair)
    (hrelaid : RelaidEntry .none entry other) : HasDefault other pair := by
  obtain ⟨htext, hne, hscalar⟩ := h
  obtain ⟨t, ht, -, heq⟩ := hrelaid.1.of_text? htext
  exact ⟨heq rfl ▸ ht, hne, hrelaid.2.of_scalar? hscalar⟩

theorem lasts_defaults (table : Keyed Json) : Lasts .none (HasDefaults · table) := by
  rintro a b ha - hrelaid ⟨defaults, pairs, hdefaults, hpairs, rfl⟩
  obtain ⟨others, hothers, hentries⟩ := hrelaid.of_entries? hdefaults
  rw [Node.entries?_eq_some_iff ha] at hdefaults
  subst hdefaults
  obtain ⟨more, hmore, -, htable⟩ := hentries.table
    (fun _ _ _ hentry hread => hread.relaid hentry) hpairs (nodup_keys_of_hasDefault ha hpairs)
  exact ⟨others, more, hothers, hmore, htable⟩

theorem lasts_flag (slack : Slack) (flag : Bool) : Lasts slack (· = .bool flag) := by
  rintro a b - - hrelaid rfl
  cases hrelaid
  rfl

/-! ## The fields of a mapping -/

section

variable {key : String} {good : Node → Prop}

/-- A field is found in both mappings or in neither, and its values differ in layout only. -/
theorem RelaidEntries.valueOf? (hrelaid : RelaidEntries slack entries others) (hkeys : slack.ofKeys = .none)
    (hothers : Yaml.KeysDiffer others) (hfound : Node.valueOf? key entries = some a) :
    ∃ b, Node.valueOf? key others = some b ∧ Relaid (slack.under (.string key)) a b := by
  obtain ⟨⟨k, b⟩, hmem, hkey, hvalue⟩ := hrelaid.exists_of_mem (Node.mem_of_valueOf? hfound)
  rw [hkeys] at hkey
  cases hkey.eq_string
  exact ⟨b, (Node.valueOf?_eq_some_iff hothers).mpr hmem, hvalue⟩

variable (hrelaid : RelaidEntries slack entries others) (hkeys : slack.ofKeys = .none)
  (hentries : (Node.mapping entries).isPlain = true) (hothers : (Node.mapping others).isPlain = true)
  (hlasts : Lasts (slack.under (.string key)) good)

include hrelaid hkeys hentries hothers hlasts

theorem FieldHas.relaid (h : FieldHas entries key good) : FieldHas others key good := by
  obtain ⟨a, hfound, ha⟩ := h
  obtain ⟨b, hfound', hab⟩ := hrelaid.valueOf? hkeys (Node.isPlain_mapping_iff.mp hothers).1 hfound
  refine ⟨b, hfound', hlasts a b ?_ ?_ hab ha⟩
  · exact isPlain_of_mem hentries (Node.mem_of_valueOf? hfound)
  · exact isPlain_of_mem hothers (Node.mem_of_valueOf? hfound')

theorem FieldMayHave.relaid {absent : Prop} (h : FieldMayHave entries key absent good) :
    FieldMayHave others key absent good := by
  rw [FieldMayHave] at h
  cases hfound : Node.valueOf? key entries with
  | some a =>
    rw [hfound] at h
    exact (FieldHas.relaid hrelaid hkeys hentries hothers hlasts ⟨a, hfound, h⟩).mayHave _
  | none =>
    rw [hfound] at h
    cases hother : Node.valueOf? key others with
    | none => rwa [FieldMayHave, hother]
    | some b =>
      obtain ⟨a, ha, -⟩ :=
        hrelaid.symm.valueOf? hkeys (Node.isPlain_mapping_iff.mp hentries).1 hother
      rw [ha] at hfound
      cases hfound

end

/-- The mapping holds the same fields, whatever its layout. -/
theorem known_relaid {names : List String} (hrelaid : RelaidEntries slack entries others)
    (hkeys : slack.ofKeys = .none) (h : ∀ entry ∈ entries, ∃ name ∈ names, entry.1.text? = some name) :
    ∀ entry ∈ others, ∃ name ∈ names, entry.1.text? = some name := by
  intro other hother
  obtain ⟨entry, hentry, hkey, -⟩ := hrelaid.symm.exists_of_mem hother
  obtain ⟨name, hname, htext⟩ := h entry hentry
  obtain ⟨t, ht, -, heq⟩ := hkey.symm.of_text? htext
  rw [hkeys] at heq
  exact ⟨name, hname, heq rfl ▸ ht⟩

theorem lasts_tests (tests : List String) : Lasts .texts (HasTests · tests) := by
  rintro a b ha hb hrelaid ⟨part, hpart, hknown, htests⟩
  obtain ⟨other, hother, hentries⟩ := hrelaid.of_entries? hpart
  rw [Node.entries?_eq_some_iff ha] at hpart
  rw [Node.entries?_eq_some_iff hb] at hother
  subst hpart hother
  exact ⟨other, rfl, known_relaid hentries rfl hknown,
    htests.relaid hentries rfl ha hb fun _ _ _ _ hvalue htexts => htexts.relaid hvalue⟩

/-! ## Documents -/

theorem HasFields.relaid {card : Card} (h : HasFields entries card)
    (hrelaid : RelaidEntries .document entries others) (hentries : (Node.mapping entries).isPlain = true)
    (hothers : (Node.mapping others).isPlain = true) : HasFields others card := by
  have has {key : String} {good : Node → Prop} (hlasts : Lasts (Slack.under .document (.string key)) good)
      (h : FieldHas entries key good) : FieldHas others key good :=
    h.relaid hrelaid rfl hentries hothers hlasts
  have mayHave {key : String} {good : Node → Prop} {absent : Prop}
      (hlasts : Lasts (Slack.under .document (.string key)) good)
      (h : FieldMayHave entries key absent good) : FieldMayHave others key absent good :=
    h.relaid hrelaid rfl hentries hothers hlasts
  have htext (slack : Slack) (s : String) : Lasts slack (HasText · s) :=
    fun _ _ _ _ hvalue h => h.relaid hvalue
  have htexts (slack : Slack) (texts : List String) : Lasts slack (HasTexts · texts) :=
    fun _ _ _ _ hvalue h => h.relaid hvalue
  constructor
  case id => exact ⟨has (htext _ _) h.id.1, h.id.2⟩
  case title => exact ⟨has (htext _ _) h.title.1, h.title.2⟩
  case severity => exact has (htext _ _) h.severity
  case scope => exact ⟨has (htext _ _) h.scope.1, h.scope.2⟩
  case requirement => exact ⟨has (htext _ _) h.requirement.1, h.requirement.2⟩
  case dos => exact has (htexts _ _) h.dos
  case donts => exact has (htexts _ _) h.donts
  case detect => exact mayHave (lasts_lists card.detect) h.detect
  case tests => exact has (lasts_tests card.tests) h.tests
  case refs => exact mayHave (lasts_lists card.refs) h.refs
  case disabled => exact mayHave (lasts_flag _ _) h.disabled
  case defaults => exact mayHave (lasts_defaults card.defaults) h.defaults

theorem validate_ok_relaid {document other : Node} {card : Card} (h : validate document = .ok card)
    (hrelaid : Relaid .document document other) (hdocument : document.isPlain = true)
    (hother : other.isPlain = true) : validate other = .ok card := by
  obtain ⟨entries, hentries, hknown, hfields⟩ := validate_eq_ok_iff.mp h
  obtain ⟨others, hothers, hmoved⟩ := hrelaid.of_entries? hentries
  refine validate_eq_ok_iff.mpr ⟨others, hothers, known_relaid hmoved rfl hknown, ?_⟩
  rw [Node.entries?_eq_some_iff hdocument] at hentries
  rw [Node.entries?_eq_some_iff hother] at hothers
  subst hentries hothers
  exact hfields.relaid hmoved hdocument hother

/-- Two documents without tags that differ in layout only are both refused, or both are read as the same
card, which has one hash. -/
theorem validate_relaid {document other : Node} (hrelaid : Relaid .document document other)
    (huntagged : document.isUntagged = true) (hkeys : document.every Node.keysDiffer = true)
    (huntaggedOther : other.isUntagged = true) (hkeysOther : other.every Node.keysDiffer = true) :
    (∃ violations more, validate document = .error violations ∧ validate other = .error more) ∨
      ∃ card, validate document = .ok card ∧ validate other = .ok card ∧
        (validate document).map contentHash = .ok card.contentHash ∧
        (validate other).map contentHash = .ok card.contentHash := by
  have hdocument := Node.isPlain_iff.mpr ⟨huntagged, hkeys⟩
  have hother := Node.isPlain_iff.mpr ⟨huntaggedOther, hkeysOther⟩
  cases h : validate document with
  | ok card =>
    have hsame := validate_ok_relaid h hrelaid hdocument hother
    rw [hsame]
    exact .inr ⟨card, rfl, rfl, rfl, rfl⟩
  | error violations =>
    cases hmore : validate other with
    | error more => exact .inl ⟨violations, more, rfl, rfl⟩
    | ok card =>
      have hback := validate_ok_relaid hmore hrelaid.symm hother hdocument
      rw [h] at hback
      cases hback

/-- The fields of a card without a title and without tables. -/
def untitled : Entries :=
  [(.string "id", .string "A-B-001"), (.string "severity", .string "low"), (.string "scope", .string "c"),
    (.string "requirement", .string "Keep to it."), (.string "do", .sequence [.string "d"]),
    (.string "dont", .sequence [.string "e"]),
    (.string "verify", .mapping [(.string "tests", .sequence [.string "v"])])]

/-- Two layouts of a title and of tables. -/
def untidy : Entries :=
  [(.string "title", .string "\tA rule\n"),
    (.string "detect", .mapping [(.string "t ", .sequence [.string " 1"])]),
    (.string "defaults", .mapping [(.string " k", .string " v "), (.string "b", .bool false)])]

def tidy : Entries :=
  [(.string "title", .string "A rule"),
    (.string "detect", .mapping [(.string "t", .sequence [.string "1"])]),
    (.string "defaults", .mapping [(.string "b", .bool false), (.string " k", .string " v ")])]

theorem relaid_tidy : Relaid .document (.mapping (untidy ++ untitled)) (.mapping (untitled ++ tidy)) := by
  have htitle : Relaid .texts (.string "\tA rule\n") (.string "A rule") := .string (by decide) rfl
  have hdetect : Relaid .all (.mapping [(.string "t ", .sequence [.string " 1"])])
      (.mapping [(.string "t", .sequence [.string "1"])]) := by
    have hlist : Relaid .all (.sequence [.string " 1"]) (.sequence [.string "1"]) :=
      .ofItems (.cons (.string (by decide) rfl) .nil)
    have hname : Relaid .all (.string "t ") (.string "t") := .string (by decide) rfl
    exact .ofEntries ⟨[(.string "t", .sequence [.string "1"])], .cons ⟨hname, hlist⟩ .nil, .refl _⟩
  have hdefaults : Relaid .none (.mapping [(.string " k", .string " v "), (.string "b", .bool false)])
      (.mapping [(.string "b", .bool false), (.string " k", .string " v ")]) :=
    .ofEntries ⟨_, .cons ⟨.same _, .same _⟩ (.cons ⟨.same _, .same _⟩ .nil), .swap _ _ _⟩
  refine .ofEntries ⟨tidy ++ untitled, ?_, List.perm_append_comm⟩
  refine .cons ⟨.same _, htitle⟩ (.cons ⟨.same _, hdetect⟩ (.cons ⟨.same _, hdefaults⟩ ?_))
  exact List.forall₂_same.mpr fun entry _ => ⟨.same entry.1, .same entry.2⟩

def titled : Card :=
  ⟨"A-B-001", "A rule", .low, "c", "Keep to it.", ["d"], ["e"], [("t", ["1"])], ["v"], [], false,
    [(" k", .string " v "), ("b", .bool false)]⟩

theorem validate_relaid_tidy :
    Relaid .document (.mapping (untidy ++ untitled)) (.mapping (untitled ++ tidy)) ∧
      validate (.mapping (untidy ++ untitled)) = .ok titled ∧
      validate (.mapping (untitled ++ tidy)) = .ok titled := by
  have hcard : validate (.mapping (untidy ++ untitled)) = .ok titled := rfl
  obtain ⟨_, _, hrefused, -⟩ | ⟨card, haccepted, hsame, -⟩ :=
    validate_relaid relaid_tidy (by decide) (by decide) (by decide) (by decide)
  · rw [hcard] at hrefused
    cases hrefused
  · rw [hcard] at haccepted
    cases haccepted
    exact ⟨relaid_tidy, hcard, hsame⟩

end Rulebook.Card
