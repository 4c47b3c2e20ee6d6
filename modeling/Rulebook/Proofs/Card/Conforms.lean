import Rulebook.Proofs.Card.Values

/-!
# The validator accepts exactly the card schema

The schema is stated for documents without tags, by what their mappings hold and not by what a look-up
finds. A document is accepted exactly if it conforms, the card then holds its texts without the blanks
around them, and a document that is refused is refused for a reason.
-/

namespace Rulebook.Card

set_option autoImplicit false

open Yaml (Node)

/-! ## The schema -/

/-- A mapping with a list of tests and nothing else. -/
def AreTests (value : Node) : Prop :=
  ∃ part, value = .mapping part ∧ (∀ entry ∈ part, entry.1 = .string "tests") ∧
    ∃ tests, (.string "tests", tests) ∈ part ∧ AreTexts tests

/-- The mapping of a card. -/
structure Conforms (entries : Entries) : Prop where
  known : ∀ entry ∈ entries, ∃ name ∈ fields, entry.1 = .string name
  id : ∃ s, (.string "id", .string s) ∈ entries ∧ RuleId.valid (Text.trim s) = true
  title : ∃ s, (.string "title", .string s) ∈ entries ∧
    5 ≤ (Text.trim s).length ∧ (Text.trim s).length ≤ 100
  severity : ∃ s, (.string "severity", .string s) ∈ entries ∧
    Text.trim s ∈ ["low", "medium", "high", "critical"]
  scope : ∃ s, (.string "scope", .string s) ∈ entries ∧ Text.trim s ≠ "" ∧
    ∀ c ∈ (Text.trim s).toList, Text.isBlank c = false
  requirement : ∃ s, (.string "requirement", .string s) ∈ entries ∧ 10 ≤ (Text.trim s).length
  dos : ∃ value, (.string "do", value) ∈ entries ∧ AreTexts value
  donts : ∃ value, (.string "dont", value) ∈ entries ∧ AreTexts value
  detect : ∀ value, (.string "detect", value) ∈ entries → AreLists value
  verify : ∃ value, (.string "verify", value) ∈ entries ∧ AreTests value
  refs : ∀ value, (.string "refs", value) ∈ entries → AreLists value
  disabled : ∀ value, (.string "disabled", value) ∈ entries → ∃ b, value = .bool b
  defaults : ∀ value, (.string "defaults", value) ∈ entries → AreDefaults value

/-! ## The card of a document -/

/-- A table for a field that may be left out. -/
structure Tabulates {α : Type} (entries : Entries) (key : String)
    (stored : Node → Keyed α → Prop) (table : Keyed α) : Prop where
  rising : table.Rising
  present : ∀ value, (.string key, value) ∈ entries → stored value table
  absent : (∀ value, (.string key, value) ∉ entries) → table = []

/-- The card that the mapping of a card holds. -/
structure Holds (entries : Entries) (card : Card) : Prop where
  id : ∃ s, (.string "id", .string s) ∈ entries ∧ card.id = Text.trim s
  title : ∃ s, (.string "title", .string s) ∈ entries ∧ card.title = Text.trim s
  severity : ∃ s, (.string "severity", .string s) ∈ entries ∧ card.severity.name = Text.trim s
  scope : ∃ s, (.string "scope", .string s) ∈ entries ∧ card.scope = Text.trim s
  requirement : ∃ s, (.string "requirement", .string s) ∈ entries ∧ card.requirement = Text.trim s
  dos : ∃ value, (.string "do", value) ∈ entries ∧ TrimsAll value card.dos
  donts : ∃ value, (.string "dont", value) ∈ entries ∧ TrimsAll value card.donts
  detect : Tabulates entries "detect" TrimsLists card.detect
  tests : ∃ part value, (.string "verify", .mapping part) ∈ entries ∧
    (.string "tests", value) ∈ part ∧ TrimsAll value card.tests
  refs : Tabulates entries "refs" TrimsLists card.refs
  disabled : card.disabled = true ↔ (.string "disabled", .bool true) ∈ entries
  defaults : Tabulates entries "defaults" KeepsDefaults card.defaults

/-! ## Fields of a mapping -/

section

variable {value : Node} {entries : Entries} {key : String}

theorem fieldHas_iff (h : (Node.mapping entries).isPlain = true) {good : Node → Prop} :
    FieldHas entries key good ↔ ∃ value, (.string key, value) ∈ entries ∧ good value := by
  simp only [FieldHas, Node.valueOf?_eq_some_iff (Node.isPlain_mapping_iff.mp h).1]

theorem fieldMayHave_iff (h : (Node.mapping entries).isPlain = true) {absent : Prop}
    {good : Node → Prop} :
    FieldMayHave entries key absent good ↔
      (∀ value, (.string key, value) ∈ entries → good value) ∧
        ((∀ value, (.string key, value) ∉ entries) → absent) := by
  have hdistinct := (Node.isPlain_mapping_iff.mp h).1
  rw [FieldMayHave]
  cases hfound : Node.valueOf? key entries with
  | none =>
    have hnone := Node.valueOf?_eq_none_iff.mp hfound
    simp [hnone]
  | some value =>
    have hmem := Node.mem_of_valueOf? hfound
    have hsome : ¬ ∀ value, (.string key, value) ∉ entries := fun hnone => hnone value hmem
    simp only [hsome, false_imp_iff, and_true]
    refine ⟨fun hgood other hother => ?_, fun hall => hall value hmem⟩
    rwa [Node.value_unique hdistinct hother hmem]

theorem isPlain_of_mem (h : (Node.mapping entries).isPlain = true) (hmem : (.string key, value) ∈ entries) :
    value.isPlain = true :=
  ((Node.isPlain_mapping_iff.mp h).2 _ hmem).2

/-- A text field whose text is as it should be, which no blank one is. -/
theorem textField_iff (h : (Node.mapping entries).isPlain = true) (fits : String → Prop)
    (hfits : ∀ t, fits t → t ≠ "") {s : String} :
    FieldHas entries key (HasText · s) ∧ fits s ↔
      (∃ t, (.string key, .string t) ∈ entries ∧ fits (Text.trim t)) ∧
        ∃ t, (.string key, .string t) ∈ entries ∧ s = Text.trim t := by
  rw [fieldHas_iff h]
  constructor
  · rintro ⟨⟨value, hmem, htext⟩, hgood⟩
    obtain ⟨-, raw, rfl, rfl⟩ := (hasText_iff (isPlain_of_mem h hmem)).mp htext
    exact ⟨⟨raw, hmem, hgood⟩, raw, hmem, rfl⟩
  · rintro ⟨⟨raw, hmem, hgood⟩, raw', hmem', rfl⟩
    cases Node.value_unique (Node.isPlain_mapping_iff.mp h).1 hmem hmem'
    exact ⟨⟨.string raw, hmem, raw, rfl, rfl, hfits _ hgood⟩, hgood⟩

theorem listField_iff (h : (Node.mapping entries).isPlain = true) {texts : List String} :
    FieldHas entries key (HasTexts · texts) ↔
      (∃ value, (.string key, value) ∈ entries ∧ AreTexts value) ∧
        ∃ value, (.string key, value) ∈ entries ∧ TrimsAll value texts := by
  rw [fieldHas_iff h]
  constructor
  · rintro ⟨value, hmem, htexts⟩
    obtain ⟨hgood, htrims⟩ := (hasTexts_iff (isPlain_of_mem h hmem)).mp htexts
    exact ⟨⟨value, hmem, hgood⟩, value, hmem, htrims⟩
  · rintro ⟨⟨value, hmem, hgood⟩, value', hmem', htrims⟩
    cases Node.value_unique (Node.isPlain_mapping_iff.mp h).1 hmem hmem'
    exact ⟨value, hmem, (hasTexts_iff (isPlain_of_mem h hmem)).mpr ⟨hgood, htrims⟩⟩

theorem tableField_iff {α : Type} {has stored : Node → Keyed α → Prop} {good : Node → Prop}
    (hhas : ∀ {value : Node}, value.isPlain = true → ∀ {table : Keyed α},
      has value table ↔ good value ∧ table.Rising ∧ stored value table)
    (h : (Node.mapping entries).isPlain = true) {table : Keyed α} :
    FieldMayHave entries key (table = []) (has · table) ↔
      (∀ value, (.string key, value) ∈ entries → good value) ∧
        Tabulates entries key stored table := by
  rw [fieldMayHave_iff h]
  constructor
  · rintro ⟨hall, habsent⟩
    have hparts (value : Node) (hmem : (.string key, value) ∈ entries) :=
      (hhas (isPlain_of_mem h hmem)).mp (hall value hmem)
    refine ⟨fun value hmem => (hparts value hmem).1, ?_,
      fun value hmem => (hparts value hmem).2.2, habsent⟩
    by_cases hex : ∃ value, (.string key, value) ∈ entries
    · obtain ⟨value, hmem⟩ := hex
      exact (hparts value hmem).2.1
    · rw [habsent (not_exists.mp hex)]
      exact .nil
  · rintro ⟨hgood, htable⟩
    refine ⟨fun value hmem => ?_, htable.absent⟩
    exact (hhas (isPlain_of_mem h hmem)).mpr
      ⟨hgood value hmem, htable.rising, htable.present value hmem⟩

theorem flagField_iff (h : (Node.mapping entries).isPlain = true) {b : Bool} :
    FieldMayHave entries key (b = false) (· = .bool b) ↔
      (∀ value, (.string key, value) ∈ entries → ∃ b, value = .bool b) ∧
        (b = true ↔ (.string key, .bool true) ∈ entries) := by
  rw [fieldMayHave_iff h]
  constructor
  · rintro ⟨hall, habsent⟩
    refine ⟨fun value hmem => ⟨b, hall value hmem⟩, fun hb => ?_, fun hmem => ?_⟩
    · by_contra hnot
      have hnone (value : Node) (hmem : (.string key, value) ∈ entries) : False := by
        rw [hall value hmem, hb] at hmem
        exact hnot hmem
      exact absurd hb (ne_true_of_eq_false (habsent hnone))
    · exact (Node.bool.inj (hall _ hmem)).symm
  · rintro ⟨hall, htrue⟩
    refine ⟨fun value hmem => ?_, fun hnone => ?_⟩
    · obtain ⟨c, rfl⟩ := hall value hmem
      have hc : c = true ↔ b = true := by
        rw [htrue]
        refine ⟨fun hc => hc ▸ hmem, fun hmem' => ?_⟩
        exact Node.bool.inj (Node.value_unique (Node.isPlain_mapping_iff.mp h).1 hmem hmem')
      rw [Bool.eq_iff_iff.mpr hc]
    · exact Bool.eq_false_iff.mpr fun hb => hnone _ (htrue.mp hb)

theorem hasTests_iff (hplain : value.isPlain = true) {tests : List String} :
    HasTests value tests ↔ AreTests value ∧
      ∃ part list, value = .mapping part ∧ (.string "tests", list) ∈ part ∧ TrimsAll list tests := by
  have hknown {part : Entries} (h : (Node.mapping part).isPlain = true) :
      (∀ entry ∈ part, ∃ name ∈ verifyFields, entry.1.text? = some name) ↔
        ∀ entry ∈ part, entry.1 = .string "tests" := by
    refine forall₂_congr fun entry hentry => ?_
    rw [← Node.text?_eq_some_iff ((Node.isPlain_mapping_iff.mp h).2 entry hentry).1]
    simp [verifyFields]
  constructor
  · rintro ⟨part, hpart, hkeys, htests⟩
    rw [Node.entries?_eq_some_iff hplain] at hpart
    subst hpart
    obtain ⟨⟨list, hmem, hgood⟩, list', hmem', htrims⟩ := (listField_iff hplain).mp htests
    exact ⟨⟨part, rfl, (hknown hplain).mp hkeys, list, hmem, hgood⟩, part, list', rfl, hmem', htrims⟩
  · rintro ⟨⟨part, rfl, hkeys, list, hmem, hgood⟩, part', list', hpart, hmem', htrims⟩
    cases hpart
    exact ⟨part, rfl, (hknown hplain).mpr hkeys,
      (listField_iff hplain).mpr ⟨⟨list, hmem, hgood⟩, list', hmem', htrims⟩⟩

theorem testsField_iff (h : (Node.mapping entries).isPlain = true) {tests : List String} :
    FieldHas entries "verify" (HasTests · tests) ↔
      (∃ value, (.string "verify", value) ∈ entries ∧ AreTests value) ∧
        ∃ part list, (.string "verify", .mapping part) ∈ entries ∧
          (.string "tests", list) ∈ part ∧ TrimsAll list tests := by
  rw [fieldHas_iff h]
  constructor
  · rintro ⟨value, hmem, htests⟩
    obtain ⟨hgood, part, list, rfl, hlist, htrims⟩ := (hasTests_iff (isPlain_of_mem h hmem)).mp htests
    exact ⟨⟨_, hmem, hgood⟩, part, list, hmem, hlist, htrims⟩
  · rintro ⟨⟨value, hmem, hgood⟩, part, list, hmem', hlist, htrims⟩
    cases Node.value_unique (Node.isPlain_mapping_iff.mp h).1 hmem hmem'
    exact ⟨_, hmem, (hasTests_iff (isPlain_of_mem h hmem)).mpr ⟨hgood, part, list, rfl, hlist, htrims⟩⟩

theorem idField_iff (h : (Node.mapping entries).isPlain = true) {id : String} :
    FieldHas entries "id" (HasText · id) ∧ RuleId.valid id = true ↔
      (∃ s, (.string "id", .string s) ∈ entries ∧ RuleId.valid (Text.trim s) = true) ∧
        ∃ s, (.string "id", .string s) ∈ entries ∧ id = Text.trim s :=
  textField_iff h (RuleId.valid · = true) (by rintro _ hvalid rfl; cases hvalid)

theorem titleField_iff (h : (Node.mapping entries).isPlain = true) {title : String} :
    FieldHas entries "title" (HasText · title) ∧ HasLength titleLengths title ↔
      (∃ s, (.string "title", .string s) ∈ entries ∧
          5 ≤ (Text.trim s).length ∧ (Text.trim s).length ≤ 100) ∧
        ∃ s, (.string "title", .string s) ∈ entries ∧ title = Text.trim s := by
  rw [← textField_iff h (fun s => 5 ≤ s.length ∧ s.length ≤ 100) (by rintro _ ht rfl; simp at ht)]
  simp [HasLength, titleLengths]

theorem requirementField_iff (h : (Node.mapping entries).isPlain = true) {requirement : String} :
    FieldHas entries "requirement" (HasText · requirement) ∧
        HasLength requirementLengths requirement ↔
      (∃ s, (.string "requirement", .string s) ∈ entries ∧ 10 ≤ (Text.trim s).length) ∧
        ∃ s, (.string "requirement", .string s) ∈ entries ∧ requirement = Text.trim s := by
  rw [← textField_iff h (fun s => 10 ≤ s.length) (by rintro _ ht rfl; simp at ht)]
  simp [HasLength, requirementLengths]

theorem severityField_iff (h : (Node.mapping entries).isPlain = true) {severity : Severity} :
    FieldHas entries "severity" (HasText · severity.name) ↔
      (∃ s, (.string "severity", .string s) ∈ entries ∧
          Text.trim s ∈ ["low", "medium", "high", "critical"]) ∧
        ∃ s, (.string "severity", .string s) ∈ entries ∧ severity.name = Text.trim s := by
  have hname : severity.name ∈ ["low", "medium", "high", "critical"] := by cases severity <;> decide
  rw [← textField_iff h (· ∈ ["low", "medium", "high", "critical"]) (by rintro _ ht rfl; simp at ht)]
  exact (and_iff_left hname).symm

theorem scopeField_iff (h : (Node.mapping entries).isPlain = true) {scope : String} :
    FieldHas entries "scope" (HasText · scope) ∧ (∀ c ∈ scope.toList, Text.isBlank c = false) ↔
      (∃ s, (.string "scope", .string s) ∈ entries ∧ Text.trim s ≠ "" ∧
          ∀ c ∈ (Text.trim s).toList, Text.isBlank c = false) ∧
        ∃ s, (.string "scope", .string s) ∈ entries ∧ scope = Text.trim s := by
  rw [← textField_iff h (fun s => s ≠ "" ∧ ∀ c ∈ s.toList, Text.isBlank c = false) fun _ ht => ht.1]
  refine and_congr_right fun htext => (and_iff_right ?_).symm
  obtain ⟨value, -, raw, -, -, hne⟩ := htext
  exact hne

/-- The mapping of a document has the fields of a card, and no others, if it conforms and the card is
what it holds. -/
theorem hasFields_iff (h : (Node.mapping entries).isPlain = true) {card : Card} :
    (∀ entry ∈ entries, ∃ name ∈ fields, entry.1.text? = some name) ∧ HasFields entries card ↔
      Conforms entries ∧ Holds entries card := by
  have hknown : (∀ entry ∈ entries, ∃ name ∈ fields, entry.1.text? = some name) ↔
      ∀ entry ∈ entries, ∃ name ∈ fields, entry.1 = .string name := by
    refine forall₂_congr fun entry hentry => exists_congr fun name => and_congr_right fun _ => ?_
    exact Node.text?_eq_some_iff ((Node.isPlain_mapping_iff.mp h).2 entry hentry).1
  constructor
  · rintro ⟨hkeys, hf⟩
    have hid := (idField_iff h).mp hf.id
    have htitle := (titleField_iff h).mp hf.title
    have hseverity := (severityField_iff h).mp hf.severity
    have hscope := (scopeField_iff h).mp hf.scope
    have hrequirement := (requirementField_iff h).mp hf.requirement
    have hdos := (listField_iff h).mp hf.dos
    have hdonts := (listField_iff h).mp hf.donts
    have hdetect := (tableField_iff hasLists_iff h).mp hf.detect
    have htests := (testsField_iff h).mp hf.tests
    have hrefs := (tableField_iff hasLists_iff h).mp hf.refs
    have hdisabled := (flagField_iff h).mp hf.disabled
    have hdefaults := (tableField_iff hasDefaults_iff h).mp hf.defaults
    exact ⟨⟨hknown.mp hkeys, hid.1, htitle.1, hseverity.1, hscope.1, hrequirement.1, hdos.1, hdonts.1,
        hdetect.1, htests.1, hrefs.1, hdisabled.1, hdefaults.1⟩,
      ⟨hid.2, htitle.2, hseverity.2, hscope.2, hrequirement.2, hdos.2, hdonts.2, hdetect.2, htests.2,
        hrefs.2, hdisabled.2, hdefaults.2⟩⟩
  · rintro ⟨hc, hs⟩
    refine ⟨hknown.mpr hc.known, ?_⟩
    exact ⟨(idField_iff h).mpr ⟨hc.id, hs.id⟩, (titleField_iff h).mpr ⟨hc.title, hs.title⟩,
      (severityField_iff h).mpr ⟨hc.severity, hs.severity⟩,
      (scopeField_iff h).mpr ⟨hc.scope, hs.scope⟩,
      (requirementField_iff h).mpr ⟨hc.requirement, hs.requirement⟩,
      (listField_iff h).mpr ⟨hc.dos, hs.dos⟩, (listField_iff h).mpr ⟨hc.donts, hs.donts⟩,
      (tableField_iff hasLists_iff h).mpr ⟨hc.detect, hs.detect⟩,
      (testsField_iff h).mpr ⟨hc.verify, hs.tests⟩,
      (tableField_iff hasLists_iff h).mpr ⟨hc.refs, hs.refs⟩,
      (flagField_iff h).mpr ⟨hc.disabled, hs.disabled⟩,
      (tableField_iff hasDefaults_iff h).mpr ⟨hc.defaults, hs.defaults⟩⟩

/-! ## Every document that conforms holds a card -/

theorem exists_tabulates {α : Type} {stored : Node → Keyed α → Prop}
    (h : (Node.mapping entries).isPlain = true)
    (hstored : ∀ value, (.string key, value) ∈ entries →
      ∃ table : Keyed α, table.Rising ∧ stored value table) :
    ∃ table, Tabulates entries key stored table := by
  by_cases hex : ∃ value, (.string key, value) ∈ entries
  · obtain ⟨value, hmem⟩ := hex
    obtain ⟨table, hrising, htable⟩ := hstored value hmem
    refine ⟨table, hrising, fun other hother => ?_, fun hnone => absurd hmem (hnone value)⟩
    rwa [Node.value_unique (Node.isPlain_mapping_iff.mp h).1 hother hmem]
  · exact ⟨[], .nil, fun value hmem => absurd ⟨value, hmem⟩ hex, fun _ => rfl⟩

theorem Conforms.exists_lists (h : (Node.mapping entries).isPlain = true)
    (hgood : ∀ value, (.string key, value) ∈ entries → AreLists value) :
    ∃ table, Tabulates entries key TrimsLists table := by
  refine exists_tabulates h fun value hmem => ?_
  obtain ⟨table, htable⟩ := (hgood value hmem).exists_hasLists (isPlain_of_mem h hmem)
  exact ⟨table, ((hasLists_iff (isPlain_of_mem h hmem)).mp htable).2⟩

theorem Conforms.exists_holds (h : (Node.mapping entries).isPlain = true) (hc : Conforms entries) :
    ∃ card, Holds entries card := by
  obtain ⟨id, hid, -⟩ := hc.id
  obtain ⟨title, htitle, -⟩ := hc.title
  obtain ⟨severity, hseverity, hname⟩ := hc.severity
  obtain ⟨scope, hscope, -⟩ := hc.scope
  obtain ⟨requirement, hrequirement, -⟩ := hc.requirement
  obtain ⟨dosValue, hdos, hdosTexts⟩ := hc.dos
  obtain ⟨dontsValue, hdonts, hdontsTexts⟩ := hc.donts
  obtain ⟨_, hverify, part, rfl, -, list, hlist, htestsTexts⟩ := hc.verify
  obtain ⟨rank, hrank⟩ : ∃ rank : Severity, rank.name = Text.trim severity := by
    simp only [List.mem_cons, List.not_mem_nil, or_false] at hname
    rcases hname with hname | hname | hname | hname
    · exact ⟨.low, hname.symm⟩
    · exact ⟨.medium, hname.symm⟩
    · exact ⟨.high, hname.symm⟩
    · exact ⟨.critical, hname.symm⟩
  obtain ⟨dos, hdosTexts⟩ := hdosTexts.exists_trimsAll
  obtain ⟨donts, hdontsTexts⟩ := hdontsTexts.exists_trimsAll
  obtain ⟨tests, htestsTexts⟩ := htestsTexts.exists_trimsAll
  obtain ⟨detect, hdetect⟩ := exists_lists h hc.detect
  obtain ⟨refs, hrefs⟩ := exists_lists h hc.refs
  obtain ⟨disabled, hdisabled⟩ : ∃ b : Bool, b = true ↔ (.string "disabled", .bool true) ∈ entries := by
    by_cases hmem : (.string "disabled", .bool true) ∈ entries
    · exact ⟨true, by simpa using hmem⟩
    · exact ⟨false, by simpa using hmem⟩
  obtain ⟨defaults, hdefaults⟩ : ∃ table, Tabulates entries "defaults" KeepsDefaults table := by
    refine exists_tabulates h fun value hmem => ?_
    obtain ⟨table, htable⟩ := (hc.defaults value hmem).exists_hasDefaults (isPlain_of_mem h hmem)
    exact ⟨table, ((hasDefaults_iff (isPlain_of_mem h hmem)).mp htable).2⟩
  exact ⟨⟨Text.trim id, Text.trim title, rank, Text.trim scope, Text.trim requirement, dos, donts,
      detect, tests, refs, disabled, defaults⟩,
    ⟨id, hid, rfl⟩, ⟨title, htitle, rfl⟩, ⟨severity, hseverity, hrank⟩, ⟨scope, hscope, rfl⟩,
    ⟨requirement, hrequirement, rfl⟩, ⟨dosValue, hdos, hdosTexts⟩, ⟨dontsValue, hdonts, hdontsTexts⟩,
    hdetect, ⟨part, list, hverify, hlist, htestsTexts⟩, hrefs, hdisabled, hdefaults⟩

end

/-- A document without tags is accepted exactly if it is a mapping that conforms, the card is what the
mapping holds, and a document that is refused is refused for a reason. -/
theorem validate_accepts_iff {document : Node} (huntagged : document.isUntagged = true)
    (hkeys : document.every Node.keysDiffer = true) :
    ((∃ card, validate document = .ok card) ↔
        ∃ entries, document = .mapping entries ∧ Conforms entries) ∧
      (∀ card, validate document = .ok card ↔
        ∃ entries, document = .mapping entries ∧ Conforms entries ∧ Holds entries card) ∧
      ∀ violations, validate document = .error violations → violations ≠ [] := by
  have h := Node.isPlain_iff.mpr ⟨huntagged, hkeys⟩
  have hok (card : Card) : validate document = .ok card ↔
      ∃ entries, document = .mapping entries ∧ Conforms entries ∧ Holds entries card := by
    rw [validate_eq_ok_iff]
    refine exists_congr fun entries => ?_
    rw [Node.entries?_eq_some_iff h]
    refine and_congr_right ?_
    rintro rfl
    exact hasFields_iff h
  refine ⟨?_, hok, fun _ => validate_error⟩
  constructor
  · rintro ⟨card, hcard⟩
    obtain ⟨entries, hentries, hconforms, -⟩ := (hok card).mp hcard
    exact ⟨entries, hentries, hconforms⟩
  · rintro ⟨entries, rfl, hconforms⟩
    obtain ⟨card, hholds⟩ := hconforms.exists_holds h
    exact ⟨card, (hok card).mpr ⟨entries, rfl, hconforms, hholds⟩⟩

/-- A document with blanks around its texts and all the fields that may be left out. -/
def padded : Node :=
  .mapping [
    (.string "title", .string "\tShort\n"), (.string "id", .string " A-B2-003"),
    (.string "severity", .string "low "), (.string "scope", .string "web"),
    (.string "requirement", .string "0123456789"), (.string "do", .sequence [.string " x"]),
    (.string "dont", .sequence [.string "y ", .string "z"]),
    (.string "detect", .mapping [(.string "t ", .sequence [.string "1"]),
      (.string " s", .sequence [.string "2 "])]),
    (.string "verify", .mapping [(.string "tests", .sequence [.string "u"])]),
    (.string "refs", .mapping []), (.string "disabled", .bool true),
    (.string "defaults", .mapping [(.string "k ", .string " v "), (.string "b", .bool false)])]

def unpadded : Card :=
  ⟨"A-B2-003", "Short", .low, "web", "0123456789", ["x"], ["y", "z"], [("s", ["2"]), ("t", ["1"])],
    ["u"], [], true, [("b", .bool false), ("k ", .string " v ")]⟩

theorem validate_accepts_padded :
    padded.isUntagged = true ∧ padded.every Node.keysDiffer = true ∧
      ∃ entries, padded = .mapping entries ∧ Conforms entries ∧ Holds entries unpadded := by
  have huntagged : padded.isUntagged = true := by decide
  have hkeys : padded.every Node.keysDiffer = true := by decide
  exact ⟨huntagged, hkeys, ((validate_accepts_iff huntagged hkeys).2.1 unpadded).mp rfl⟩

end Rulebook.Card
