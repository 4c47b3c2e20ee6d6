import Rulebook.Proofs.Card.Canonical
import Rulebook.Proofs.Card.Schema
import Rulebook.Proofs.Yaml.Tree

/-!
# Accepted cards are accepted again

The form in which a card is stored is read as a document without tags, in which every text is already
without the blanks around it. The validator accepts that document and finds the same card in it.
-/

namespace Rulebook

set_option autoImplicit false

open Yaml (Node)

namespace Yaml.Node

mutual

/-- The value that a JSON value is read as. -/
def ofJson : Json → Node
  | .null => .null
  | .bool b => .bool b
  | .number n => .number n
  | .string s => .string s
  | .array items => .sequence (ofItems items)
  | .object members => .mapping (ofMembers members)

def ofItems : List Json → List Node
  | [] => []
  | v :: rest => ofJson v :: ofItems rest

def ofMembers : List (String × Json) → List (Node × Node)
  | [] => []
  | (k, v) :: rest => (.string k, ofJson v) :: ofMembers rest

end

theorem ofItems_eq (items : List Json) : ofItems items = items.map ofJson := by
  induction items with
  | nil => rfl
  | cons v rest ih => rw [ofItems, ih, List.map_cons]

theorem ofMembers_eq (members : List (String × Json)) :
    ofMembers members = members.map fun member => (.string member.1, ofJson member.2) := by
  induction members with
  | nil => rfl
  | cons member rest ih =>
    obtain ⟨k, v⟩ := member
    rw [ofMembers, ih, List.map_cons]

/-- A look-up finds what the object has under the key. -/
theorem valueOf?_ofMembers (key : String) (members : List (String × Json)) :
    valueOf? key (ofMembers members) = (Keyed.find? key members).map ofJson := by
  induction members with
  | nil => rfl
  | cons member rest ih =>
    obtain ⟨k, v⟩ := member
    rw [ofMembers, valueOf?, Keyed.find?, ih]
    split <;> rfl

/-- A scalar is read back as it was stored. -/
theorem scalar?_ofJson {n : Node} {v : Json} (h : n.scalar? = some v) :
    (ofJson v).scalar? = some v := by
  cases n <;> cases h <;> rfl

end Yaml.Node

namespace Card

variable {value : Node} {entries : Entries} {key : String} {card : Card}

/-! ## The values of the fields -/

/-- What is left of a text stays as it is. -/
theorem HasText.normal {s : String} (h : HasText value s) : HasText (.string s) s := by
  obtain ⟨raw, -, rfl, hne⟩ := h
  exact ⟨_, rfl, Text.trim_trim raw, hne⟩

theorem HasTexts.normal {texts : List String} (h : HasTexts value texts) :
    HasTexts (.ofJson (textsJson texts)) texts := by
  obtain ⟨items, -, hne, htexts⟩ := h
  refine ⟨texts.map .string, ?_, fun hnil => hne ?_, ?_⟩
  · rw [textsJson, Node.ofJson, Node.ofItems_eq, List.map_map]
    rfl
  · rw [List.map_eq_nil_iff.mp hnil, List.forall₂_nil_right_iff] at htexts
    exact htexts
  · rw [List.forall₂_map_left_iff, List.forall₂_same]
    intro s hs
    obtain ⟨item, -, hitem⟩ := exists_of_mem_right htexts hs
    exact hitem.normal

theorem HasTests.normal {tests : List String} (h : HasTests value tests) :
    HasTests (.ofJson (.object [("tests", textsJson tests)])) tests := by
  obtain ⟨part, -, -, list, -, htests⟩ := h
  refine ⟨_, rfl, ?_, _, rfl, htests.normal⟩
  intro entry hentry
  rw [List.mem_singleton.mp hentry]
  exact ⟨"tests", List.mem_cons_self, rfl⟩

/-- A table of lists is stored even if it is empty. -/
theorem hasLists_normal {table : Keyed (List String)}
    (h : FieldMayHave entries key (table = []) (HasLists · table)) :
    HasLists (.ofJson (listsJson table)) table := by
  have hrising := rising_of_hasLists h
  refine ⟨_, table, rfl, ?_, hrising.nodup_keys, Keyed.ofList_of_rising hrising⟩
  rw [Node.ofMembers_eq, Keyed.mapValues, List.map_map, List.forall₂_map_left_iff, List.forall₂_same]
  intro pair hpair
  rw [FieldMayHave] at h
  split at h
  · rw [h] at hpair
    cases hpair
  · obtain ⟨lists, pairs, -, hpairs, -, rfl⟩ := h
    obtain ⟨entry, -, hname, htexts⟩ := exists_of_mem_right hpairs (Keyed.mem_of_mem_ofList hpair)
    exact ⟨hname.normal, htexts.normal⟩

theorem hasDefaults_normal {table : Keyed Json}
    (h : FieldMayHave entries key (table = []) (HasDefaults · table)) :
    HasDefaults (.ofJson (.object table)) table := by
  have hrising := (flatTable_of_hasDefaults h).1
  refine ⟨_, table, rfl, ?_, Keyed.ofList_of_rising hrising⟩
  rw [Node.ofMembers_eq, List.forall₂_map_left_iff, List.forall₂_same]
  intro pair hpair
  rw [FieldMayHave] at h
  split at h
  · rw [h] at hpair
    cases hpair
  · obtain ⟨defaults, pairs, -, hpairs, rfl⟩ := h
    obtain ⟨entry, -, -, hne, hscalar⟩ := exists_of_mem_right hpairs (Keyed.mem_of_mem_ofList hpair)
    exact ⟨rfl, hne, Node.scalar?_ofJson hscalar⟩

/-! ## The form of a card -/

section

variable {front back more : List (String × Json)} {good : Node → Prop}

/-- A field that is always set is found in the first part of the form. -/
theorem fieldHas_front (v : Json) (hfound : Keyed.find? key front = some v) (hgood : good (.ofJson v)) :
    FieldHas (Node.ofMembers (front ++ back ++ more)) key good := by
  refine ⟨.ofJson v, ?_, hgood⟩
  rw [Node.ofMembers_eq, List.map_append, List.map_append, Node.valueOf?_append, Node.valueOf?_append,
    ← Node.ofMembers_eq, Node.valueOf?_ofMembers, hfound]
  rfl

theorem FieldHas.normal (h : FieldHas entries key good) (v : Json)
    (hfound : Keyed.find? key front = some v) (hnormal : ∀ value, good value → good (.ofJson v)) :
    FieldHas (Node.ofMembers (front ++ back ++ more)) key good := by
  obtain ⟨value, -, hgood⟩ := h
  exact fieldHas_front v hfound (hnormal value hgood)

end

/-- The fields of a card are found in its form. -/
theorem HasFields.normal {members : List (String × Json)} (h : HasFields entries card)
    (hmembers : card.toJson = .object members) : HasFields (Node.ofMembers members) card := by
  have htext (value : Node) (s : String) : HasText value s → HasText (.ofJson (.string s)) s :=
    HasText.normal
  have htexts (value : Node) (texts : List String) :
    HasTexts value texts → HasTexts (.ofJson (textsJson texts)) texts := HasTexts.normal
  rw [toJson] at hmembers
  obtain rfl := Json.object.inj hmembers
  constructor
  case id => exact ⟨h.id.1.normal (.string card.id) (by simp [Keyed.find?]) (htext · _), h.id.2⟩
  case title =>
    exact ⟨h.title.1.normal (.string card.title) (by simp [Keyed.find?]) (htext · _), h.title.2⟩
  case severity =>
    exact h.severity.normal (.string card.severity.name) (by simp [Keyed.find?]) (htext · _)
  case scope =>
    exact ⟨h.scope.1.normal (.string card.scope) (by simp [Keyed.find?]) (htext · _), h.scope.2⟩
  case requirement =>
    exact ⟨h.requirement.1.normal (.string card.requirement) (by simp [Keyed.find?]) (htext · _),
      h.requirement.2⟩
  case dos => exact h.dos.normal (textsJson card.dos) (by simp [Keyed.find?]) (htexts · _)
  case donts => exact h.donts.normal (textsJson card.donts) (by simp [Keyed.find?]) (htexts · _)
  case tests =>
    exact h.tests.normal (.object [("tests", textsJson card.tests)]) (by simp [Keyed.find?])
      fun _ => HasTests.normal
  case detect =>
    exact (fieldHas_front (listsJson card.detect) (by simp [Keyed.find?])
      (hasLists_normal h.detect)).mayHave _
  case refs =>
    exact (fieldHas_front (listsJson card.refs) (by simp [Keyed.find?])
      (hasLists_normal h.refs)).mayHave _
  case disabled =>
    rw [FieldMayHave, Node.valueOf?_ofMembers]
    cases card.disabled <;> cases card.defaults.isEmpty <;> simp [Keyed.find?, Node.ofJson]
  case defaults =>
    have hdefaults := hasDefaults_normal h.defaults
    rw [FieldMayHave, Node.valueOf?_ofMembers]
    cases hempty : card.defaults with
    | nil => cases card.disabled <;> simp [Keyed.find?]
    | cons entry rest =>
      rw [hempty] at hdefaults
      cases card.disabled <;> simpa [Keyed.find?] using hdefaults

/-- A card that was accepted is accepted again in its own form, as the same card with the same hash. -/
theorem validate_toJson {document : Node} (h : validate document = .ok card) :
    validate (.ofJson card.toJson) = .ok card ∧
      (validate (.ofJson card.toJson)).map contentHash = .ok card.contentHash := by
  obtain ⟨entries, -, -, hfields⟩ := validate_eq_ok_iff.mp h
  obtain ⟨members, hmembers, hnames, -⟩ := members_toJson hfields.isFlat.toIsOrdered
  have hagain : validate (.ofJson card.toJson) = .ok card := by
    rw [hmembers]
    refine validate_eq_ok_iff.mpr ⟨_, rfl, fun entry hentry => ?_, hfields.normal hmembers⟩
    rw [Node.ofMembers_eq] at hentry
    obtain ⟨member, hmember, rfl⟩ := List.mem_map.mp hentry
    exact ⟨member.1, hnames.subset (List.mem_map_of_mem hmember), rfl⟩
  rw [hagain]
  exact ⟨rfl, rfl⟩

def least : WideInt := (WideInt.ofInt? (-0x8000000000000000)).getD default

def greatest : WideInt := (WideInt.ofInt? 0xffffffffffffffff).getD default

def half : Double := ⟨false, 1022 * Nat.pow 2 52, by decide⟩

/-- A document with tags, with blanks around its texts, and with defaults of every kind. -/
def dressed : Node :=
  .tagged "!card" (.mapping [
    (.string "defaults", .mapping [
      (.tagged "!x" (.string "low"), .number (.whole least)),
      (.string "high", .number (.whole greatest)), (.string "half", .number (.real half)),
      (.string " k", .string " v "), (.string "b", .bool false)]),
    (.string "id", .tagged "!s" (.string " A-B-001\n")), (.string "title", .string "\tA rule "),
    (.string "severity", .string " high"), (.string "scope", .string "c "),
    (.string "requirement", .string " Keep to it. "),
    (.string "do", .tagged "!l" (.sequence [.string " d", .tagged "!s" (.string "e ")])),
    (.string "dont", .sequence [.string "f\n"]),
    (.string "detect", .mapping [(.tagged "!t" (.string "tool "), .sequence [.string " 1"])]),
    (.string "verify", .tagged "!v" (.mapping [(.string "tests", .sequence [.string " v "])])),
    (.string "disabled", .bool true)])

def undressed : Card :=
  ⟨"A-B-001", "A rule", .high, "c", "Keep to it.", ["d", "e"], ["f"], [("tool", ["1"])], ["v"], [], true,
    [(" k", .string " v "), ("b", .bool false), ("half", .number (.real half)),
      ("high", .number (.whole greatest)), ("low", .number (.whole least))]⟩

theorem validate_toJson_dressed :
    validate dressed = .ok undressed ∧
      validate (.ofJson undressed.toJson) = .ok undressed ∧
      (validate (.ofJson undressed.toJson)).map contentHash = .ok undressed.contentHash := by
  have hcard : validate dressed = .ok undressed := rfl
  exact ⟨hcard, validate_toJson hcard⟩

end Card

end Rulebook
