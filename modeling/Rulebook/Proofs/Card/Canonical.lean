import Rulebook.Proofs.Card.Text
import Rulebook.Proofs.Json.Canonical

/-!
# Canonical text tells cards apart

The JSON form of a card is no ordered object, for its fields come in their own order, but every value
in it is in order. So its canonical text fixes its fields, and the card can be decoded from them.
-/

namespace Rulebook.Card

set_option autoImplicit false

theorem isOrdered_textsJson (texts : List String) : (textsJson texts).IsOrdered := by
  rw [textsJson, Json.IsOrdered, Json.areOrdered_iff]
  intro v hv
  obtain ⟨s, _, rfl⟩ := List.mem_map.mp hv
  trivial

theorem isOrdered_listsJson {table : Keyed (List String)} (h : table.Rising) :
    (listsJson table).IsOrdered := by
  refine ⟨Keyed.rising_mapValues _ h, Json.membersOrdered_iff.mpr fun member hmember => ?_⟩
  obtain ⟨entry, _, rfl⟩ := List.mem_map.mp hmember
  exact isOrdered_textsJson entry.2

variable {card a b : Card}

/-- The members of the JSON form come in the order of the fields, and their values are in order. -/
theorem members_toJson (h : card.IsOrdered) :
    ∃ members, card.toJson = .object members ∧ (Keyed.keys members).Sublist fields ∧
      Json.MembersOrdered members := by
  refine ⟨_, rfl, ?_, ?_⟩
  · cases card.disabled <;> cases card.defaults.isEmpty <;> simp [Keyed.keys] <;> decide
  · have hdetect := isOrdered_listsJson h.detect
    have hrefs := isOrdered_listsJson h.refs
    have hdefaults : (Json.object card.defaults).IsOrdered :=
      ⟨h.defaults, Json.membersOrdered_iff.mpr h.values⟩
    have htests : (Json.object [("tests", textsJson card.tests)]).IsOrdered :=
      ⟨List.pairwise_singleton _ _, isOrdered_textsJson card.tests, trivial⟩
    rw [Json.membersOrdered_append, Json.membersOrdered_append]
    refine ⟨⟨?_, ?_⟩, ?_⟩
    · exact ⟨trivial, trivial, trivial, trivial, trivial, isOrdered_textsJson _,
        isOrdered_textsJson _, hdetect, htests, hrefs, trivial⟩
    · cases card.disabled <;> simp [Json.MembersOrdered, Json.IsOrdered]
    · cases card.defaults.isEmpty <;> simp [Json.MembersOrdered, hdefaults]

/-- Cards without doubles are told apart by their canonical texts. -/
theorem eq_of_canonical_eq (ha : a.IsOrdered) (hb : b.IsOrdered)
    (hai : Json.membersIntegral a.defaults = true) (hbi : Json.membersIntegral b.defaults = true)
    (h : a.toJson.canonical = b.toJson.canonical) : a = b := by
  obtain ⟨members, hmembers, hnames, hvalues⟩ := members_toJson ha
  obtain ⟨others, hothers, hnames', hvalues'⟩ := members_toJson hb
  have hdistinct : fields.Nodup := by decide
  have hintegral := isIntegral_toJson hai
  have hintegral' := isIntegral_toJson hbi
  have htext : Json.canonicalChars a.toJson = Json.canonicalChars b.toJson :=
    String.ofList_injective h
  rw [hmembers] at hintegral htext
  rw [hothers] at hintegral' htext
  have hsame : members = others := by
    refine Keyed.eq_of_find? hdistinct hnames hnames' fun key => ?_
    have hkey := Json.find?_of_canonical_eq hintegral hintegral' (hdistinct.sublist hnames)
      (hdistinct.sublist hnames') htext key
    cases hfind : Keyed.find? key members with
    | none =>
      rw [hfind] at hkey
      exact (Option.map_eq_none_iff.mp hkey.symm).symm
    | some v =>
      rw [hfind] at hkey
      obtain ⟨w, hfind', heq⟩ := Option.map_eq_some_iff.mp hkey.symm
      have hmem := Keyed.mem_of_find? hfind
      have hmem' := Keyed.mem_of_find? hfind'
      have hsame : v = w := Json.eq_of_canonical_eq (Json.membersIntegral_iff.mp hintegral _ hmem)
        (Json.membersIntegral_iff.mp hintegral' _ hmem') (Json.membersOrdered_iff.mp hvalues _ hmem)
        (Json.membersOrdered_iff.mp hvalues' _ hmem') heq.symm
      rw [hfind', hsame]
  have hcard := decode_toJson .jsonText ha
  rw [hmembers, hsame, ← hothers, decode_toJson .jsonText hb] at hcard
  exact (Except.ok.inj hcard).symm

/-! ## What is hashed -/

/-- The bytes whose digest is the content hash. -/
def hashed (card : Card) : ByteArray := card.toJson.canonical.toUTF8

theorem contentHash_eq (card : Card) : card.contentHash = Digest.ofBytes card.hashed := rfl

/-- A card whose tables are in order and whose defaults hold no doubles. -/
structure IsPlain (card : Card) : Prop extends card.IsOrdered where
  integral : Json.membersIntegral card.defaults = true

/-- Whatever is changed in a card changes the bytes that are hashed. -/
theorem hashed_inj (ha : a.IsPlain) (hb : b.IsPlain) : a.hashed = b.hashed ↔ a = b := by
  constructor
  · intro h
    have htext : a.toJson.canonical = b.toJson.canonical := String.toByteArray_inj.mp h
    exact eq_of_canonical_eq ha.toIsOrdered hb.toIsOrdered ha.integral hb.integral htext
  · rintro rfl
    rfl

/-- A card with some texts to do and some defaults. -/
def saying (dos : List String) (defaults : Keyed Json) : Card :=
  ⟨"A-B-001", "Title", .low, "core", "Requirement", dos, ["guess"], [], ["test"], [], false, defaults⟩

/-- Two texts, and one that spells them out; a number, and the text of its digits. -/
theorem hashed_inj_spelled :
    let one : Json := .number (.whole ⟨1, by decide, by decide⟩)
    (saying ["a", "b"] []).hashed ≠ (saying ["a\",\"b"] []).hashed ∧
    (saying [] [("k", one)]).hashed ≠ (saying [] [("k", .string "1")]).hashed := by
  intro one
  have htexts (dos : List String) : (saying dos []).IsPlain := ⟨⟨.nil, .nil, .nil, nofun⟩, rfl⟩
  have hdefault {v : Json} (hv : v.IsOrdered) (hi : v.isIntegral = true) :
      (saying [] [("k", v)]).IsPlain := by
    refine ⟨⟨.nil, .nil, List.pairwise_singleton _ _, List.forall_mem_singleton.mpr hv⟩, ?_⟩
    rw [saying, Json.membersIntegral, hi]
    rfl
  have hone : (saying [] [("k", one)]).IsPlain := hdefault trivial rfl
  have hdigit : (saying [] [("k", .string "1")]).IsPlain := hdefault trivial rfl
  constructor
  · intro h
    exact absurd ((hashed_inj (htexts _) (htexts _)).mp h) (by decide)
  · intro h
    exact absurd ((hashed_inj hone hdigit).mp h) (by decide)

-- a double may have the text of a whole number
example : (Json.number (.real ⟨false, 1023 * Nat.pow 2 52, by decide⟩)).canonical = "1" := by
  decide +kernel

end Rulebook.Card
