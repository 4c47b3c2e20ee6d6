import Rulebook.Proofs.Card.Checks
import Rulebook.Proofs.Yaml.Tree

/-!
# What is read of an accepted card

A key counts as known by its text, whatever tag it carries, but a look-up finds only keys without a
tag. So an accepted document may hold entries that no check ever reads: exactly those under tagged
keys. They leave no trace in the card.
-/

namespace Rulebook.Card

set_option autoImplicit false

open Yaml (Node KeysDiffer)

variable {entries before after : Entries} {key : Node} {name : String}

/-- The look-up of a name comes upon the entry under this key: it returns the value of the entry,
whatever that is. -/
def Reads (name : String) (before : Entries) (key : Node) (after : Entries) : Prop :=
  ∀ value, Node.valueOf? name (before ++ (key, value) :: after) = some value

theorem reads_iff :
    Reads name before key after ↔ Node.valueOf? name before = none ∧ key = .string name := by
  simp only [Reads, Node.valueOf?_append]
  constructor
  · intro hreads
    -- two values tell whether the look-up depends on the entry
    have hnull := hreads .null
    have hfalse := hreads (.bool false)
    cases hbefore : Node.valueOf? name before with
    | some found =>
      rw [hbefore, Option.some_or] at hnull hfalse
      rw [hnull] at hfalse
      cases hfalse
    | none =>
      rw [hbefore, Option.none_or] at hnull hfalse
      refine ⟨rfl, ?_⟩
      by_contra hne
      have hskip (value : Node) :
          Node.valueOf? name ((key, value) :: after) = Node.valueOf? name after := by
        cases key <;> simp_all [Node.valueOf?]
      rw [hskip] at hnull hfalse
      rw [hnull] at hfalse
      cases hfalse
  · rintro ⟨hbefore, rfl⟩ value
    simp [hbefore, Node.valueOf?]

/-- Every key is called like one of the fields, and the look-ups of the fields come upon exactly the
entries whose key carries no tag. -/
def ReadsUntagged (names : List String) (entries : Entries) : Prop :=
  ∀ before key value after, entries = before ++ (key, value) :: after →
    (∃ name ∈ names, key.text? = some name) ∧
      ((∃ name ∈ names, Reads name before key after) ↔ key.isTagged = false)

theorem readsUntagged_of_known {names : List String} (hkeys : KeysDiffer entries)
    (hknown : ∀ entry ∈ entries, ∃ name ∈ names, entry.1.text? = some name) :
    ReadsUntagged names entries := by
  rintro before key value after rfl
  have hkey := hknown (key, value) (by simp)
  refine ⟨hkey, ?_⟩
  simp only [reads_iff]
  constructor
  · rintro ⟨name, -, -, rfl⟩
    rfl
  · intro huntagged
    obtain ⟨name, hname, htext⟩ := hkey
    have hstring : key = .string name := Node.eq_string_of_text? htext huntagged
    refine ⟨name, hname, ?_, hstring⟩
    -- an earlier entry under the same name would have the same key
    apply Node.valueOf?_eq_none_iff.mpr
    intro other hother
    have hsame := (List.pairwise_append.mp hkeys).2.2 _ hother _ List.mem_cons_self
    rw [hstring] at hsame
    simp [Node.same] at hsame

/-- The checks depend on what the look-ups find and on nothing else. -/
theorem checkFields_congr {others : Entries}
    (h : ∀ name, Node.valueOf? name others = Node.valueOf? name entries) :
    checkFields others = checkFields entries := by
  simp only [checkFields, checkId, checkLength, checkSeverity, checkScope, requiredList, checkLists,
    checkVerify, checkFlag, checkDefaults, required, h]

variable {document : Node} {card : Card}

/-- Of the fields of an accepted document, and of the parts of its `verify` field, exactly those under
tagged keys are never read, and without the former it is read as the same card. -/
theorem validate_reads_untagged (hkeys : document.every Node.keysDiffer = true)
    (h : validate document = .ok card) :
    ∃ entries part, document.entries? = some entries ∧
      (Node.valueOf? "verify" entries).bind (·.entries?) = some part ∧
      ReadsUntagged fields entries ∧ ReadsUntagged verifyFields part ∧
      validate (.mapping (Node.untagged entries)) = .ok card := by
  obtain ⟨entries, hentries, hknown, hfields⟩ := validate_eq_ok_iff.mp h
  obtain ⟨tests, htests, part, hpart, hknownPart, -⟩ := hfields.tests
  obtain ⟨hdiffer, hvalues⟩ := Node.keysDiffer_of_entries? hkeys hentries
  have htestsKeys := hvalues _ (Node.mem_of_valueOf? htests)
  obtain ⟨hdifferPart, -⟩ := Node.keysDiffer_of_entries? htestsKeys hpart
  refine ⟨entries, part, hentries, ?_, readsUntagged_of_known hdiffer hknown,
    readsUntagged_of_known hdifferPart hknownPart, ?_⟩
  · rw [htests]
    exact hpart
  · apply validate_eq_ok_iff.mpr
    refine ⟨Node.untagged entries, rfl, ?_, ?_⟩
    · intro entry hentry
      exact hknown entry (List.mem_of_mem_filter hentry)
    · rw [← gives_checkFields_iff,
        checkFields_congr fun name => Node.valueOf?_untagged name entries]
      exact gives_checkFields_iff.mpr hfields

/-- The fields of a card. -/
def sound : Entries :=
  [(.string "id", .string "A-B-001"), (.string "title", .string "A rule"),
    (.string "severity", .string "low"), (.string "scope", .string "c"),
    (.string "requirement", .string "Keep to it."), (.string "do", .sequence [.string "d"]),
    (.string "dont", .sequence [.string "e"]),
    (.string "verify", .mapping [(.string "tests", .sequence [.string "v"])])]

def flagKey : Node := .tagged "!x" (.string "disabled")

/-- A card that is disabled under a tagged key. -/
def suspended : Node := .mapping (sound ++ [(flagKey, .bool true)])

def enforced : Card :=
  ⟨"A-B-001", "A rule", .low, "c", "Keep to it.", ["d"], ["e"], [], ["v"], [], false, []⟩

theorem validate_reads_untagged_suspended :
    suspended.every Node.keysDiffer = true ∧ validate suspended = .ok enforced ∧
      (¬ ∃ name ∈ fields, Reads name sound flagKey []) ∧
      validate (.mapping sound) = .ok enforced := by
  have hkeys : suspended.every Node.keysDiffer = true := by decide
  have hcard : validate suspended = .ok enforced := rfl
  obtain ⟨entries, part, hentries, -, hreads, -, hdropped⟩ := validate_reads_untagged hkeys hcard
  obtain rfl : sound ++ [(flagKey, Node.bool true)] = entries := Option.some.inj hentries
  refine ⟨hkeys, hcard, ?_, hdropped⟩
  intro hread
  have hplain := (hreads sound flagKey (.bool true) [] rfl).2.mp hread
  cases hplain

end Rulebook.Card
