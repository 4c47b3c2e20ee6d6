import Rulebook.Proofs.Card.Checks

/-!
# Violations field by field

The path of a violation begins with the field that it is about, so a report can be sorted by field.
What it says of a field is what it says of a document that has no other fields, with the same value
there: the checks do not see each other's values nor each other's violations.
-/

namespace Rulebook

set_option autoImplicit false

open Yaml (Node)

namespace Violation

/-- The field in front of the first dot or bracket of the path. -/
def place (v : Violation) : String :=
  String.ofList (v.field.toList.takeWhile fun c => c != '.' && c != '[')

/-- The violation is about a field of the card. An unknown key may be spelled like a path into a
field, so unknown keys are told by their kind. -/
def isIn (name : String) (v : Violation) : Bool :=
  v.place == name && v.kind != .unknownField Card.fields

def StartsPath (rest : String) : Prop := ∀ c ∈ rest.toList.head?, c = '.' ∨ c = '['

/-- The path is this one or leads on from it, and no key of the document is meant. -/
structure Concerns (path : String) (v : Violation) : Prop where
  under : ∃ rest, v.field = path ++ rest ∧ StartsPath rest
  known : v.kind ≠ .unknownField Card.fields

variable {path rest : String} {v : Violation} {kind : ViolationKind}

theorem startsPath_dot (s : String) : StartsPath ("." ++ s) := by
  rw [StartsPath, String.toList_append]
  rintro _ ⟨⟩
  exact .inl rfl

theorem startsPath_bracket (s : String) : StartsPath ("[" ++ s) := by
  rw [StartsPath, String.toList_append]
  rintro _ ⟨⟩
  exact .inr rfl

theorem concerns_self (h : kind ≠ .unknownField Card.fields) :
    (⟨path, kind⟩ : Violation).Concerns path :=
  ⟨⟨"", String.append_empty.symm, fun _ h => nomatch h⟩, h⟩

theorem concerns_dot {field : String} (s : String) (h : kind ≠ .unknownField Card.fields)
    (hfield : field = path ++ "." ++ s) : (⟨field, kind⟩ : Violation).Concerns path :=
  ⟨⟨"." ++ s, hfield.trans String.append_assoc, startsPath_dot s⟩, h⟩

theorem Concerns.of_append (h : v.Concerns (path ++ rest)) (hrest : StartsPath rest) :
    v.Concerns path := by
  obtain ⟨⟨more, hfield, hmore⟩, hknown⟩ := h
  refine ⟨⟨rest ++ more, by rw [hfield, String.append_assoc], ?_⟩, hknown⟩
  rw [StartsPath, String.toList_append]
  cases hchars : rest.toList with
  | nil => exact hmore
  | cons c others =>
    rw [StartsPath, hchars] at hrest
    exact hrest

theorem Concerns.place_eq (h : v.Concerns path)
    (hplain : path.toList.all (fun c => c != '.' && c != '[') = true) : v.place = path := by
  obtain ⟨⟨rest, hfield, hrest⟩, -⟩ := h
  have hstop : rest.toList.takeWhile (fun c => c != '.' && c != '[') = [] := by
    cases hchars : rest.toList with
    | nil => rfl
    | cons c others =>
      rw [StartsPath, hchars] at hrest
      rcases hrest c rfl with rfl | rfl <;> rfl
  rw [place, hfield, String.toList_append, List.takeWhile_append_of_pos (List.all_eq_true.mp hplain), hstop,
    List.append_nil, String.ofList_toList]

end Violation

namespace Card

variable {α : Type} {entries : Entries} {key field name : String} {value : Node}

/-! ## What each check finds -/

/-- Violations of a text or of a list of texts. -/
structure OfTexts (path : String) (v : Violation) : Prop extends v.Concerns path where
  kind : v.kind = .emptyValue ∨ v.kind = .emptyList ∨ ∃ expected, v.kind = .wrongType expected

theorem checkText_findsOnly (field : String) (value : Node) :
    (checkText field value).FindsOnly (OfTexts field) := by
  rw [checkText]
  split
  · exact Checked.findsOnly_fail ⟨Violation.concerns_self (by simp), .inr (.inr ⟨_, rfl⟩)⟩
  · dsimp only
    split
    · exact Checked.findsOnly_fail ⟨Violation.concerns_self (by simp), .inl rfl⟩
    · exact Checked.findsOnly_ok

theorem checkItems_findsOnly (field : String) (i : Nat) (items : List Node) :
    (checkItems field i items).FindsOnly (OfTexts field) := by
  induction items generalizing i with
  | nil => exact Checked.findsOnly_ok
  | cons item rest ih =>
    refine (Checked.findsOnly_ok.also ((checkText_findsOnly _ item).imp fun v hv => ?_)).also (ih _)
    rw [String.append_assoc, String.append_assoc] at hv
    exact ⟨hv.of_append (Violation.startsPath_bracket _), hv.kind⟩

theorem checkList_findsOnly (field : String) (value : Node) :
    (checkList field value).FindsOnly (OfTexts field) := by
  rw [checkList]
  split
  · exact Checked.findsOnly_fail ⟨Violation.concerns_self (by simp), .inr (.inr ⟨_, rfl⟩)⟩
  · exact Checked.findsOnly_fail ⟨Violation.concerns_self (by simp), .inr (.inl rfl)⟩
  · exact checkItems_findsOnly _ _ _

theorem required_findsOnly (entries : Entries) (key field : String) :
    (required entries key field).FindsOnly (·.Concerns field) := by
  rw [required]
  split
  · exact Checked.findsOnly_fail (Violation.concerns_self (by simp))
  · exact Checked.findsOnly_fail (Violation.concerns_self (by simp))
  · exact Checked.findsOnly_ok

theorem requiredText_findsOnly {check : String → Checked α}
    (h : ∀ s, (check s).FindsOnly (·.Concerns key)) :
    (required entries key key >>= fun value => checkText key value >>= check).FindsOnly
      (·.Concerns key) := by
  apply (required_findsOnly entries key key).bind
  intro value
  exact ((checkText_findsOnly key value).imp fun _ hv => hv.toConcerns).bind h

theorem requiredList_findsOnly (entries : Entries) (key field : String) :
    (requiredList entries key field).FindsOnly (·.Concerns field) := by
  apply (required_findsOnly entries key field).bind
  intro value
  exact (checkList_findsOnly field value).imp fun _ hv => hv.toConcerns

theorem checkListEntry_findsOnly (field : String) (filling : Filling (List String))
    (entry : Node × Node) (h : filling.FindsOnly (·.Concerns field)) :
    (checkListEntry field filling entry).FindsOnly (·.Concerns field) := by
  rw [checkListEntry]
  split
  · refine h.refuse (Violation.concerns_dot "<key>" (by simp) ?_)
    rw [String.append_assoc]
    rfl
  · rename_i name _
    have hunder {v : Violation} (hv : v.Concerns (field ++ "." ++ name)) : v.Concerns field := by
      rw [String.append_assoc] at hv
      exact hv.of_append (Violation.startsPath_dot name)
    split
    · exact h.refuse (hunder (Violation.concerns_self (by simp)))
    · exact h.store ((checkList_findsOnly _ entry.2).imp fun _ hv => hunder hv.toConcerns) name

theorem checkLists_findsOnly (entries : Entries) (field : String) :
    (checkLists entries field).FindsOnly (·.Concerns field) := by
  rw [checkLists]
  split
  · exact Checked.findsOnly_ok
  · split
    · exact Checked.findsOnly_fail (Violation.concerns_self (by simp))
    · exact Filling.findsOnly_checked (checkListEntry_findsOnly field) _

theorem checkVerify_findsOnly (entries : Entries) :
    (checkVerify entries).FindsOnly (·.Concerns "verify") := by
  apply (required_findsOnly entries "verify" "verify").bind
  intro value
  split
  · exact Checked.findsOnly_fail (Violation.concerns_self (by simp))
  · rename_i part _
    refine List.forall_mem_append.mpr ⟨fun v hv => ?_, fun v hv => ?_⟩
    · obtain ⟨⟨key, _⟩, -, hkey⟩ := List.mem_filterMap.mp hv
      dsimp only at hkey
      split at hkey
      · split at hkey
        · cases hkey
        · cases hkey
          -- the fields of the section are not those of a card
          exact Violation.concerns_dot _ (by decide) rfl
      · cases hkey
        exact Violation.concerns_dot "<key>" (by simp) rfl
    · have htests : v.Concerns ("verify" ++ ("." ++ "tests")) :=
        requiredList_findsOnly part "tests" "verify.tests" v hv
      exact htests.of_append (Violation.startsPath_dot "tests")

theorem checkFlag_findsOnly (entries : Entries) (field : String) :
    (checkFlag entries field).FindsOnly (·.Concerns field) := by
  rw [checkFlag]
  split
  · exact Checked.findsOnly_ok
  · exact Checked.findsOnly_ok
  · exact Checked.findsOnly_fail (Violation.concerns_self (by simp))

theorem checkDefault_findsOnly (filling : Filling Json) (entry : Node × Node)
    (h : filling.FindsOnly (·.Concerns "defaults")) :
    (checkDefault filling entry).FindsOnly (·.Concerns "defaults") := by
  rw [checkDefault]
  split
  · exact h.refuse (Violation.concerns_dot "<key>" (by simp) rfl)
  · split
    · exact h.store Checked.findsOnly_ok _
    · exact h.refuse (Violation.concerns_dot _ (by simp) rfl)

theorem checkDefaults_findsOnly (entries : Entries) :
    (checkDefaults entries).FindsOnly (·.Concerns "defaults") := by
  rw [checkDefaults]
  split
  · exact Checked.findsOnly_ok
  · split
    · exact Checked.findsOnly_fail (Violation.concerns_self (by simp))
    · exact Filling.findsOnly_checked checkDefault_findsOnly _

/-! ## Documents -/

/-- What is wrong with a document, nothing if it is a card. -/
def violations (document : Node) : List Violation :=
  match validate document with
  | .ok _ => []
  | .error violations => violations

/-- What is wrong with a key of a document. -/
def keyViolation? (key : Node) : Option Violation :=
  match key.text? with
  | some name => if name ∈ fields then none else some ⟨name, .unknownField fields⟩
  | none => some ⟨"<key>", .wrongType "string keys"⟩

/-- What a document without other fields is told about this one, given its value if it is there. -/
def fieldViolations (name : String) (value : Option Node) : List Violation :=
  (violations (.mapping (value.toList.map fun value => (.string name, value)))).filter (·.isIn name)

/-- What the check of a field finds. -/
def foundIn (entries : Entries) (name : String) : List Violation :=
  match name with
  | "id" => (checkId entries).violations
  | "title" => (checkLength entries "title" titleLengths).violations
  | "severity" => (checkSeverity entries).violations
  | "scope" => (checkScope entries).violations
  | "requirement" => (checkLength entries "requirement" requirementLengths).violations
  | "do" => (requiredList entries "do" "do").violations
  | "dont" => (requiredList entries "dont" "dont").violations
  | "detect" => (checkLists entries "detect").violations
  | "verify" => (checkVerify entries).violations
  | "refs" => (checkLists entries "refs").violations
  | "disabled" => (checkFlag entries "disabled").violations
  | "defaults" => (checkDefaults entries).violations
  | _ => []

theorem foundIn_concerns (entries : Entries) (name : String) :
    ∀ v ∈ foundIn entries name, v.Concerns name := by
  unfold foundIn
  split
  · exact requiredText_findsOnly fun _ => Checked.findsOnly_if (Violation.concerns_self (by simp))
  · exact requiredText_findsOnly fun _ => Checked.findsOnly_unless (Violation.concerns_self (by simp))
  · refine requiredText_findsOnly fun text => ?_
    split
    · exact Checked.findsOnly_ok
    · exact Checked.findsOnly_fail (Violation.concerns_self (by simp))
  · exact requiredText_findsOnly fun _ => Checked.findsOnly_unless (Violation.concerns_self (by simp))
  · exact requiredText_findsOnly fun _ => Checked.findsOnly_unless (Violation.concerns_self (by simp))
  · exact requiredList_findsOnly _ _ _
  · exact requiredList_findsOnly _ _ _
  · exact checkLists_findsOnly _ _
  · exact checkVerify_findsOnly _
  · exact checkLists_findsOnly _ _
  · exact checkFlag_findsOnly _ _
  · exact checkDefaults_findsOnly _
  · exact fun _ hv => absurd hv List.not_mem_nil

theorem foundIn_of_not_mem (h : name ∉ fields) : foundIn entries name = [] := by
  unfold foundIn
  split
  case h_13 => rfl
  all_goals exact absurd (by decide) h

/-- The check of a field depends on the value of this field only. -/
theorem foundIn_congr {others : Entries}
    (h : Node.valueOf? name others = Node.valueOf? name entries) :
    foundIn others name = foundIn entries name := by
  unfold foundIn
  split <;> simp only [checkId, checkLength, checkSeverity, checkScope, requiredList, checkLists,
    checkVerify, checkFlag, checkDefaults, required, h]

theorem violations_checkFields (entries : Entries) :
    (checkFields entries).violations = fields.flatMap (foundIn entries) := by
  simp only [checkFields, Checked.also, Checked.ok, fields, List.flatMap_cons, List.flatMap_nil,
    foundIn, List.nil_append, List.append_nil, List.append_assoc]

theorem unknownKeys_eq (entries : Entries) :
    unknownKeys "" fields entries = (entries.map Prod.fst).filterMap keyViolation? := by
  rw [unknownKeys, List.filterMap_map]
  apply List.filterMap_congr
  rintro ⟨key, _⟩ -
  rw [Function.comp_apply, keyViolation?]
  dsimp only
  cases key.text? with
  | none => rfl
  | some name => simp

variable {document other : Node} {others : Entries}

theorem violations_eq_nil_iff : violations document = [] ↔ ∃ card, validate document = .ok card := by
  rw [violations]
  cases h : validate document with
  | ok card => simp
  | error violations => simp [validate_error h]

/-- The checks make a card or say why not, so what they find is all there is to report. -/
theorem violations_eq (h : document.entries? = some entries) :
    violations document =
      (entries.map Prod.fst).filterMap keyViolation? ++ fields.flatMap (foundIn entries) := by
  rw [← unknownKeys_eq, ← violations_checkFields, violations, validate, h]
  dsimp only
  split
  · rename_i hnil
    split at hnil
    · rename_i hnone _
      exact hnone.symm
    · cases hnil
  · rename_i hviolations
    split at hviolations
    · cases hviolations
    · cases hviolations
      rfl

theorem isIn_of_concerns {v : Violation} (hname : name ∈ fields) (h : v.Concerns name) :
    v.isIn name = true := by
  have hplain : ∀ name ∈ fields, name.toList.all (fun c => c != '.' && c != '[') = true := by decide
  simp [Violation.isIn, h.place_eq (hplain name hname), h.known]

theorem not_isIn_of_keyViolation {key : Node} {v : Violation} (hname : name ∈ fields)
    (h : keyViolation? key = some v) : v.isIn name = false := by
  rw [keyViolation?] at h
  split at h
  · split at h
    · cases h
    · cases h
      simp [Violation.isIn]
  · cases h
    have hkey : ∀ name ∈ fields,
        Violation.isIn name ⟨"<key>", .wrongType "string keys"⟩ = false := by decide
    exact hkey name hname

theorem filter_violations (h : document.entries? = some entries) (hname : name ∈ fields) :
    (violations document).filter (·.isIn name) = foundIn entries name := by
  have hkeys : ((entries.map Prod.fst).filterMap keyViolation?).filter (·.isIn name) = [] := by
    rw [List.filter_eq_nil_iff]
    intro v hv
    obtain ⟨key, -, hkey⟩ := List.mem_filterMap.mp hv
    rw [not_isIn_of_keyViolation hname hkey]
    exact Bool.false_ne_true
  rw [violations_eq h, List.filter_append, hkeys, List.nil_append]
  refine filter_flatMap_of_nodup (by decide) hname ?_ ?_
  · intro v hv
    exact isIn_of_concerns hname (foundIn_concerns entries name v hv)
  · intro other hother v hv
    by_cases hfield : other ∈ fields
    · have hplace := isIn_of_concerns hfield (foundIn_concerns entries other v hv)
      simp only [Violation.isIn, Bool.and_eq_true, beq_iff_eq] at hplace
      simp [Violation.isIn, hplace.1, hother]
    · rw [foundIn_of_not_mem hfield] at hv
      cases hv

theorem fieldViolations_eq (hname : name ∈ fields) (entries : Entries) :
    fieldViolations name (Node.valueOf? name entries) = foundIn entries name := by
  rw [fieldViolations, filter_violations rfl hname]
  apply foundIn_congr
  cases Node.valueOf? name entries with
  | none => rfl
  | some value => simp [Node.valueOf?]

/-- A report is what is wrong with the keys, told from the keys alone, and then what is wrong with each
field, told from the value of the field alone. So documents that agree in one field are told the same
of it, whatever else is wrong with them. -/
theorem violations_by_field (h : document.entries? = some entries) :
    violations document = (entries.map Prod.fst).filterMap keyViolation? ++
        fields.flatMap (fun name => fieldViolations name (Node.valueOf? name entries)) ∧
      (violations document = [] ↔ ∃ card, validate document = .ok card) ∧
      ∀ name ∈ fields,
        (violations document).filter (·.isIn name) =
          fieldViolations name (Node.valueOf? name entries) ∧
        ∀ other others, other.entries? = some others →
          Node.valueOf? name others = Node.valueOf? name entries →
          (violations other).filter (·.isIn name) = (violations document).filter (·.isIn name) := by
  refine ⟨?_, violations_eq_nil_iff, fun name hname => ⟨?_, ?_⟩⟩
  · rw [violations_eq h]
    congr 1
    exact List.flatMap_congr fun name hname => (fieldViolations_eq hname entries).symm
  · rw [filter_violations h hname, fieldViolations_eq hname]
  · intro other others hothers hvalue
    rw [filter_violations h hname, filter_violations hothers hname, foundIn_congr hvalue]

def gap : Node := .sequence [.null, .string "d"]

/-- A list with a gap and a key that is spelled like the path to the gap, among other faults. -/
def gapped : Entries :=
  [(.string "do[0]", .null), (.string "id", .string "a"), (.string "do", gap),
    (.string "detect", .mapping [(.null, .null)]), (.null, .null), (.string "title", .null)]

theorem violations_by_field_gapped :
    (violations (.mapping gapped)).map (·.field) =
        ["do[0]", "<key>", "id", "title", "severity", "scope", "requirement", "do[0]", "dont",
          "detect.<key>", "verify"] ∧
      (violations (.mapping gapped)).filter (·.isIn "do") = [⟨"do[0]", .wrongType "a string"⟩] ∧
      (violations (.mapping [(.string "do", gap)])).filter (·.isIn "do") =
        [⟨"do[0]", .wrongType "a string"⟩] := by
  have hentries : (Node.mapping gapped).entries? = some gapped := rfl
  obtain ⟨-, -, hfields⟩ := violations_by_field hentries
  obtain ⟨-, hsame⟩ := hfields "do" (by decide)
  have hgap : (violations (.mapping gapped)).filter (·.isIn "do") =
      [⟨"do[0]", .wrongType "a string"⟩] := by decide
  refine ⟨by decide, hgap, ?_⟩
  exact (hsame (.mapping [(.string "do", gap)]) [(.string "do", gap)] rfl rfl).trans hgap

end Card

end Rulebook
