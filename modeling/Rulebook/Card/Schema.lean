import Rulebook.Card.Violation
import Rulebook.Text.Blank
import Rulebook.Yaml.Node

/-!
# The card schema

`Card.validate` checks a document field by field. Each check looks at its own field only and
returns what it made of the field, if anything, together with what is wrong with it; the document is
a card if nothing is wrong with any of them. All problems are reported, unknown keys first and then
by field.
-/

namespace Rulebook

set_option autoImplicit false

open Yaml (Node)

/-- What a check has made of its subject, if anything, and what is wrong with the subject. -/
structure Checked (α : Type) where
  value : Option α
  violations : List Violation

namespace Checked

variable {α β : Type}

def ok (value : α) : Checked α := ⟨some value, []⟩

def fail (field : String) (kind : ViolationKind) : Checked α := ⟨none, [⟨field, kind⟩]⟩

/-- A further check of what a check has made. -/
def next (x : Checked α) (check : α → Checked β) : Checked β :=
  match x.value with
  | some a => ⟨(check a).value, x.violations ++ (check a).violations⟩
  | none => ⟨none, x.violations⟩

instance : Monad Checked where
  pure := ok
  bind := next

/-- A check that does not depend on the checks before it. -/
def also (f : Checked (α → β)) (x : Checked α) : Checked β :=
  ⟨f.value.bind fun f => x.value.map f, f.violations ++ x.violations⟩

end Checked

/-- A table that is filled entry by entry: what is stored, whether that is every entry so far, and
what was wrong with the entries. -/
structure Filling (α : Type) where
  table : Keyed α
  complete : Bool
  violations : List Violation

namespace Filling

variable {α : Type}

def start : Filling α := ⟨[], true, []⟩

/-- Stores an entry under a name, if the check has made anything of it. -/
def store (filling : Filling α) (name : String) (x : Checked α) : Filling α :=
  match x.value with
  | some value =>
    ⟨filling.table.insert name value, filling.complete, filling.violations ++ x.violations⟩
  | none => ⟨filling.table, false, filling.violations ++ x.violations⟩

/-- Leaves an entry out. -/
def refuse (filling : Filling α) (field : String) (kind : ViolationKind) : Filling α :=
  ⟨filling.table, false, filling.violations ++ [⟨field, kind⟩]⟩

def checked (filling : Filling α) : Checked (Keyed α) :=
  ⟨if filling.complete then some filling.table else none, filling.violations⟩

end Filling

namespace Card

abbrev Entries := List (Node × Node)

def fields : List String :=
  ["id", "title", "severity", "scope", "requirement", "do", "dont", "detect", "verify", "refs",
    "disabled", "defaults"]

def verifyFields : List String := ["tests"]

def titleLengths : Nat × Option Nat := (5, some 100)

def requirementLengths : Nat × Option Nat := (10, none)

/-- Keys that are no field, in document order. A key may carry a tag. -/
def unknownKeys (place : String) (allowed : List String) (entries : Entries) : List Violation :=
  entries.filterMap fun (key, _) =>
    match key.text? with
    | some name => if name ∈ allowed then none else some ⟨place ++ name, .unknownField allowed⟩
    | none => some ⟨place ++ "<key>", .wrongType "string keys"⟩

/-- The value of a field that must be there; an untagged null counts as empty. -/
def required (entries : Entries) (key field : String) : Checked Node :=
  match Node.valueOf? key entries with
  | none => .fail field .missingField
  | some .null => .fail field .emptyValue
  | some value => .ok value

/-- A text without the blanks around it; nothing may be left of it only. -/
def checkText (field : String) (value : Node) : Checked String :=
  match value.text? with
  | none => .fail field (.wrongType "a string")
  | some s =>
    let trimmed := Text.trim s
    if trimmed.isEmpty then .fail field .emptyValue else .ok trimmed

def checkLength (entries : Entries) (key : String) (lengths : Nat × Option Nat) :
    Checked String := do
  let value ← required entries key key
  let text ← checkText key value
  let actual := text.length
  if actual < lengths.1 || lengths.2.any (· < actual) then
    .fail key (.lengthOutOfRange lengths.1 lengths.2 actual)
  else return text

def checkId (entries : Entries) : Checked String := do
  let value ← required entries "id" "id"
  let id ← checkText "id" value
  if RuleId.valid id then return id else .fail "id" (.invalidId id)

def checkSeverity (entries : Entries) : Checked Severity := do
  let value ← required entries "severity" "severity"
  let name ← checkText "severity" value
  match Severity.parse name with
  | some severity => return severity
  | none => .fail "severity" (.invalidChoice name Severity.names)

def checkScope (entries : Entries) : Checked String := do
  let value ← required entries "scope" "scope"
  let scope ← checkText "scope" value
  if scope.toList.any Text.isBlank then .fail "scope" .containsBlank else return scope

def checkItems (field : String) : Nat → List Node → Checked (List String)
  | _, [] => .ok []
  | i, item :: rest =>
    (Checked.ok List.cons).also (checkText (field ++ "[" ++ toString i ++ "]") item)
      |>.also (checkItems field (i + 1) rest)

def checkList (field : String) (value : Node) : Checked (List String) :=
  match value.items? with
  | none => .fail field (.wrongType "a list of strings")
  | some [] => .fail field .emptyList
  | some items => checkItems field 0 items

def requiredList (entries : Entries) (key field : String) : Checked (List String) := do
  let value ← required entries key field
  checkList field value

/-- One entry of a table of lists: its name is stored without blanks around it, and only if its
list is sound and the name is new. -/
def checkListEntry (field : String) (filling : Filling (List String)) (entry : Node × Node) :
    Filling (List String) :=
  match (entry.1.text?.map Text.trim).filter (!·.isEmpty) with
  | none => filling.refuse (field ++ ".<key>") (.wrongType "a non-empty string key")
  | some name =>
    if filling.table.contains name then filling.refuse (field ++ "." ++ name) (.duplicateKey name)
    else filling.store name (checkList (field ++ "." ++ name) entry.2)

def checkLists (entries : Entries) (field : String) : Checked (Keyed (List String)) :=
  match Node.valueOf? field entries with
  | none => .ok []
  | some value =>
    match value.entries? with
    | none => .fail field (.wrongType "a mapping of name to list of ids")
    | some lists => (lists.foldl (checkListEntry field) .start).checked

def checkVerify (entries : Entries) : Checked (List String) := do
  let value ← required entries "verify" "verify"
  match value.entries? with
  | none => .fail "verify" (.wrongType "a mapping with a \x60tests\x60 list")
  | some part =>
    let tests := requiredList part "tests" "verify.tests"
    ⟨tests.value, unknownKeys "verify." verifyFields part ++ tests.violations⟩

def checkFlag (entries : Entries) (field : String) : Checked Bool :=
  match Node.valueOf? field entries with
  | none => .ok false
  | some (.bool b) => .ok b
  | some _ => .fail field (.wrongType "a boolean")

/-- One default. Its name is stored as it is written. -/
def checkDefault (filling : Filling Json) (entry : Node × Node) : Filling Json :=
  match entry.1.text?.filter fun key => !(Text.trim key).isEmpty with
  | none => filling.refuse "defaults.<key>" (.wrongType "a non-empty string key")
  | some key =>
    match entry.2.scalar? with
    | some value => filling.store key (.ok value)
    | none => filling.refuse ("defaults." ++ key) (.wrongType "a string, number, or boolean")

def checkDefaults (entries : Entries) : Checked (Keyed Json) :=
  match Node.valueOf? "defaults" entries with
  | none => .ok []
  | some value =>
    match value.entries? with
    | none => .fail "defaults" (.wrongType "a mapping of scalar values")
    | some defaults => (defaults.foldl checkDefault .start).checked

/-- All fields of a document, whether or not they are sound. -/
def checkFields (entries : Entries) : Checked Card :=
  (Checked.ok Card.mk)
    |>.also (checkId entries)
    |>.also (checkLength entries "title" titleLengths)
    |>.also (checkSeverity entries)
    |>.also (checkScope entries)
    |>.also (checkLength entries "requirement" requirementLengths)
    |>.also (requiredList entries "do" "do")
    |>.also (requiredList entries "dont" "dont")
    |>.also (checkLists entries "detect")
    |>.also (checkVerify entries)
    |>.also (checkLists entries "refs")
    |>.also (checkFlag entries "disabled")
    |>.also (checkDefaults entries)

def validate (document : Node) : Except (List Violation) Card :=
  match document.entries? with
  | none => .error [⟨"<document>", .wrongType "a mapping of card fields"⟩]
  | some entries =>
    let checked := checkFields entries
    match unknownKeys "" fields entries ++ checked.violations, checked.value with
    | [], some card => .ok card
    | violations, _ => .error violations

end Card

end Rulebook
