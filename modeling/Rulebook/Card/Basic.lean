import Rulebook.Card.Id
import Rulebook.Json.Text

/-!
# Rule cards

A rule card states one requirement, how to meet it, and how to check it. Its content hash is the
digest of its canonical JSON, so it depends on what the card says and not on how it was written.
-/

namespace Rulebook

set_option autoImplicit false

inductive Severity where
  | low
  | medium
  | high
  | critical
deriving DecidableEq, Repr, Inhabited

namespace Severity

def all : List Severity := [.low, .medium, .high, .critical]

def name : Severity → String
  | .low => "low"
  | .medium => "medium"
  | .high => "high"
  | .critical => "critical"

def rank : Severity → Nat
  | .low => 0
  | .medium => 1
  | .high => 2
  | .critical => 3

def names : List String := all.map name

def parse (s : String) : Option Severity := all.find? (·.name == s)

theorem parse_name (s : Severity) : parse s.name = some s := by
  cases s <;> rfl

end Severity

structure Card where
  id : String
  title : String
  severity : Severity
  scope : String
  requirement : String
  dos : List String
  donts : List String
  /-- Tools that can detect a breach, with their own rule ids. -/
  detect : Keyed (List String)
  tests : List String
  /-- Standards the rule refers to, with their own ids. -/
  refs : Keyed (List String)
  /-- A disabled card keeps its id reserved and is never compiled. -/
  disabled : Bool
  /-- Suggested policy defaults; those of an agent win. -/
  defaults : Keyed Json
deriving DecidableEq, Inhabited

namespace Card

def isActive (card : Card) : Bool := !card.disabled

def category (card : Card) : String := RuleId.category card.id

def textsJson (texts : List String) : Json := .array (texts.map .string)

def listsJson (table : Keyed (List String)) : Json := .object (table.mapValues textsJson)

/-- The card in the order of its fields; what is not set is left out. -/
def toJson (card : Card) : Json :=
  .object ([
    ("id", .string card.id),
    ("title", .string card.title),
    ("severity", .string card.severity.name),
    ("scope", .string card.scope),
    ("requirement", .string card.requirement),
    ("do", textsJson card.dos),
    ("dont", textsJson card.donts),
    ("detect", listsJson card.detect),
    ("verify", .object [("tests", textsJson card.tests)]),
    ("refs", listsJson card.refs)] ++
    (if card.disabled then [("disabled", .bool true)] else []) ++
    (if card.defaults.isEmpty then [] else [("defaults", .object card.defaults)]))

def contentHash (card : Card) : String := Digest.ofText card.toJson.canonical

end Card

end Rulebook
