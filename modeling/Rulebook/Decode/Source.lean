import Rulebook.Json.Flaw
import Rulebook.Json.Value

/-!
# Sources

What a decoder reads: a value of some data format, as far as its text can be read. A source keeps
the order in which the text presents things, so that a decoder meets the first problem of the text
first, whether that is a value of the wrong type or text that is malformed from there on.
-/

namespace Rulebook

set_option autoImplicit false

inductive Source where
  /-- Without a value, for this flaw. Skipping it works unless the text is malformed, which shows in
  another flaw. -/
  | unreadable (flaw : Json.Flaw) (skipped : Option Json.Flaw)
  | nothing
  | bool (b : Bool)
  | number (n : JsonNumber)
  /-- An infinity, or no number at all, by its name. -/
  | limit (name : String)
  | text (s : String)
  /-- The items, and the flaw behind them if the list does not end there. -/
  | list (items : List Source) (flaw : Option Json.Flaw)
  /-- The members, and the flaw behind them if the table does not end there. -/
  | table (members : List (Source × Source)) (flaw : Option Json.Flaw)
  /-- A value under a tag. -/
  | tagged (content : Source)
deriving Inhabited

namespace Source

mutual

def ofJson : Json → Source
  | .null => .nothing
  | .bool b => .bool b
  | .number n => .number n
  | .string s => .text s
  | .array items => .list (ofItems items) none
  | .object members => .table (ofMembers members) none

def ofItems : List Json → List Source
  | [] => []
  | v :: rest => ofJson v :: ofItems rest

def ofMembers : List (String × Json) → List (Source × Source)
  | [] => []
  | (k, v) :: rest => (.text k, ofJson v) :: ofMembers rest

end

mutual

/-- The first flaw of the text of the value, which keeps it from being skipped. -/
def flaw? : Source → Option Json.Flaw
  | .unreadable _ skipped => skipped
  | .list items flaw => (flawIn? items).or flaw
  | .table members flaw => (flawAmong? members).or flaw
  | .tagged content => flaw? content
  | _ => none

def flawIn? : List Source → Option Json.Flaw
  | [] => none
  | v :: rest => (flaw? v).or (flawIn? rest)

def flawAmong? : List (Source × Source) → Option Json.Flaw
  | [] => none
  | (k, v) :: rest => ((flaw? k).or (flaw? v)).or (flawAmong? rest)

end

/-- The value without its tags. -/
def bare : Source → Source
  | .tagged content => bare content
  | s => s

end Source

end Rulebook
