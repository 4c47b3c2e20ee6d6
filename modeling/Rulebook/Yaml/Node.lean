import Rulebook.Decode.Source

/-!
# YAML values

A YAML value keeps the order of its mappings. `same` is equality as keys are compared: mappings
without regard to order, the two zeros as one number, a tag with or without its exclamation mark.
The views `text?`, `items?` and `entries?` look through tags; matching on a constructor does not.
-/

namespace Rulebook.Yaml

set_option autoImplicit false

inductive Node where
  | null
  | bool (b : Bool)
  | number (n : JsonNumber)
  | infinity (negative : Bool)
  | notANumber
  | string (s : String)
  | sequence (items : List Node)
  | mapping (entries : List (Node × Node))
  | tagged (tag : String) (content : Node)
deriving Inhabited, Repr

namespace Node

def bareTag (tag : String) : List Char :=
  match tag.toList with
  | '!' :: rest => rest
  | cs => cs

mutual

def same : Node → Node → Bool
  | .null, .null => true
  | .bool a, .bool b => a == b
  | .number a, .number b => a.same b
  | .infinity a, .infinity b => a == b
  | .notANumber, .notANumber => true
  | .string a, .string b => a == b
  | .sequence a, .sequence b => sameItems a b
  | .mapping a, .mapping b => a.length == b.length && entriesIn a b
  | .tagged s a, .tagged t b => bareTag s == bareTag t && same a b
  | _, _ => false

def sameItems : List Node → List Node → Bool
  | [], [] => true
  | a :: as, b :: bs => same a b && sameItems as bs
  | _, _ => false

/-- Every entry of the first list has its like in the second. -/
def entriesIn : List (Node × Node) → List (Node × Node) → Bool
  | [], _ => true
  | (k, v) :: rest, bs => bs.any (fun (l, w) => same k l && same v w) && entriesIn rest bs

end

/-- The value without its tags. -/
def bare : Node → Node
  | .tagged _ content => bare content
  | n => n

def text? (n : Node) : Option String :=
  match n.bare with
  | .string s => some s
  | _ => none

def items? (n : Node) : Option (List Node) :=
  match n.bare with
  | .sequence items => some items
  | _ => none

def entries? (n : Node) : Option (List (Node × Node)) :=
  match n.bare with
  | .mapping entries => some entries
  | _ => none

/-- The value under a key that is a string without a tag. -/
def valueOf? (key : String) : List (Node × Node) → Option Node
  | [] => none
  | (.string k, v) :: rest => if k = key then some v else valueOf? key rest
  | _ :: rest => valueOf? key rest

def member? (n : Node) (key : String) : Option Node := n.entries?.bind (valueOf? key)

/-- Entries with one more: a key that is there already keeps its place and gets the new value. -/
def putEntry (key value : Node) : List (Node × Node) → List (Node × Node)
  | [] => [(key, value)]
  | (k, v) :: rest => if same k key then (k, value) :: rest else (k, v) :: putEntry key value rest

mutual

/-- The value as decoders read it. -/
def toSource : Node → Source
  | .null => .nothing
  | .bool b => .bool b
  | .number n => .number n
  | .infinity negative => .limit (if negative then "-inf" else "inf")
  | .notANumber => .limit "NaN"
  | .string s => .text s
  | .sequence items => .list (itemSources items) none
  | .mapping entries => .table (entrySources entries) none
  | .tagged _ content => .tagged (toSource content)

def itemSources : List Node → List Source
  | [] => []
  | n :: rest => toSource n :: itemSources rest

def entrySources : List (Node × Node) → List (Source × Source)
  | [] => []
  | (k, v) :: rest => (toSource k, toSource v) :: entrySources rest

end

/-- A boolean, text or finite number as JSON, if the value is one and carries no tag. -/
def scalar? : Node → Option Json
  | .bool b => some (.bool b)
  | .string s => some (.string s)
  | .number n => some (.number n)
  | _ => none

end Node

end Rulebook.Yaml
