import Rulebook.Decode.Source
import Rulebook.Number.Printed
import Rulebook.Text.Quoted

/-!
# Decoding errors

Why a source is not what a decoder expects, and the wording. Formats differ in how they name an
absent value and how they lay out a double that stands in the wrong place.
-/

namespace Rulebook.Decode

set_option autoImplicit false

/-- What a list does that holds more items than the record it stands for has fields. -/
inductive Surplus where
  | malformed
  | tooMany
  | ignored
deriving DecidableEq

/-- How a data format presents records. -/
structure Dialect where
  nothingName : String
  realStyle : RealStyle
  /-- An absent value stands for an empty list or table. -/
  nothingIsEmpty : Bool
  /-- A record may be given as the list of its fields. -/
  listsAsRecords : Bool
  surplus : Surplus
  /-- What is expected where a named alternative is, if anything else is a wrong type and not
  malformed text. -/
  alternative : Option String

namespace Dialect

def jsonText : Dialect := ⟨"null", .json, false, true, .malformed, none⟩

def jsonValue : Dialect := ⟨"null", .json, false, true, .tooMany, some "string or map"⟩

def yaml : Dialect := ⟨"unit value", .plain, true, false, .ignored, none⟩

def toml : Dialect := ⟨"unit value", .plain, false, true, .ignored, none⟩

end Dialect

inductive Found where
  | nothing
  | bool (b : Bool)
  | whole (n : Int)
  | real (d : Double)
  | limit (name : String)
  | text (s : String)
  | list
  | table
  | tagged
deriving DecidableEq

/-- A step from a value to a part of it. -/
inductive Step where
  /-- The name of a member. -/
  | name (name : String)
  /-- The value of a member. -/
  | member (name : String)
  | item (index : Nat)
deriving DecidableEq, Repr

inductive Error where
  | malformed (flaw : Json.Flaw)
  | wrongType (found : Found) (expected : String)
  | wrongValue (found : Found) (expected : String)
  | wrongLength (length : Nat) (expected : String)
  | unknownField (name : String) (allowed : List String)
  | unknownVariant (name : String) (allowed : List String)
  | missingField (name : String)
  | duplicateField (name : String)
  /-- An error of a part. -/
  | within (step : Step) (e : Error)
deriving DecidableEq

namespace Error

/-- The error itself, without the way to it. -/
def root : Error → Error
  | .within _ e => root e
  | e => e

/-- The way to the part that the error is about. -/
def trail : Error → List Step
  | .within step e => step :: trail e
  | _ => []

end Error

def ticked (s : String) : String := "\x60" ++ s ++ "\x60"

def Found.describe (dialect : Dialect) : Found → String
  | .nothing => dialect.nothingName
  | .bool b => "boolean " ++ ticked (if b then "true" else "false")
  | .whole n => "integer " ++ ticked (toString n)
  | .real d => "floating point " ++ ticked (dialect.realStyle.render d)
  | .limit name => "floating point " ++ ticked name
  | .text s => "string " ++ Text.quoted s
  | .list => "sequence"
  | .table => "map"
  | .tagged => "enum"

def oneOf : List String → String
  | [] => "there are no fields"
  | [a] => "expected " ++ ticked a
  | [a, b] => "expected " ++ ticked a ++ " or " ++ ticked b
  | names => "expected one of " ++ ", ".intercalate (names.map ticked)

def Error.message (dialect : Dialect) : Error → String
  | .malformed flaw => flaw.fault.message
  | .wrongType found expected =>
    "invalid type: " ++ found.describe dialect ++ ", expected " ++ expected
  | .wrongValue found expected =>
    "invalid value: " ++ found.describe dialect ++ ", expected " ++ expected
  | .wrongLength length expected =>
    "invalid length " ++ toString length ++ ", expected " ++ expected
  | .unknownField name allowed => "unknown field " ++ ticked name ++ ", " ++ oneOf allowed
  | .unknownVariant name allowed => "unknown variant " ++ ticked name ++ ", " ++ oneOf allowed
  | .missingField name => "missing field " ++ ticked name
  | .duplicateField name => "duplicate field " ++ ticked name
  | .within _ e => e.message dialect

/-- The error of finding a source where something else is expected. -/
def mismatch (expected : String) : Source → Error
  | .unreadable flaw _ => .malformed flaw
  | .nothing => .wrongType .nothing expected
  | .bool b => .wrongType (.bool b) expected
  | .number (.whole n) => .wrongType (.whole n.val) expected
  | .number (.real d) => .wrongType (.real d) expected
  | .limit name => .wrongType (.limit name) expected
  | .text s => .wrongType (.text s) expected
  | .list .. => .wrongType .list expected
  | .table .. => .wrongType .table expected
  | .tagged _ => .wrongType .tagged expected

end Rulebook.Decode
