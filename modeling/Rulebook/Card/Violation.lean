import Rulebook.Card.Basic

/-!
# Schema violations

What can be wrong with a field of a card, and the wording.
-/

namespace Rulebook

set_option autoImplicit false

inductive ViolationKind where
  | parseFailed (message : String)
  | missingField
  | wrongType (expected : String)
  | emptyValue
  | emptyList
  | invalidId (value : String)
  | lengthOutOfRange (least : Nat) (most : Option Nat) (actual : Nat)
  | invalidChoice (value : String) (allowed : List String)
  | unknownField (allowed : List String)
  | containsBlank
  | duplicateKey (name : String)
deriving DecidableEq, Repr

namespace ViolationKind

def rangeText (least : Nat) : Option Nat → String
  | some most => toString least ++ "..=" ++ toString most
  | none => toString least ++ ".."

def message : ViolationKind → String
  | .parseFailed message => "the file is not valid YAML: " ++ message
  | .missingField => "required field is missing"
  | .wrongType expected => "expected " ++ expected
  | .emptyValue => "value must not be empty"
  | .emptyList => "list must contain at least one entry"
  | .invalidId value =>
    "'" ++ value ++ "' does not match CATEGORY-SUBCATEGORY-NNN (e.g. AUTH-PW-001)"
  | .lengthOutOfRange least most actual =>
    "length " ++ toString actual ++ " is outside the allowed range " ++ rangeText least most
  | .invalidChoice value allowed =>
    "'" ++ value ++ "' is not one of: " ++ ", ".intercalate allowed
  | .unknownField allowed => "unknown field (allowed: " ++ ", ".intercalate allowed ++ ")"
  | .containsBlank => "value must not contain whitespace"
  | .duplicateKey name => "key '" ++ name ++ "' appears more than once (after trimming whitespace)"

end ViolationKind

structure Violation where
  field : String
  kind : ViolationKind
deriving DecidableEq, Repr

/-- The violation as it is shown for a file. -/
def Violation.message (path : String) (v : Violation) : String :=
  path ++ ": field \x60" ++ v.field ++ "\x60: " ++ v.kind.message

end Rulebook
