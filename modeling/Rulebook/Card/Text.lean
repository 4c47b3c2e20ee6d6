import Rulebook.Card.Schema
import Rulebook.Decode.Record
import Rulebook.Yaml.Node.Reader

/-!
# Reading cards

A card is read from a YAML text, which is validated, or from its JSON form, which is not.
-/

namespace Rulebook.Card

set_option autoImplicit false

def ofYaml (text : String) : Except (List Violation) Card :=
  match Yaml.Node.parse text with
  | .ok document => validate document
  | .error e => .error [⟨"<document>", .parseFailed e.message⟩]

open Decode

def verifyLayout (dialect : Dialect) : Layout (List String) where
  name := "struct Verification"
  fields := verifyFields
  optional := []
  strict := false
  blank := []
  put tests name value :=
    match name with
    | "tests" => list dialect text value
    | _ => .ok tests

/-- Fields that are not known are skipped. -/
def layout (dialect : Dialect) : Layout Card where
  name := "struct RuleCard"
  fields := fields
  optional := ["detect", "refs", "disabled", "defaults"]
  strict := false
  blank := default
  put card name value :=
    match name with
    | "id" => return { card with id := ← text value }
    | "title" => return { card with title := ← text value }
    | "severity" =>
      return { card with severity := ← alternative dialect Severity.names Severity.parse value }
    | "scope" => return { card with scope := ← text value }
    | "requirement" => return { card with requirement := ← text value }
    | "do" => return { card with dos := ← list dialect text value }
    | "dont" => return { card with donts := ← list dialect text value }
    | "detect" => return { card with detect := ← keyed dialect (list dialect text) value }
    | "verify" => return { card with tests := ← (verifyLayout dialect).decode dialect value }
    | "refs" => return { card with refs := ← keyed dialect (list dialect text) value }
    | "disabled" => return { card with disabled := ← flag value }
    | "defaults" => return { card with defaults := ← keyed dialect json value }
    | _ => return card

def decode (dialect : Dialect) : Decoder Card := (layout dialect).decode dialect

def ofJson (value : Json) : Except Error Card := decode .jsonValue (.ofJson value)

end Rulebook.Card
