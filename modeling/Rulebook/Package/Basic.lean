import Rulebook.Card.Text
import Rulebook.Json.Reader
import Rulebook.Manifest.Basic

/-!
# Packages

A package holds the cards compiled for one agent. Its file is pretty JSON with a line break at the
end; reading it back refuses unknown fields of the package and of its policy.
-/

namespace Rulebook

set_option autoImplicit false

structure Package where
  id : String
  name : String
  version : String
  buildDate : String
  sourceDigest : String
  attribution : String
  policy : Policy
  rules : List String
  rulesDetail : List Card
  validationHooks : Keyed (List String)
deriving DecidableEq, Inhabited

namespace Package

def toJson (p : Package) : Json :=
  .object [
    ("id", .string p.id),
    ("name", .string p.name),
    ("version", .string p.version),
    ("build_date", .string p.buildDate),
    ("source_digest", .string p.sourceDigest),
    ("attribution", .string p.attribution),
    ("policy", p.policy.toJson),
    ("rules", Card.textsJson p.rules),
    ("rules_detail", .array (p.rulesDetail.map Card.toJson)),
    ("validation_hooks", Card.listsJson p.validationHooks)]

def text (p : Package) : String := p.toJson.pretty ++ "\n"

def bytes (p : Package) : ByteArray := p.text.toUTF8

def fileName (p : Package) : String := p.id ++ ".json"

open Decode

def fields : List String :=
  ["id", "name", "version", "build_date", "source_digest", "attribution", "policy", "rules",
    "rules_detail", "validation_hooks"]

def layout (dialect : Dialect) : Layout Package where
  name := "struct CompiledAgentPackage"
  fields := fields
  optional := []
  strict := true
  blank := default
  put p name value :=
    match name with
    | "id" => return { p with id := ← Decode.text value }
    | "name" => return { p with name := ← Decode.text value }
    | "version" => return { p with version := ← Decode.text value }
    | "build_date" => return { p with buildDate := ← Decode.text value }
    | "source_digest" => return { p with sourceDigest := ← Decode.text value }
    | "attribution" => return { p with attribution := ← Decode.text value }
    | "policy" => return { p with policy := ← Policy.decode dialect value }
    | "rules" => return { p with rules := ← list dialect Decode.text value }
    | "rules_detail" => return { p with rulesDetail := ← list dialect (Card.decode dialect) value }
    | "validation_hooks" =>
      return { p with validationHooks := ← keyed dialect (list dialect Decode.text) value }
    | _ => return p

def decode (dialect : Dialect) : Decoder Package := (layout dialect).decode dialect

def parse (text : String) : Except Error Package := do
  let reading := Json.read text
  let p ← decode .jsonText reading.source
  endOf reading.flaw p

end Package

end Rulebook
