import Rulebook.Json.Value
import Rulebook.Keyed
import Rulebook.Number.Printed
import Rulebook.Digest.Sha256

/-!
# JSON as text

Three written forms of a value. `compact` has no blanks and keeps the order of the members.
`pretty` puts each item and member on a line of its own, two spaces deeper than what holds it.
`canonical` is compact, lays numbers out as canonical JSON does, and orders the members of an object
by the written form of their keys, quotes included, so that equal content has equal text.
-/

namespace Rulebook.Json

set_option autoImplicit false

def openBrace : Char := Char.ofNat 0x7b

def closeBrace : Char := Char.ofNat 0x7d

def escapeChar (c : Char) : List Char :=
  match c with
  | '"' => ['\\', '"']
  | '\\' => ['\\', '\\']
  | '\x08' => ['\\', 'b']
  | '\x0c' => ['\\', 'f']
  | '\n' => ['\\', 'n']
  | '\r' => ['\\', 'r']
  | '\t' => ['\\', 't']
  | c => if c.toNat < 0x20 then ['\\', 'u'] ++ Digest.hexDigits 4 c.toNat else [c]

/-- A text between quotes. -/
def written (s : String) : List Char := '"' :: s.toList.flatMap escapeChar ++ ['"']

def wholeText (n : Int) : List Char :=
  (if n < 0 then ['-'] else []) ++ Nat.toDigits 10 n.natAbs

def numberText (style : RealStyle) : JsonNumber → List Char
  | .whole n => wholeText n.val
  | .real d => (style.render d).toList

def separated (separator : List Char) : List (List Char) → List Char
  | [] => []
  | [x] => x
  | x :: y :: rest => x ++ separator ++ separated separator (y :: rest)

mutual

def compactChars : Json → List Char
  | .null => "null".toList
  | .bool b => (if b then "true" else "false").toList
  | .number n => numberText .json n
  | .string s => written s
  | .array items => '[' :: separated [','] (compactItems items) ++ [']']
  | .object members => openBrace :: separated [','] (compactMembers members) ++ [closeBrace]

def compactItems : List Json → List (List Char)
  | [] => []
  | v :: rest => compactChars v :: compactItems rest

def compactMembers : List (String × Json) → List (List Char)
  | [] => []
  | (k, v) :: rest => (written k ++ ':' :: compactChars v) :: compactMembers rest

end

def compact (v : Json) : String := String.ofList v.compactChars

/-- The members of an object by rising written key. -/
def byWrittenKey (members : List (String × List Char)) : Keyed (List Char) :=
  Keyed.ofList (members.map fun (k, v) => (String.ofList (written k), v))

mutual

def canonicalChars : Json → List Char
  | .null => "null".toList
  | .bool b => (if b then "true" else "false").toList
  | .number n => numberText .canonical n
  | .string s => written s
  | .array items => '[' :: separated [','] (canonicalItems items) ++ [']']
  | .object members =>
    openBrace :: separated [',']
      ((byWrittenKey (canonicalMembers members)).map fun (k, v) => k.toList ++ ':' :: v) ++
      [closeBrace]

def canonicalItems : List Json → List (List Char)
  | [] => []
  | v :: rest => canonicalChars v :: canonicalItems rest

def canonicalMembers : List (String × Json) → List (String × List Char)
  | [] => []
  | (k, v) :: rest => (k, canonicalChars v) :: canonicalMembers rest

end

def canonical (v : Json) : String := String.ofList v.canonicalChars

mutual

/-- The value with the members of every object in key order. -/
def byKey : Json → Json
  | .array items => .array (itemsByKey items)
  | .object members => .object (Keyed.ofList (membersByKey members))
  | v => v

def itemsByKey : List Json → List Json
  | [] => []
  | v :: rest => byKey v :: itemsByKey rest

def membersByKey : List (String × Json) → List (String × Json)
  | [] => []
  | (k, v) :: rest => (k, byKey v) :: membersByKey rest

end

def lineBreak (depth : Nat) : List Char := '\n' :: List.replicate (2 * depth) ' '

/-- Lines between two brackets, or the bare brackets when there are none. -/
def bracketed (depth : Nat) (left right : Char) : List (List Char) → List Char
  | [] => [left, right]
  | lines =>
    left :: lineBreak (depth + 1) ++ separated (',' :: lineBreak (depth + 1)) lines ++
      lineBreak depth ++ [right]

mutual

def prettyChars (depth : Nat) : Json → List Char
  | .null => "null".toList
  | .bool b => (if b then "true" else "false").toList
  | .number n => numberText .json n
  | .string s => written s
  | .array items => bracketed depth '[' ']' (prettyItems (depth + 1) items)
  | .object members => bracketed depth openBrace closeBrace (prettyMembers (depth + 1) members)

def prettyItems (depth : Nat) : List Json → List (List Char)
  | [] => []
  | v :: rest => prettyChars depth v :: prettyItems depth rest

def prettyMembers (depth : Nat) : List (String × Json) → List (List Char)
  | [] => []
  | (k, v) :: rest => (written k ++ ':' :: ' ' :: prettyChars depth v) :: prettyMembers depth rest

end

def pretty (v : Json) : String := String.ofList (prettyChars 0 v)

end Rulebook.Json
