import Rulebook.Text.Place

/-!
# Flaws in JSON text

Where a text stops being JSON, and why.
-/

namespace Rulebook.Json

set_option autoImplicit false

inductive Fault where
  | endInValue
  | endInList
  | endInObject
  | endInString
  | noValue
  | noWord
  | noColon
  | noListEnd
  | noObjectEnd
  | keyNotText
  | trailingComma
  | trailingText
  | badNumber
  | numberTooLarge
  | badEscape
  | loneSurrogate
  | controlCharacter
  | tooDeep
deriving DecidableEq, Repr

def Fault.message : Fault → String
  | .endInValue => "EOF while parsing a value"
  | .endInList => "EOF while parsing a list"
  | .endInObject => "EOF while parsing an object"
  | .endInString => "EOF while parsing a string"
  | .noValue => "expected value"
  | .noWord => "expected ident"
  | .noColon => "expected \x60:\x60"
  | .noListEnd => "expected \x60,\x60 or \x60]\x60"
  | .noObjectEnd => "expected \x60,\x60 or \x60\x7d\x60"
  | .keyNotText => "key must be a string"
  | .trailingComma => "trailing comma"
  | .trailingText => "trailing characters"
  | .badNumber => "invalid number"
  | .numberTooLarge => "number out of range"
  | .badEscape => "invalid escape"
  | .loneSurrogate => "lone leading surrogate in hex escape"
  | .controlCharacter => "control character (\\u0000-\\u001F) found while parsing a string"
  | .tooDeep => "recursion limit exceeded"

structure Flaw where
  fault : Fault
  /-- How many characters are left, where that is known. -/
  left : Option Nat
  /-- The flaw shows in the next character. -/
  inNext : Bool
deriving DecidableEq, Repr

namespace Flaw

/-- A flaw that shows in the next character, or in that there is none. -/
def next (fault : Fault) (cs : List Char) : Flaw := ⟨fault, some cs.length, true⟩

/-- A flaw of what was read last. -/
def last (fault : Fault) (cs : List Char) : Flaw := ⟨fault, some cs.length, false⟩

def unplaced (fault : Fault) : Flaw := ⟨fault, none, false⟩

/-- The place up to which the text has been read, one byte into the next character if the flaw shows
in it. -/
def place? (cs : List Char) (flaw : Flaw) : Option Text.Place :=
  flaw.left.map fun left =>
    let read := cs.take (cs.length - left)
    match flaw.inNext, cs[read.length]? with
    | true, some '\n' => Text.placeAfter (read ++ ['\n'])
    | true, some _ =>
      let place := Text.placeAfter read
      { place with column := place.column + 1 }
    | _, _ => Text.placeAfter read

end Flaw

end Rulebook.Json
