import Rulebook.Package.Basic
import Rulebook.Package.Error

/-!
# Reading packages

A package that is refused comes with the place up to which its text was read when the error was certain:
behind a value of the wrong type, in front of a list or an object of the wrong type, in front of the
colon behind a field that should not be there.
-/

namespace Rulebook.Package

set_option autoImplicit false

open Decode

/-- The root of the error of a text; `none` if there is no error. -/
def fault? (cs : List Char) : Option Error :=
  match parse (String.ofList cs) with
  | .ok _ => none
  | .error e => some e.root

/-- The least number between two bounds that passes a test, if all numbers behind it do so as well. -/
def least (test : Nat → Bool) : Nat → Nat → Nat → Nat
  | 0, _, high => high
  | fuel + 1, low, high =>
    if high ≤ low then high
    else
      let middle := (low + high) / 2
      if test middle then least test fuel low middle else least test fuel (middle + 1) high

/-- How much of a text settles its error. -/
def settled (cs : List Char) (e : Error) : Nat :=
  least (fun n => fault? (cs.take n) == some e) (cs.length + 1) 0 cs.length

def isNumeralChar (c : Char) : Bool :=
  c.isDigit || c == '.' || c == 'e' || c == 'E' || c == '+' || c == '-'

/-- How much of a text has been read when its error is found. -/
def readUpTo (cs : List Char) (e : Error) : Nat :=
  let n := settled cs e
  match e with
  | .wrongType .list _ | .wrongType .table _ => n - 1
  | .wrongType (.whole _) _ | .wrongType (.real _) _ =>
    n + ((cs.drop n).takeWhile isNumeralChar).length
  | .unknownField .. | .duplicateField _ => n + ((cs.drop n).takeWhile Json.isBlank).length
  | _ => n

def faultOf (text : String) (e : Error) : PackageFault :=
  let cs := text.toList
  match e.root with
  | .malformed flaw => ⟨true, flaw.fault.message, flaw.place? cs⟩
  | e =>
    ⟨false, e.message .jsonText, some (Text.placeAfter (cs.take (readUpTo cs e)))⟩

def read (text : String) : Except PackageFault Package :=
  match parse text with
  | .ok p => .ok p
  | .error e => .error (faultOf text e)

end Rulebook.Package
