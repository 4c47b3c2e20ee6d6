import Rulebook.Decode.Source
import Rulebook.Number.Decimal

/-!
# Reading JSON text

`Json.read` turns a text into a source. Reading never fails: malformed text ends the source where it
stands. More than 127 containers inside one another, lone surrogates and numbers beyond the finite
doubles are well formed but have no value.

The digits of a number are taken as far as 64 bits hold them; a number with a point or an exponent
is those digits as a double, scaled by a power of ten with one rounding for each factor.
-/

namespace Rulebook.Json

set_option autoImplicit false

def isBlank (c : Char) : Bool := c == ' ' || c == '\n' || c == '\t' || c == '\r'

def skipBlank (cs : List Char) : List Char := cs.dropWhile isBlank

def digitValue (c : Char) : Nat := c.toNat - '0'.toNat

/-- The digits that fit into 64 bits after the number so far, and how many they are. -/
def absorb : Nat → List Char → Nat × Nat
  | value, [] => (value, 0)
  | value, c :: rest =>
    let next := value * 10 + digitValue c
    if next < 0x10000000000000000 then
      let (all, count) := absorb next rest
      (all, count + 1)
    else (value, 0)

def powerOfTen (n : Nat) : Double := (Double.ofNat? false (Nat.pow 10 n)).getD default

/-- A double times a power of ten. -/
def scaleUp (d : Double) (exponent : Nat) : Option Double :=
  if exponent ≤ 308 then d.times? (powerOfTen exponent)
  else if d.isZero then some d
  else none

def scaleDown (d : Double) (exponent : Nat) : Option Double :=
  if exponent ≤ 308 then d.over? (powerOfTen exponent)
  else if d.isZero then some d
  else (d.over? (powerOfTen 308)).bind fun less => scaleDown less (exponent - 308)
termination_by exponent

def scale (d : Double) (exponent : Int) : Option Double :=
  if 0 ≤ exponent then scaleUp d exponent.toNat else scaleDown d exponent.natAbs

/-- The parts of a written number. -/
structure Numeral where
  negative : Bool
  whole : List Char
  fraction : Option (List Char)
  exponent : Option (Bool × List Char)

namespace Numeral

def valueOf (digits : List Char) : Nat := digits.foldl (fun n c => n * 10 + digitValue c) 0

/-- The number, unless it is beyond the finite doubles. -/
def number? (n : Numeral) : Option JsonNumber :=
  let (wholePart, wholeCount) := absorb 0 n.whole
  let dropped : Int := n.whole.length - wholeCount
  match n.fraction, n.exponent with
  | none, none =>
    if dropped == 0 then
      if !n.negative then (WideInt.ofInt? wholePart).map .whole
      else if wholePart == 0 then some (.real (.zero true))
      else if wholePart ≤ 0x8000000000000000 then (WideInt.ofInt? (-(wholePart : Int))).map .whole
      else (Double.ofNat? true wholePart).map .real
    else scaled wholePart dropped
  | fraction, exponent =>
    let (significand, count) := absorb wholePart (fraction.getD [])
    let start : Int := dropped - count
    match exponent with
    | none => scaled significand start
    | some (negativeExponent, digits) =>
      let e := valueOf digits
      if e < 0x80000000 then
        scaled significand (if negativeExponent then start - e else start + e)
      else if significand == 0 || negativeExponent then some (.real (.zero n.negative))
      else none
where
  scaled (significand : Nat) (exponent : Int) : Option JsonNumber := do
    let d ← Double.ofNat? n.negative significand
    return .real (← scale d exponent)

end Numeral

def digitsAt (cs : List Char) : List Char × List Char := cs.span Char.isDigit

def missingDigit (cs : List Char) : Flaw :=
  .next (if cs.isEmpty then .endInValue else .badNumber) cs

def readExponent (cs : List Char) : Except Flaw (Option (Bool × List Char) × List Char) :=
  match cs with
  | c :: rest =>
    if c == 'e' || c == 'E' then
      let (negative, rest) := match rest with
        | '+' :: rest => (false, rest)
        | '-' :: rest => (true, rest)
        | rest => (false, rest)
      match digitsAt rest with
      | ([], rest) => .error (missingDigit rest)
      | (digits, rest) => .ok (some (negative, digits), rest)
    else .ok (none, cs)
  | [] => .ok (none, [])

def readFraction (cs : List Char) : Except Flaw (Option (List Char) × List Char) :=
  match cs with
  | '.' :: rest =>
    match digitsAt rest with
    | ([], rest) => .error (missingDigit rest)
    | (digits, rest) => .ok (some digits, rest)
  | cs => .ok (none, cs)

/-- The digits in front of a point, of which the first is no zero unless it is the only one. -/
def readWhole (negative : Bool) (cs : List Char) : Except Flaw (List Char × List Char) :=
  match digitsAt cs with
  | ([], rest) =>
    .error (if negative then missingDigit rest
      else .next (if rest.isEmpty then .endInValue else .noValue) rest)
  | ('0' :: d :: digits, rest) => .error (.next .badNumber (d :: digits ++ rest))
  | (digits, rest) => .ok (digits, rest)

def readNumeral (cs : List Char) : Except Flaw (Numeral × List Char) := do
  let (negative, cs) := match cs with
    | '-' :: rest => (true, rest)
    | cs => (false, cs)
  let (whole, cs) ← readWhole negative cs
  let (fraction, cs) ← readFraction cs
  let (exponent, cs) ← readExponent cs
  return (⟨negative, whole, fraction, exponent⟩, cs)

def hexValue (c : Char) : Option Nat :=
  if c.isDigit then some (digitValue c)
  else if 'a' ≤ c ∧ c ≤ 'f' then some (c.toNat - 'a'.toNat + 10)
  else if 'A' ≤ c ∧ c ≤ 'F' then some (c.toNat - 'A'.toNat + 10)
  else none

def hexQuad (a b c d : Char) : Option Nat := do
  return (((← hexValue a) * 16 + (← hexValue b)) * 16 + (← hexValue c)) * 16 + (← hexValue d)

def simpleEscape : Char → Option Char
  | '"' => some '"'
  | '\\' => some '\\'
  | '/' => some '/'
  | 'b' => some '\x08'
  | 'f' => some '\x0c'
  | 'n' => some '\n'
  | 'r' => some '\r'
  | 't' => some '\t'
  | _ => none

/-- The code units of a string up to its closing quote. -/
def stringUnits : List Char → Except Flaw (List Nat × List Char)
  | [] => .error (.next .endInString [])
  | '"' :: rest => .ok ([], rest)
  | '\\' :: 'u' :: a :: b :: c :: d :: rest =>
    match hexQuad a b c d with
    | none => .error (.last .badEscape rest)
    | some unit => do
      let (units, rest) ← stringUnits rest
      return (unit :: units, rest)
  | '\\' :: e :: rest =>
    match simpleEscape e with
    | none => .error (if e == 'u' then .next .endInString [] else .next .badEscape (e :: rest))
    | some unit => do
      let (units, rest) ← stringUnits rest
      return (unit.toNat :: units, rest)
  | c :: rest =>
    if c == '\\' then .error (.next .endInString [])
    else if c.toNat < 0x20 then .error (.next .controlCharacter (c :: rest))
    else do
      let (units, rest) ← stringUnits rest
      return (c.toNat :: units, rest)

def isHighSurrogate (n : Nat) : Bool := 0xd800 ≤ n && n ≤ 0xdbff

def isLowSurrogate (n : Nat) : Bool := 0xdc00 ≤ n && n ≤ 0xdfff

/-- Joins surrogate pairs; `none` if one stands alone. -/
def joinUnits : List Nat → Option (List Char)
  | [] => some []
  | high :: low :: rest =>
    if isHighSurrogate high then
      if isLowSurrogate low then
        (joinUnits rest).map
          (Char.ofNat ((high - 0xd800) * 0x400 + (low - 0xdc00) + 0x10000) :: ·)
      else none
    else if isLowSurrogate high then none
    else (joinUnits (low :: rest)).map (Char.ofNat high :: ·)
  | [unit] => if isHighSurrogate unit || isLowSurrogate unit then none else some [Char.ofNat unit]

/-- What was read, and what follows it unless the text is malformed. -/
abbrev Read (α : Type) := α × Except Flaw (List Char)

def malformed (flaw : Flaw) : Read Source := (.unreadable flaw (some flaw), .error flaw)

def flawOf (after : Except Flaw (List Char)) : Option Flaw :=
  match after with
  | .ok _ => none
  | .error flaw => some flaw

def readString (cs : List Char) : Read Source :=
  match stringUnits cs with
  | .error flaw => malformed flaw
  | .ok (units, rest) =>
    match joinUnits units with
    | some chars => (.text (String.ofList chars), .ok rest)
    | none => (.unreadable (.last .loneSurrogate rest) none, .ok rest)

/-- The rest of a word that stands for a value. -/
def readWord (value : Source) : List Char → List Char → Read Source
  | [], cs => (value, .ok cs)
  | _ :: _, [] => malformed (.next .endInValue [])
  | w :: word, c :: cs =>
    if c = w then readWord value word cs else malformed (.next .noWord (c :: cs))

def readNumber (cs : List Char) : Read Source :=
  match readNumeral cs with
  | .error flaw => malformed flaw
  | .ok (numeral, rest) =>
    match numeral.number? with
    | some n => (.number n, .ok rest)
    | none => (.unreadable (.last .numberTooLarge rest) none, .ok rest)

def mostContainers : Nat := 127

/-- A container, unless it lies too deep. -/
def atDepth (depth : Nat) (inside : List Char) (source : Source) : Source :=
  if depth ≤ mostContainers then source
  else .unreadable (.last .tooDeep inside) source.flaw?

/-- Why something that ends or goes on with a comma does neither. -/
def endFlaw (atEnd otherwise : Fault) (cs : List Char) : Flaw :=
  .next (if cs.isEmpty then atEnd else otherwise) cs

mutual

/-- The value at the start of the text, and what follows it. -/
def readValue : Nat → Nat → List Char → Read Source
  | 0, _, _ => malformed (.unplaced .endInValue)
  | fuel + 1, depth, cs =>
    match skipBlank cs with
    | '\x7b' :: rest =>
      let (members, after) := readMembers fuel (depth + 1) true rest
      (atDepth (depth + 1) rest (.table members (flawOf after)), after)
    | '[' :: rest =>
      let (items, after) := readItems fuel (depth + 1) true rest
      (atDepth (depth + 1) rest (.list items (flawOf after)), after)
    | '"' :: rest => readString rest
    | 'n' :: rest => readWord .nothing ['u', 'l', 'l'] rest
    | 't' :: rest => readWord (.bool true) ['r', 'u', 'e'] rest
    | 'f' :: rest => readWord (.bool false) ['a', 'l', 's', 'e'] rest
    | cs => readNumber cs

def readItems : Nat → Nat → Bool → List Char → Read (List Source)
  | 0, _, _, _ => ([], .error (.unplaced .endInList))
  | fuel + 1, depth, first, cs =>
    match skipBlank cs with
    | [] => ([], .error (.next (if first then .endInList else .endInValue) []))
    | ']' :: rest => ([], if first then .ok rest else .error (.next .trailingComma (']' :: rest)))
    | cs =>
      match readValue fuel depth cs with
      | (v, .error flaw) => ([v], .error flaw)
      | (v, .ok rest) =>
        match skipBlank rest with
        | ',' :: rest =>
          let (items, after) := readItems fuel depth false rest
          (v :: items, after)
        | ']' :: rest => ([v], .ok rest)
        | rest => ([v], .error (endFlaw .endInList .noListEnd rest))

def readMembers : Nat → Nat → Bool → List Char → Read (List (Source × Source))
  | 0, _, _, _ => ([], .error (.unplaced .endInObject))
  | fuel + 1, depth, first, cs =>
    match skipBlank cs with
    | [] => ([], .error (.next (if first then .endInObject else .endInValue) []))
    | '\x7d' :: rest =>
      ([], if first then .ok rest else .error (.next .trailingComma ('\x7d' :: rest)))
    | '"' :: rest =>
      match readString rest with
      | (_, .error flaw) => ([], .error flaw)
      | (key, .ok rest) =>
        match skipBlank rest with
        | ':' :: rest =>
          match readValue fuel depth rest with
          | (v, .error flaw) => ([(key, v)], .error flaw)
          | (v, .ok rest) =>
            match skipBlank rest with
            | ',' :: rest =>
              let (members, after) := readMembers fuel depth false rest
              ((key, v) :: members, after)
            | '\x7d' :: rest => ([(key, v)], .ok rest)
            | rest => ([(key, v)], .error (endFlaw .endInObject .noObjectEnd rest))
        | rest =>
          let flaw := endFlaw .endInObject .noColon rest
          ([(key, .unreadable flaw (some flaw))], .error flaw)
    | cs => ([], .error (.next .keyNotText cs))

end

structure Reading where
  source : Source
  /-- The flaw behind the value, where only blanks may follow. -/
  flaw : Option Flaw

def read (text : String) : Reading :=
  let cs := text.toList
  match readValue (2 * cs.length + 2) 0 cs with
  | (source, .error flaw) => ⟨source, some flaw⟩
  | (source, .ok rest) =>
    match skipBlank rest with
    | [] => ⟨source, none⟩
    | rest => ⟨source, some (.next .trailingText rest)⟩

end Rulebook.Json
