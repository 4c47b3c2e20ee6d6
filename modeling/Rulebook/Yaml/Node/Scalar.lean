import Rulebook.Yaml.Node
import Rulebook.Number.Decimal
import Rulebook.Yaml.Token.Scalar

/-!
# What a plain scalar means

A plain scalar is null, a boolean, a whole number in decimal, hexadecimal, octal or binary, a
decimal number, one of the names of the infinities and of what is no number, or else text. Digits
with a leading zero are text. Whole numbers beyond 64 bits are refused up to 128 bits and read as
doubles from there on.
-/

namespace Rulebook.Yaml

set_option autoImplicit false

def nullNames : List String := ["null", "Null", "NULL", "~"]

def boolean? (s : String) : Option Bool :=
  if s ∈ ["true", "True", "TRUE"] then some true
  else if s ∈ ["false", "False", "FALSE"] then some false
  else none

def digitOf (radix : Nat) (c : Char) : Option Nat := (hexOf c).filter (· < radix)

/-- The number written by at least one digit. -/
def digitsValue (radix : Nat) (digits : List Char) : Option Nat :=
  if digits.isEmpty then none
  else digits.foldlM (fun n c => (digitOf radix c).map (n * radix + ·)) 0

/-- Digits that start with a zero and have more after it. -/
def hasLeadingZero (cs : List Char) : Bool :=
  match cs with
  | '0' :: rest => !rest.isEmpty && rest.all Char.isDigit
  | _ => false

def wholeNumber? (cs : List Char) : Option Nat :=
  match cs with
  | '0' :: 'x' :: digits => digitsValue 16 digits
  | '0' :: 'o' :: digits => digitsValue 8 digits
  | '0' :: 'b' :: digits => digitsValue 2 digits
  | digits => if hasLeadingZero digits then none else digitsValue 10 digits

/-- A whole number with its sign. -/
def integer? (cs : List Char) : Option (Bool × Nat) :=
  match cs with
  | '+' :: rest => (wholeNumber? rest).map (false, ·)
  | '-' :: rest => (wholeNumber? rest).map (true, ·)
  | cs => (wholeNumber? cs).map (false, ·)

/-- How a whole number is read: `none` if it is refused. -/
def integerNode (negative : Bool) (n : Nat) : Option Node :=
  (WideInt.ofInt? (if negative then -(n : Int) else n)).map (.number <| .whole ·)

def fitsIn128 (negative : Bool) (n : Nat) : Bool :=
  if negative then n ≤ Nat.pow 2 127 else n < Nat.pow 2 128

/-- A decimal number without a sign: digits with an optional point and exponent. -/
def decimal? (cs : List Char) : Option Decimal := do
  let (whole, rest) := cs.span Char.isDigit
  let (fraction, rest) := match rest with
    | '.' :: rest => rest.span Char.isDigit
    | rest => ([], rest)
  if whole.isEmpty && fraction.isEmpty then none
  let digits ← digitsValue 10 (whole ++ fraction)
  let shift : Int := -fraction.length
  match rest with
  | [] => some ⟨digits, shift⟩
  | e :: rest =>
    if e != 'e' && e != 'E' then none
    let exponent ← match rest with
      | '+' :: rest => (digitsValue 10 rest).map Int.ofNat
      | '-' :: rest => (digitsValue 10 rest).map fun n => -(n : Int)
      | rest => (digitsValue 10 rest).map Int.ofNat
    some ⟨digits, shift + exponent⟩

def isInfinityName (cs : List Char) : Bool :=
  [".inf", ".Inf", ".INF"].any (·.toList == cs)

/-- A number that need not be whole, or one of the names without a finite value. -/
def real? (cs : List Char) : Option Node :=
  let finite (negative : Bool) (cs : List Char) : Option Node :=
    ((decimal? cs).bind (·.toDouble? negative)).map (.number <| .real ·)
  let unsigned (cs : List Char) : Option Node :=
    if isInfinityName cs then some (.infinity false) else finite false cs
  if [".nan", ".NaN", ".NAN"].any (·.toList == cs) then some .notANumber
  else match cs with
  | '+' :: rest => unsigned rest
  | '-' :: rest => if isInfinityName rest then some (.infinity true) else finite true rest
  | cs => unsigned cs

def withoutSign (cs : List Char) : List Char :=
  match cs with
  | '+' :: rest => rest
  | '-' :: rest => rest
  | cs => cs

/-- A whole number as a node; the inner `none` refuses it. -/
def integerReading (cs : List Char) : Option (Option Node) :=
  match integer? cs with
  | some (negative, n) =>
    match integerNode negative n with
    | some node => some (some node)
    | none => if fitsIn128 negative n then some none else none
  | none => none

/-- The value of a plain scalar; `none` if it is refused. -/
def plainNode (s : String) : Option Node :=
  let cs := s.toList
  if cs.isEmpty || s ∈ nullNames then some .null
  else match boolean? s with
  | some b => some (.bool b)
  | none =>
    match integerReading cs with
    | some reading => reading
    | none =>
      if hasLeadingZero (withoutSign cs) then some (.string s)
      else some ((real? cs).getD (.string s))

def coreTag (name : String) : String := "tag:yaml.org,2002:" ++ name

/-- The value of a scalar under a tag that is not the application's own; `none` if the text does
not suit the tag. -/
def coreNode (tag : String) (text : String) : Option Node :=
  if tag = coreTag "bool" then (boolean? text).map .bool
  else if tag = coreTag "int" then (integerReading text.toList).join
  else if tag = coreTag "float" then real? text.toList
  else if tag = coreTag "null" then if text ∈ nullNames then some .null else none
  else some (.string text)

end Rulebook.Yaml
