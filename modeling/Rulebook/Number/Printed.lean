import Rulebook.Number.Decimal

/-!
# Printed doubles

A `RealStyle` says how the digits of a double are laid out: where positional notation ends, whether
a whole number keeps a point, how an exponent is signed, and whether zero keeps its sign.
-/

namespace Rulebook

set_option autoImplicit false

structure RealStyle where
  /-- Positional notation is used while the point stands after more places than this. -/
  lowestPoint : Int
  /-- The largest number of places before the point in positional notation. -/
  highestPoint : Int
  wholeKeepsPoint : Bool
  exponentPlus : Bool
  signedZero : Bool

namespace RealStyle

/-- Serialized JSON: `1.0`, `0.00001`, `1e-6`, `1e+16`, `-0.0`. -/
def json : RealStyle := ⟨-5, 16, true, true, true⟩

/-- Canonical JSON: `1`, `0.000001`, `1e-7`, `1e+21`, and `0` for both zeros. -/
def canonical : RealStyle := ⟨-6, 21, false, true, false⟩

/-- A number as a mapping key in a message: as in JSON, but `1e16`. -/
def key : RealStyle := ⟨-5, 16, true, false, true⟩

/-- Always positional: the number found in a message about a wrong type. -/
def plain : RealStyle := ⟨-400, 400, true, false, true⟩

def exponentText (style : RealStyle) (e : Int) : List Char :=
  'e' :: (if e < 0 then ['-'] else if style.exponentPlus then ['+'] else []) ++
    Nat.toDigits 10 e.natAbs

/-- Lays out digits, none of them a trailing zero, with the point after `point` places. -/
def layout (style : RealStyle) (digits : List Char) (point : Int) : List Char :=
  let count : Int := digits.length
  if style.lowestPoint < point ∧ point ≤ style.highestPoint then
    if point ≤ 0 then
      '0' :: '.' :: List.replicate point.natAbs '0' ++ digits
    else if point < count then
      digits.take point.natAbs ++ '.' :: digits.drop point.natAbs
    else
      digits ++ List.replicate (point - count).natAbs '0' ++
        (if style.wholeKeepsPoint then ['.', '0'] else [])
  else
    match digits with
    | [] => []
    | d :: rest =>
      d :: (if rest.isEmpty then [] else '.' :: rest) ++ style.exponentText (point - 1)

def withoutTrailingZeros (digits : List Char) : List Char :=
  (digits.reverse.dropWhile (· == '0')).reverse

def render (style : RealStyle) (d : Double) : String :=
  let sign := if d.negative && (style.signedZero || !d.isZero) then ['-'] else []
  let body :=
    if d.isZero then '0' :: (if style.wholeKeepsPoint then ['.', '0'] else [])
    else
      let shortest := d.shortest
      let digits := Nat.toDigits 10 shortest.digits
      style.layout (withoutTrailingZeros digits) (digits.length + shortest.exponent)
  String.ofList (sign ++ body)

end RealStyle

end Rulebook
