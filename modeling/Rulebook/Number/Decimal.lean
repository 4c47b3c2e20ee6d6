import Rulebook.Number.Double

/-!
# Decimals and doubles

A decimal is `digits * 10 ^ exponent`. `Decimal.magnitude` reads it as a double, correctly rounded.
`Double.shortest` gives the shortest decimal that reads back as the double, the closest to it among
those, and of two equally close ones the one that ends in an even digit.
-/

namespace Rulebook

set_option autoImplicit false

structure Decimal where
  digits : Nat
  exponent : Int
deriving DecidableEq, Repr

namespace Decimal

def digitCount (n : Nat) : Nat := (Nat.toDigits 10 n).length

/-- The closest magnitude. Outside `10 ^ ±400` the answer does not depend on the digits, and no
large power is computed. -/
def magnitude (d : Decimal) : Nat :=
  if d.digits = 0 then 0
  else
    let top := d.exponent + digitCount d.digits
    if top < -400 then 0
    else if 400 < top then Double.ceiling
    else if d.exponent < 0 then Double.nearest d.digits (Nat.pow 10 d.exponent.natAbs)
    else Double.nearest (d.digits * Nat.pow 10 d.exponent.natAbs) 1

def toDouble? (negative : Bool) (d : Decimal) : Option Double :=
  Double.ofMagnitude? negative d.magnitude

end Decimal

namespace Double

/-- All digits of the value, which is a whole number of units of `5 ^ 1074 / 10 ^ 1074`. -/
def exactDecimal (d : Double) : Decimal := ⟨d.units * Nat.pow 5 1074, -1074⟩

/-- The two neighbours of the value among the decimals with `count` digits that read back as the
value, the better one first. -/
def candidates (d : Double) (count : Nat) : List Decimal :=
  let scaled := d.units * Nat.pow 10 400
  let length := Decimal.digitCount (scaled / unitsPerOne)
  let power := length - count
  let below := scaled / unitsPerOne / Nat.pow 10 power
  let exponent : Int := (power : Int) - 400
  let middle := (2 * below + 1) * Nat.pow 10 power * unitsPerOne
  let low : Decimal := ⟨below, exponent⟩
  let high : Decimal := ⟨below + 1, exponent⟩
  let lowFirst := 2 * scaled < middle || (2 * scaled == middle && below % 2 == 0)
  (if lowFirst then [low, high] else [high, low]).filter fun c => c.magnitude == d.magnitude

def shortest (d : Double) : Decimal :=
  if d.isZero then ⟨0, 0⟩
  else (((List.range 17).map (· + 1)).findSome? fun n => (d.candidates n).head?).getD d.exactDecimal

end Double

end Rulebook
