/-!
# Finite doubles

A double is a sign and a magnitude. Magnitudes number the finite values of one sign from zero
upwards, so neighbouring values have neighbouring magnitudes. Every value is a whole number of
units of `2 ^ (-1074)`; `units` gives that number, and all arithmetic here is exact arithmetic on
it followed by one rounding, `nearest`, to the closest value with ties to the even magnitude.
-/

namespace Rulebook

set_option autoImplicit false

/-- One more than the magnitude of the largest finite double. -/
def Double.ceiling : Nat := 2047 * Nat.pow 2 52

structure Double where
  negative : Bool
  magnitude : Nat
  finite : magnitude < Double.ceiling
deriving DecidableEq, Repr

namespace Double

instance : Inhabited Double := ⟨⟨false, 0, by decide⟩⟩

/-- The exponent of the last place, counted from the smallest unit. -/
def place (magnitude : Nat) : Nat := magnitude / Nat.pow 2 52 - 1

def significand (magnitude : Nat) : Nat := magnitude - place magnitude * Nat.pow 2 52

/-- The absolute value in units of `2 ^ (-1074)`. -/
def unitsOf (magnitude : Nat) : Nat := significand magnitude * Nat.pow 2 (place magnitude)

def units (d : Double) : Nat := unitsOf d.magnitude

/-- How many units make one. -/
def unitsPerOne : Nat := Nat.pow 2 1074

/-- The magnitude closest to `num / den` units, ties to the even one; it may lie beyond the
largest finite one. -/
def nearestUnits (num den : Nat) : Nat :=
  let places := (num / den).log2 - 52
  let step := den * Nat.pow 2 places
  let below := num / step
  let rest := num % step
  let up := step < 2 * rest || (2 * rest == step && below % 2 == 1)
  places * Nat.pow 2 52 + below + (if up then 1 else 0)

/-- The magnitude closest to the ratio `num / den`. -/
def nearest (num den : Nat) : Nat := nearestUnits (num * unitsPerOne) den

def ofMagnitude? (negative : Bool) (magnitude : Nat) : Option Double :=
  if h : magnitude < ceiling then some ⟨negative, magnitude, h⟩ else none

def zero (negative : Bool) : Double := ⟨negative, 0, by decide⟩

def isZero (d : Double) : Bool := d.magnitude == 0

def ofNat? (negative : Bool) (n : Nat) : Option Double := ofMagnitude? negative (nearest n 1)

/-- The product of the absolute values, rounded; `none` beyond the finite range. -/
def times? (a b : Double) : Option Double :=
  ofMagnitude? a.negative (nearestUnits (a.units * b.units) unitsPerOne)

/-- The quotient of the absolute values, rounded. -/
def over? (a b : Double) : Option Double :=
  ofMagnitude? a.negative (nearest a.units b.units)

def neg (d : Double) : Double := { d with negative := !d.negative }

/-- Equality of the numbers: the two zeros are one number. -/
def sameNumber (a b : Double) : Bool :=
  a.magnitude == b.magnitude && (a.negative == b.negative || a.magnitude == 0)

theorem sameNumber_self (d : Double) : d.sameNumber d = true := by
  simp [sameNumber]

end Double

end Rulebook
