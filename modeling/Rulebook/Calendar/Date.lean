/-!
# Dates

The Gregorian calendar over all years, and instants as seconds since the start of 1970. Days are
counted from the first day of the year one.
-/

namespace Rulebook.Calendar

set_option autoImplicit false

structure Date where
  year : Int
  month : Nat
  day : Nat
deriving DecidableEq, Repr

structure DateTime where
  date : Date
  hour : Nat
  minute : Nat
  second : Nat
deriving DecidableEq, Repr

def isLeap (year : Int) : Bool := year % 4 == 0 && (year % 100 != 0 || year % 400 == 0)

def monthLengths (year : Int) : List Nat :=
  [31, if isLeap year then 29 else 28, 31, 30, 31, 30, 31, 31, 30, 31, 30, 31]

def yearLength (year : Int) : Nat := if isLeap year then 366 else 365

/-- The days in front of a year. -/
def daysBeforeYear (year : Int) : Int :=
  let y := year - 1
  365 * y + y / 4 - y / 100 + y / 400

def daysBeforeMonth (year : Int) (month : Nat) : Nat := ((monthLengths year).take (month - 1)).foldl (· + ·) 0

def Date.valid (d : Date) : Bool :=
  1 ≤ d.month && d.month ≤ 12 && 1 ≤ d.day && d.day ≤ (monthLengths d.year).getD (d.month - 1) 0

/-- The days in front of a date. -/
def Date.toDays (d : Date) : Int :=
  daysBeforeYear d.year + daysBeforeMonth d.year d.month + (d.day - 1 : Nat)

/-- The year that a day lies in: four centuries have 146097 days, which gives it within one. -/
def yearOfDay (day : Int) : Int :=
  let guess := day * 400 / 146097 + 1
  if day < daysBeforeYear guess then guess - 1
  else if daysBeforeYear (guess + 1) ≤ day then guess + 1
  else guess

/-- The month and the day in it from the days in front of it. -/
def splitMonths : Nat → List Nat → Nat → Nat × Nat
  | month, [], rest => (month, rest + 1)
  | month, length :: lengths, rest =>
    if rest < length then (month, rest + 1) else splitMonths (month + 1) lengths (rest - length)

def Date.ofDays (day : Int) : Date :=
  let year := yearOfDay day
  let (month, inMonth) := splitMonths 1 (monthLengths year) (day - daysBeforeYear year).toNat
  ⟨year, month, inMonth⟩

def secondsPerDay : Int := 86400

/-- The first day of 1970. -/
def epochDay : Int := 719162

def DateTime.toSeconds (t : DateTime) : Int :=
  (t.date.toDays - epochDay) * secondsPerDay + (t.hour * 3600 + t.minute * 60 + t.second : Nat)

def DateTime.ofSeconds (seconds : Int) : DateTime :=
  let rest := (seconds % secondsPerDay).toNat
  ⟨.ofDays (seconds / secondsPerDay + epochDay), rest / 3600, rest / 60 % 60, rest % 60⟩

def leastYear : Int := -262143

def greatestYear : Int := 262142

/-- Whether an instant lies in the years that dates are kept for. -/
def inRange (seconds : Int) : Bool :=
  let year := (DateTime.ofSeconds seconds).date.year
  leastYear ≤ year && year ≤ greatestYear

/-- The number with zeros in front up to a width. -/
def padded (width n : Nat) : List Char :=
  let digits := Nat.toDigits 10 n
  List.replicate (width - digits.length) '0' ++ digits

/-- Four digits, and a sign outside the years 0 to 9999. -/
def yearText (year : Int) : List Char :=
  if year < 0 then '-' :: padded 4 year.natAbs
  else if 9999 < year then '+' :: padded 4 year.natAbs
  else padded 4 year.natAbs

/-- The form `2026-10-18T09:05:03Z`. -/
def DateTime.text (t : DateTime) : String :=
  String.ofList (yearText t.date.year ++ '-' :: padded 2 t.date.month ++ '-' :: padded 2 t.date.day ++
    'T' :: padded 2 t.hour ++ ':' :: padded 2 t.minute ++ ':' :: padded 2 t.second ++ ['Z'])

/-- The form `20261018090503`. -/
def DateTime.digits (t : DateTime) : String :=
  String.ofList (yearText t.date.year ++ padded 2 t.date.month ++ padded 2 t.date.day ++
    padded 2 t.hour ++ padded 2 t.minute ++ padded 2 t.second)

end Rulebook.Calendar
