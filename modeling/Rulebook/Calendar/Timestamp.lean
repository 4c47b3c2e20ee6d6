import Rulebook.Calendar.Date

/-!
# Written timestamps

Dates as in RFC 3339: a date, `T` or a blank, a time with an optional fraction, and `Z` or an offset.
The first thing that does not fit decides the fault. The second 60 is the second 59 once its
fraction is dropped.
-/

namespace Rulebook.Calendar

set_option autoImplicit false

inductive Fault where
  | outOfRange
  | invalid
  | tooShort
  | tooLong
deriving DecidableEq, Repr

def Fault.message : Fault → String
  | .outOfRange => "input is out of range"
  | .invalid => "input contains invalid characters"
  | .tooShort => "premature end of input"
  | .tooLong => "trailing input"

abbrev Reader (α : Type) := List Char → Except Fault (α × List Char)

def byteCount (cs : List Char) : Nat := cs.foldl (fun n c => n + c.utf8Size) 0

def number (digits : List Char) : Nat := digits.foldl (fun n c => n * 10 + (c.toNat - '0'.toNat)) 0

/-- Exactly `count` digits; a text that ends too early is invalid. -/
def readDigits (count : Nat) : Reader Nat := fun cs =>
  let digits := cs.take count
  if digits.length = count && digits.all Char.isDigit then .ok (number digits, cs.drop count)
  else .error .invalid

def readChar (allowed : List Char) (cs : List Char) : Except Fault (List Char) :=
  match cs with
  | [] => .error .invalid
  | c :: rest => if c ∈ allowed then .ok rest else .error .invalid

/-- A reader in front of which at least so many bytes must be left. -/
def needing {α : Type} (count : Nat) (read : Reader α) : Reader α := fun cs =>
  if byteCount cs < count then .error .tooShort else read cs

def readDate : Reader Date := fun cs => do
  let (year, cs) ← readDigits 4 cs
  let cs ← readChar ['-'] cs
  let (month, cs) ← readDigits 2 cs
  let cs ← readChar ['-'] cs
  let (day, cs) ← readDigits 2 cs
  let date : Date := ⟨year, month, day⟩
  if date.valid then return (date, cs) else throw .outOfRange

/-- Skips a point and the digits after it. -/
def skipFraction (cs : List Char) : Except Fault (List Char) :=
  match cs with
  | '.' :: rest => do
    let (_, rest) ← needing 1 (readDigits 1) rest
    return rest.dropWhile Char.isDigit
  | cs => .ok cs

/-- The hour, the minute and the second. -/
def readTime : Reader (Nat × Nat × Nat) := fun cs => do
  let (hour, cs) ← readDigits 2 cs
  let cs ← readChar [':'] cs
  let (minute, cs) ← readDigits 2 cs
  let cs ← readChar [':'] cs
  let (second, cs) ← readDigits 2 cs
  let cs ← skipFraction cs
  if hour < 24 && minute < 60 && second ≤ 60 then return ((hour, minute, min second 59), cs)
  else throw .outOfRange

def readMinutes : Reader Nat := fun cs => do
  let (minutes, cs) ← needing 2 (readDigits 2) cs
  if minutes < 60 then return (minutes, cs) else throw .outOfRange

/-- The offset in seconds. -/
def readOffset : Reader Int := fun cs =>
  match cs with
  | 'Z' :: rest | 'z' :: rest => .ok (0, rest)
  | cs => do
    if cs.isEmpty then throw .tooShort
    let rest ← readChar ['+', '-', '\u2212'] cs
    let (hours, rest) ← needing 2 (readDigits 2) rest
    if rest.isEmpty then throw .tooShort
    let rest ← readChar [':'] rest
    let (minutes, rest) ← readMinutes rest
    let seconds : Int := hours * 3600 + minutes * 60
    return (if cs.head? == some '+' then seconds else -seconds, rest)

/-- The bytes of a timestamp up to its seconds. -/
def leastBytes : Nat := 19

/-- The instant of a written timestamp, in whole seconds. -/
def parseTimestamp (text : String) : Except Fault Int := do
  let (date, cs) ← needing leastBytes readDate text.toList
  let cs ← readChar ['T', 't', ' '] cs
  let ((hour, minute, second), cs) ← readTime cs
  let (offset, cs) ← readOffset cs
  if !cs.isEmpty then throw .tooLong
  if 86400 ≤ offset.natAbs then throw .outOfRange
  return DateTime.toSeconds ⟨date, hour, minute, second⟩ - offset

end Rulebook.Calendar
