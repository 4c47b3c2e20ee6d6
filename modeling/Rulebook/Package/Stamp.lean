import Rulebook.Calendar.Timestamp
import Rulebook.Package.Error
import Rulebook.Text.Blank

/-!
# Build stamps

The instant of a build in whole seconds, and the version of the packages built then. Unless it is
given, the version is the format's number and the digits of the instant.
-/

namespace Rulebook

set_option autoImplicit false

open Calendar

structure Stamp where
  seconds : Int
  version : String
deriving DecidableEq, Repr

namespace Stamp

def formatNumber : Nat := 1

def versionAt (seconds : Int) : String :=
  toString formatNumber ++ "." ++ (DateTime.ofSeconds seconds).digits

def ofSeconds (seconds : Int) : Stamp := ⟨seconds, versionAt seconds⟩

def buildDate (stamp : Stamp) : String := (DateTime.ofSeconds stamp.seconds).text

def withVersion (stamp : Stamp) (version : String) : Stamp := { stamp with version }

def ofTimestamp (value : String) : Except CompileError Stamp :=
  match parseTimestamp value with
  | .ok seconds => .ok (ofSeconds seconds)
  | .error fault => .error (.invalidBuildDate value fault.message)

/-- A whole number of 64 bits with an optional sign. -/
def parseSeconds (cs : List Char) : Option Int :=
  let digits (negative : Bool) (cs : List Char) : Option Int :=
    if cs.isEmpty || !cs.all Char.isDigit then none
    else
      let n : Int := if negative then -(number cs : Int) else number cs
      if -0x8000000000000000 ≤ n && n < 0x8000000000000000 then some n else none
  match cs with
  | '+' :: rest => digits false rest
  | '-' :: rest => digits true rest
  | cs => digits false cs

def ofEpoch (value : String) : Except CompileError Stamp :=
  match parseSeconds (Text.trim value).toList with
  | none => .error (.invalidBuildDate value "expected integer seconds since the Unix epoch")
  | some seconds =>
    if inRange seconds then .ok (ofSeconds seconds)
    else .error (.invalidBuildDate value "timestamp out of range")

/-- The date that is asked for, or else the one of the environment unless it is blank, or else the
present. -/
def resolve (explicit environment : Option String) (present : Int) : Except CompileError Stamp :=
  match explicit with
  | some value => ofTimestamp value
  | none =>
    match environment with
    | some value => if Text.isBlankText value then .ok (ofSeconds present) else ofEpoch value
    | none => .ok (ofSeconds present)

end Stamp

end Rulebook
