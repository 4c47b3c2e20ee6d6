import Rulebook.Disk.Entry
import Rulebook.Disk.Error
import Rulebook.Disk.Path

/-!
# Disks

A disk is a directory tree with a current directory, from which relative paths start. A path is
followed piece by piece, and everything but its last piece must be a directory; so must its last
piece if a slash or a dot follows.
-/

namespace Rulebook

set_option autoImplicit false

structure Disk where
  top : Entry
  here : Location
deriving Inhabited

namespace Disk

def entry? (d : Disk) (l : Location) : Option Entry := d.top.at? l

def longestName : Nat := 255

def longestPath : Nat := 4095

def isTooLong (name : String) : Bool := longestName < name.utf8ByteSize

def checkDirectory (d : Disk) (l : Location) : Except DiskError Unit :=
  match d.entry? l with
  | some (.directory _) => .ok ()
  | some (.file _) => .error .notDirectory
  | none => .error .missing

/-- Follows one piece of a path. -/
def follow (d : Disk) (l : Location) (piece : String) : Except DiskError Location := do
  d.checkDirectory l
  match piece with
  | "" | "." => return l
  | ".." => return l.dropLast
  | name =>
    if isTooLong name then throw .nameTooLong
    else if (d.entry? (l ++ [name])).isSome then return l ++ [name]
    else throw .missing

def pieces (p : Path) : List String := (Path.slashPieces p.text.toList).map String.ofList

def checkText (p : Path) : Except DiskError Unit :=
  if p.text.toList.contains '\x00' then .error .containsNul
  else if p.text.isEmpty then .error .missing
  else if longestPath < p.text.utf8ByteSize then .error .nameTooLong
  else .ok ()

def start (d : Disk) (p : Path) : Location := if p.isAbsolute then [] else d.here

/-- Where a path leads to. -/
def locate (d : Disk) (p : Path) : Except DiskError Location := do
  checkText p
  (pieces p).foldlM d.follow (d.start p)

def fetch (d : Disk) (p : Path) : Except DiskError Entry := do
  match d.entry? (← d.locate p) with
  | some e => return e
  | none => throw .missing

def contains (d : Disk) (p : Path) : Bool := (d.fetch p).toBool

def isFile (d : Disk) (p : Path) : Bool :=
  match d.fetch p with
  | .ok e => e.isFile
  | .error _ => false

def isDirectory (d : Disk) (p : Path) : Bool :=
  match d.fetch p with
  | .ok e => e.isDirectory
  | .error _ => false

def read (d : Disk) (p : Path) : Except DiskError ByteArray := do
  match ← d.fetch p with
  | .file content => return content
  | .directory _ => throw .isDirectory

def readText (d : Disk) (p : Path) : Except DiskError String := do
  match String.fromUTF8? (← d.read p) with
  | some text => return text
  | none => throw .notText

/-- The names in a directory, in order. -/
def names (d : Disk) (p : Path) : Except DiskError (List String) := do
  match ← d.fetch p with
  | .directory entries => return Keyed.keys entries
  | .file _ => throw .notDirectory

/-- The absolute path that a path leads to. -/
def resolved (d : Disk) (p : Path) : Except DiskError Path := do
  return ⟨"/" ++ "/".intercalate (← d.locate p)⟩

/-- Where the last piece of a path goes, which may not be there yet. -/
structure Target where
  parent : Location
  name : String
  /-- A slash follows the last piece. -/
  slash : Bool
deriving DecidableEq

def Target.location (t : Target) : Location := t.parent ++ [t.name]

/-- The target of a path; `none` if its last piece is no name. -/
def target (d : Disk) (p : Path) : Except DiskError (Option Target) := do
  checkText p
  let all := pieces p
  let kept := (all.reverse.dropWhile (·.isEmpty)).reverse
  let parent ← kept.dropLast.foldlM d.follow (d.start p)
  d.checkDirectory parent
  match kept.getLast? with
  | none | some "." | some ".." => return none
  | some name => return some ⟨parent, name, kept.length < all.length⟩

def put (d : Disk) (l : Location) (e : Entry) : Disk := { d with top := d.top.put l e }

def remove (d : Disk) (l : Location) : Disk := { d with top := d.top.remove l }

/-! ## Changes -/

/-- Creates a directory in one that is there. -/
def makeDirectory (d : Disk) (p : Path) : Except DiskError Disk := do
  match ← d.target p with
  | none => throw .taken
  | some t =>
    if isTooLong t.name then throw .nameTooLong
    else if (d.entry? t.location).isSome then throw .taken
    else return d.put t.location (.directory [])

/-- Writes a file, which replaces the file that was there. -/
def write (d : Disk) (p : Path) (content : ByteArray) : Except DiskError Disk := do
  match ← d.target p with
  | none => throw .isDirectory
  | some t =>
    if isTooLong t.name then throw .nameTooLong
    if t.slash then throw .isDirectory
    match d.entry? t.location with
    | some (.directory _) => throw .isDirectory
    | _ => return d.put t.location (.file content)

def removeFile (d : Disk) (p : Path) : Except DiskError Disk := do
  let l ← d.locate p
  match d.entry? l with
  | some (.file _) => return d.remove l
  | some (.directory _) => throw .isDirectory
  | none => throw .missing

/-- Removes a directory and everything in it. -/
def removeDirectory (d : Disk) (p : Path) : Except DiskError Disk := do
  let l ← d.locate p
  d.checkDirectory l
  return d.remove l

/-- Moves a file, which replaces the file that was there. -/
def move (d : Disk) (source destination : Path) : Except DiskError Disk := do
  match ← d.target source, ← d.target destination with
  | some s, some t =>
    if isTooLong s.name then throw .nameTooLong
    match d.entry? s.location with
    | none => throw .missing
    | some (.directory _) => throw .isDirectory
    | some (.file content) =>
      if isTooLong t.name then throw .nameTooLong
      if s.slash || t.slash then throw .notDirectory
      match d.entry? t.location with
      | some (.directory _) => throw .isDirectory
      | _ =>
        if s.location = t.location then return d
        else return (d.remove s.location).put t.location (.file content)
  | _, _ => throw .busy

/-- Creates a directory and those above it, as far as they are not there; the number of components
bounds how far up that goes. What was created stays when a directory further down fails. -/
def makeDirectories : Nat → Path → Disk → Except DiskError Unit × Disk
  | 0, _, d => (.error .noTree, d)
  | fuel + 1, p, d =>
    if p.text.isEmpty then (.ok (), d)
    else
      match d.makeDirectory p with
      | .ok d => (.ok (), d)
      | .error .missing =>
        match p.parent? with
        | none => (.error .noTree, d)
        | some above =>
          match makeDirectories fuel above d with
          | (.error e, d) => (.error e, d)
          | (.ok (), d) => settle p d
      | .error _ => settle p d
where
  /-- Creates the directory itself; it may also be there already. -/
  settle (p : Path) (d : Disk) : Except DiskError Unit × Disk :=
    match d.makeDirectory p with
    | .ok d => (.ok (), d)
    | .error e => if d.isDirectory p then (.ok (), d) else (.error e, d)

end Disk

end Rulebook
