import Std.Time.DateTime.Timestamp
import Rulebook.Command.Places
import Rulebook.Disk.Change

/-!
# The program

Reads the places of a command into a disk, runs the command there, and makes the changes of that disk.
-/

namespace Rulebook.Program

set_option autoImplicit false

def textOf (l : Location) : String := "/" ++ "/".intercalate l

/-- What is at a location, of a directory only that it is one. -/
def readShallow (l : Location) : IO (Option Entry) := do
  let path := (← IO.currentDir) / textOf l
  if ← path.isDir then return some (.directory [])
  else if ← path.pathExists then return some (.file .empty)
  else return none

/-- What is at a location, of a directory with everything in it. -/
partial def readTree (l : Location) : IO (Option Entry) := do
  let path := (← IO.currentDir) / textOf l
  if ← path.isDir then
    let mut entries : Keyed Entry := []
    for e in ← path.readDir do
      if let some entry ← readTree (l ++ [e.fileName]) then
        entries := Keyed.insert e.fileName entry entries
    return some (.directory entries)
  else if ← path.pathExists then return some (.file (← IO.FS.readBinFile path))
  else return none

/-- Shows a location unless it is on the disk already. -/
def showLocation (d : Disk) (l : Location) : IO Disk := do
  if (d.entry? l).isSome then return d
  match ← readShallow l with
  | some e => return d.put l e
  | none => return d

/-- Shows every location on the way of a path, and gives the last one. -/
def showWay (d : Disk) (p : Path) : IO (Disk × Location) := do
  let mut d := d
  let mut l := d.start p
  for piece in Disk.pieces p do
    match piece with
    | "" | "." => pure ()
    | ".." => l := l.dropLast
    | name =>
      l := l ++ [name]
      d ← showLocation d l
  return (d, l)

/-- Shows the way of a path and everything at its end. -/
def showTree (d : Disk) (p : Path) : IO Disk := do
  let (d, l) ← showWay d p
  match ← readTree l with
  | some e => return d.put l e
  | none => return d

/-- A disk with the current directory and nothing in it. -/
def emptyDisk : IO Disk := do
  let here : Path := ⟨(← IO.currentDir).toString⟩
  let (d, l) ← showWay ⟨.directory [], []⟩ here
  return { d with here := l }

/-- The disk that a command runs on. -/
def diskOf (i : Invocation) : IO Disk := do
  let d ← showTree (← emptyDisk) i.configPlace
  match d.projectConfig (Invocation.rootOf d i.root) with
  | .ok config => (i.places config).foldlM showTree d
  | .error _ => return d

def make (change : Change) : IO Unit := do
  let here ← IO.currentDir
  match change with
  | .removed l =>
    let path := here / textOf l
    if ← path.isDir then IO.FS.removeDirAll path else IO.FS.removeFile path
  | .directory l => IO.FS.createDir (here / textOf l)
  | .file l content => IO.FS.writeBinFile (here / textOf l) content

def surroundings : IO Surroundings := do
  let now ← Std.Time.Timestamp.now
  return ⟨1, now.toSecondsSinceUnixEpoch.val, ← IO.getEnv "SOURCE_DATE_EPOCH"⟩

def usage : String :=
  "Usage: rulecard [--project-root <DIR>] [--verbose] <validate|compile|verify|list> [OPTIONS]\n"

def runInvocation (i : Invocation) : IO UInt32 := do
  let before ← diskOf i
  let (reply, after) := i.run (← surroundings) before
  (after.top.changes [] (some before.top)).forM make
  IO.print reply.output
  match reply.error with
  | none => return 0
  | some e =>
    IO.eprintln ("Error: " ++ e)
    return 1

end Rulebook.Program

open Rulebook in
def main (args : List String) : IO UInt32 := do
  match Invocation.read args with
  | .ok i => Program.runInvocation i
  | .error .version =>
    IO.print Invocation.versionText
    return 0
  | .error .help =>
    IO.print Program.usage
    return 0
  | .error .misused =>
    IO.eprint Program.usage
    return 2
