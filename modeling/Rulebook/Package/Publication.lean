import Rulebook.Disk.Basic
import Rulebook.Package.Basic
import Rulebook.Package.Error

/-!
# Publishing packages

The packages are written into a staging directory beside the output directory, then the packages that
were published before are set aside, and then the new ones are moved into place. When one of these steps
fails, the moves made so far are taken back. Of the output directory only the files whose names end in
`.json` are touched.
-/

namespace Rulebook

set_option autoImplicit false

structure Published where
  agent : String
  path : Path
  /-- The digest of the file. -/
  fileDigest : String
  sourceDigest : String
deriving DecidableEq

/-- What has become of a list of moves: those made, and the first that failed. -/
structure Moves where
  disk : Disk
  made : List (Path × Path)
  failed : Option ((Path × Path) × DiskError)

namespace Publication

abbrev Outcome (α : Type) := Except CompileError α × Disk

/-- The directory beside the output directory. -/
def parentOf (output : Path) : Path :=
  match output.parent? with
  | some above => if above.text.isEmpty then ⟨"."⟩ else above
  | none => ⟨"."⟩

def stagingOf (output : Path) : Path :=
  (parentOf output).join ⟨"." ++ output.fileName?.getD "packages" ++ ".staging"⟩

def freshOf (output : Path) : Path := (stagingOf output).join ⟨"new"⟩

def previousOf (output : Path) : Path := (stagingOf output).join ⟨"previous"⟩

def makeDirectories (p : Path) (d : Disk) : Outcome Unit :=
  match Disk.makeDirectories (p.text.length + 1) p d with
  | (.ok (), d) => (.ok (), d)
  | (.error e, d) => (.error (.io p e.message), d)

/-- Creates empty directories for the new packages and for those set aside. -/
def prepare (output : Path) (d : Disk) : Outcome Unit :=
  match makeDirectories (parentOf output) d with
  | (.error e, d) => (.error e, d)
  | (.ok (), d) =>
    let staging := stagingOf output
    match if d.contains staging then d.removeDirectory staging else .ok d with
    | .error e => (.error (.io staging e.message), d)
    | .ok d =>
      match makeDirectories (freshOf output) d with
      | (.error e, d) => (.error e, d)
      | (.ok (), d) => makeDirectories (previousOf output) d

def published (output : Path) (p : Package) : Published :=
  ⟨p.id, output.join ⟨p.fileName⟩, Digest.ofBytes p.bytes, p.sourceDigest⟩

def stage (output : Path) : List Package → Disk → Outcome Unit
  | [], d => (.ok (), d)
  | p :: rest, d =>
    let staged := (freshOf output).join ⟨p.fileName⟩
    match d.write staged p.bytes with
    | .ok d => stage output rest d
    | .error e => (.error (.io staged e.message), d)

/-- The packages in the output directory. -/
def existing (output : Path) (d : Disk) : Except DiskError (List Path) := do
  let paths := (← d.names output).map fun name => output.join ⟨name⟩
  return paths.filter fun p => d.isFile p && p.extension? == some "json"

def moveAll : List (Path × Path) → Disk → Moves
  | [], d => ⟨d, [], none⟩
  | (source, destination) :: rest, d =>
    match d.move source destination with
    | .error e => ⟨d, [], some ((source, destination), e)⟩
    | .ok d =>
      let moves := moveAll rest d
      { moves with made := (source, destination) :: moves.made }

/-- The paths, each with the path of its file name in a directory. -/
def inDirectory (directory : Path) (paths : List Path) : List (Path × Path) :=
  paths.filterMap fun p => p.fileName?.map fun name => (p, directory.join ⟨name⟩)

/-- Removes what was installed, and moves what was set aside back into its place. -/
def takeBack (installed setAside : List (Path × Path)) (d : Disk) : Disk :=
  let d := installed.foldl (fun d (_, p) => (d.removeFile p).toOption.getD d) d
  setAside.foldl (fun d (p, aside) => (d.move aside p).toOption.getD d) d

/-- Moves the staged packages into place. -/
def install (output : Path) (packages : List Package) (aside : Moves) : Outcome Unit :=
  let places := inDirectory (freshOf output) (packages.map fun p => output.join ⟨p.fileName⟩)
  let moves := moveAll (places.map Prod.swap) aside.disk
  match moves.failed with
  | some ((_, place), e) => (.error (.io place e.message), takeBack moves.made aside.made moves.disk)
  | none => (.ok (), moves.disk)

def commit (output : Path) (packages : List Package) (d : Disk) : Outcome Unit :=
  match makeDirectories output d with
  | (.error e, d) => (.error e, d)
  | (.ok (), d) =>
    match existing output d with
    | .error e => (.error (.io output e.message), d)
    | .ok paths =>
      let aside := moveAll (inDirectory (previousOf output) paths) d
      match aside.failed with
      | some ((path, _), e) => (.error (.io path e.message), takeBack [] aside.made aside.disk)
      | none => install output packages aside

def discard (output : Path) (d : Disk) : Disk :=
  (d.removeDirectory (stagingOf output)).toOption.getD d

/-- Stages the packages and moves them into place; the staging directory is gone afterwards. -/
def run (output : Path) (packages : List Package) (d : Disk) : Outcome Unit :=
  let (result, d) := match stage output packages d with
    | (.error e, d) => (.error e, d)
    | (.ok (), d) => commit output packages d
  (result, discard output d)

/-- Publishes all packages or none. -/
def publish (output : Path) (packages : List Package) (d : Disk) : Outcome (List Published) :=
  match prepare output d with
  | (.error e, d) => (.error e, d)
  | (.ok (), d) =>
    match run output packages d with
    | (.error e, d) => (.error e, d)
    | (.ok (), d) => (.ok (packages.map (published output)), d)

end Publication

end Rulebook
