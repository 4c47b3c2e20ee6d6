import Rulebook.Card.Error
import Rulebook.Disk.Basic

/-!
# Finding cards

The card files of a directory are the files at any depth in it whose names end in `.yaml` or `.yml`,
hidden ones included. Their paths start with the directory as it was given, but the current directory
adds nothing to a path. What cannot be seen to be a file, because its path is too long, is passed over.
-/

namespace Rulebook.Discovery

set_option autoImplicit false

def endings : List String := [".yaml", ".yml"]

def isCardPath (p : Path) : Bool := endings.any fun e => e.toList.isSuffixOf p.text.toList

def inside (base : Path) (name : String) : Path :=
  if base.components = [.here] then ⟨name⟩ else base.join ⟨name⟩

mutual

/-- All files of an entry, by their paths. -/
def files (path : Path) : Entry → List Path
  | .file _ => [path]
  | .directory entries => filesIn path entries

def filesIn (base : Path) : List (String × Entry) → List Path
  | [] => []
  | (name, e) :: rest => files (inside base name) e ++ filesIn base rest

end

/-- Follows one piece of the directory's path. -/
def follow (d : Disk) (base : Path) (piece : String) : Option Path :=
  let next := inside base piece
  if piece = "." || piece = ".." || d.contains next then some next else none

/-- The path that the paths of the files start with; `none` if it leads nowhere. -/
def base? (d : Disk) (root : Path) : Option Path :=
  let pieces := Disk.pieces root
  if root.isAbsolute then (pieces.drop 1).foldlM (follow d) ⟨"/"⟩
  else pieces.foldlM (follow d) ⟨"."⟩

def inOrder (paths : List Path) : List Path := paths.mergeSort fun p q => !q.before p

/-- The card files of a directory, in order. -/
def cardPaths (d : Disk) (root : Path) : Except CardError (List Path) :=
  match d.fetch root with
  | .ok (.directory entries) =>
    match base? d root with
    | some base => .ok (inOrder ((filesIn base entries).filter fun p => isCardPath p && d.isFile p))
    | none => .ok []
  | _ => .error (.io root "rules directory does not exist")

end Rulebook.Discovery
