/-!
# Paths

A path is kept as it was written. Its components leave out doubled and trailing slashes and every
single dot but a leading one; paths are ordered component by component.
-/

namespace Rulebook

set_option autoImplicit false

structure Path where
  text : String
deriving DecidableEq, Repr, Inhabited

namespace Path

inductive Component where
  | root
  | here
  | up
  | name (s : String)
deriving DecidableEq, Repr

def Component.text : Component → String
  | .root => "/"
  | .here => "."
  | .up => ".."
  | .name s => s

def Component.rank : Component → Nat
  | .root => 0
  | .here => 1
  | .up => 2
  | .name _ => 3

def Component.before : Component → Component → Bool
  | .name a, .name b => a < b
  | a, b => a.rank < b.rank

/-- The pieces of a text between slashes. -/
def slashPieces : List Char → List (List Char)
  | [] => [[]]
  | '/' :: rest => [] :: slashPieces rest
  | c :: rest =>
    match slashPieces rest with
    | [] => [[c]]
    | p :: ps => (c :: p) :: ps

def namedComponents (pieces : List (List Char)) : List Component :=
  pieces.filterMap fun p =>
    match p with
    | [] | ['.'] => none
    | ['.', '.'] => some .up
    | p => some (.name (String.ofList p))

def isAbsolute (p : Path) : Bool := p.text.toList.head? == some '/'

def components (p : Path) : List Component :=
  let pieces := slashPieces p.text.toList
  let lead := if p.isAbsolute then [.root] else if pieces.head? == some ['.'] then [.here] else []
  lead ++ namedComponents pieces

/-- The path with a further one appended; an absolute one takes its place. -/
def join (base further : Path) : Path :=
  if further.isAbsolute || base.text.isEmpty then further
  else if base.text.toList.getLast? == some '/' then ⟨base.text ++ further.text⟩
  else ⟨base.text ++ "/" ++ further.text⟩

/-- The last component, if it is a name. -/
def fileName? (p : Path) : Option String :=
  match p.components.getLast? with
  | some (.name s) => some s
  | _ => none

/-- What is left of a path, piece by piece, after its last component and the slashes and dots behind
and before that; the first piece stands for itself. -/
def parentPieces (pieces : List (List Char)) : List (List Char) :=
  let withoutEnd (ps : List (List Char)) : List (List Char) :=
    (ps.reverse.dropWhile fun p => p.isEmpty || p == ['.']).reverse
  withoutEnd (withoutEnd pieces).dropLast

def ofPieces (pieces : List (List Char)) : Path :=
  ⟨"/".intercalate (pieces.map String.ofList)⟩

/-- The path without its last component. -/
def parent? (p : Path) : Option Path :=
  match p.components with
  | [] | [.root] => none
  | [_] => some ⟨""⟩
  | _ =>
    match slashPieces p.text.toList with
    | [] => none
    | first :: rest =>
      match first, parentPieces rest with
      | [], [] => some ⟨"/"⟩
      | first, rest => some (ofPieces (first :: rest))

/-- What follows the last dot of the file name, unless the name starts with that dot. -/
def extension? (p : Path) : Option String :=
  p.fileName?.bind fun name =>
    let after := (name.toList.reverse.takeWhile (· != '.')).reverse
    if after.length + 1 < name.length then some (String.ofList after) else none

def componentsBefore : List Component → List Component → Bool
  | _, [] => false
  | [], _ :: _ => true
  | a :: as, b :: bs => a.before b || (a == b && componentsBefore as bs)

def before (p q : Path) : Bool := componentsBefore p.components q.components

end Path

end Rulebook
