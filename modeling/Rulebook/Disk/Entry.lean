import Rulebook.Keyed

/-!
# Directory trees

A tree of directories and files. `at?` looks a location up; `put` and `remove` change one location
and leave every other as it was.
-/

namespace Rulebook

set_option autoImplicit false

inductive Entry where
  | file (content : ByteArray)
  | directory (entries : List (String × Entry))
deriving Inhabited

/-- The names on the way from the top of a tree. -/
abbrev Location := List String

namespace Entry

def isFile : Entry → Bool
  | .file _ => true
  | .directory _ => false

def isDirectory (e : Entry) : Bool := !e.isFile

def at? : Entry → Location → Option Entry
  | e, [] => some e
  | .file _, _ :: _ => none
  | .directory entries, name :: rest =>
    match Keyed.find? name entries with
    | some e => e.at? rest
    | none => none

/-- The tree with another entry at a location in one of its directories. -/
def put : Entry → Location → Entry → Entry
  | _, [], new => new
  | .file content, _ :: _, _ => .file content
  | .directory entries, name :: rest, new =>
    match Keyed.find? name entries with
    | some e => .directory (Keyed.insert name (e.put rest new) entries)
    | none =>
      if rest.isEmpty then .directory (Keyed.insert name new entries) else .directory entries

/-- The tree without what is at a location. -/
def remove : Entry → Location → Entry
  | e, [] => e
  | .file content, _ :: _ => .file content
  | .directory entries, name :: rest =>
    if rest.isEmpty then .directory (Keyed.erase name entries)
    else
      match Keyed.find? name entries with
      | some e => .directory (Keyed.insert name (e.remove rest) entries)
      | none => .directory entries

end Entry

end Rulebook
