import Rulebook.Disk.Entry

/-!
# Changes between directory trees

What has to be done to a tree so that it becomes another one. Files that stay as they are do not show.
-/

namespace Rulebook

set_option autoImplicit false

inductive Change where
  | removed (l : Location)
  | directory (l : Location)
  | file (l : Location) (content : ByteArray)

namespace Entry

def namesIn : Option Entry → List String
  | some (.directory entries) => Keyed.keys entries
  | _ => []

def childOf (name : String) : Option Entry → Option Entry
  | some (.directory entries) => Keyed.find? name entries
  | _ => none

mutual

/-- The changes that lead to the entry from what is there now. -/
def changes (l : Location) (now : Option Entry) : Entry → List Change
  | .file content =>
    match now with
    | some (.file before) => if before = content then [] else [.file l content]
    | some (.directory _) => [.removed l, .file l content]
    | none => [.file l content]
  | .directory entries =>
    let gone := (namesIn now).filter fun name => !Keyed.contains name entries
    let made := match now with
      | some (.directory _) => []
      | some (.file _) => [.removed l, .directory l]
      | none => [.directory l]
    made ++ gone.map (fun name => .removed (l ++ [name])) ++ changesIn l now entries

def changesIn (l : Location) (now : Option Entry) : List (String × Entry) → List Change
  | [] => []
  | (name, e) :: rest => e.changes (l ++ [name]) (childOf name now) ++ changesIn l now rest

end

end Entry

end Rulebook
