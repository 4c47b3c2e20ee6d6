import Rulebook.Yaml.Event.Grammar
import Rulebook.Yaml.Node.Scalar
import Rulebook.Yaml.Token.Lexer
import Rulebook.Number.Printed
import Rulebook.Text.Quoted

/-!
# Reading YAML values

`Node.parse` reads the only document of a text. It fails at the first problem in the order of the
text: malformed text, a reference to an unknown anchor, a value that is refused, nesting beyond 128
collections, or a key that its mapping has already. A further document is a problem of its own.

An anchor is known by the number of names that were known when it was set, so setting a name again
does not count up, and the next new name takes over its place.
-/

namespace Rulebook.Yaml

set_option autoImplicit false

/-- Where in a document a value stands. -/
inductive Place where
  | root
  | member (parent : Place) (key : String)
  | item (parent : Place) (index : Nat)
  | unnamed (parent : Place)

def Place.text : Place → String
  | .root => "."
  | .member .root key => key
  | .member parent key => parent.text ++ "." ++ key
  | .item parent index => parent.text ++ "[" ++ toString index ++ "]"
  | .unnamed .root => "?"
  | .unnamed parent => parent.text ++ ".?"

inductive Error where
  | malformed
  | duplicateKey (place : Place) (key : Node)
  | severalDocuments

/-- The key as the message about its repetition names it. -/
def keyText : Node → String
  | .null => "with null key"
  | .bool b => "with key \x60" ++ (if b then "true" else "false") ++ "\x60"
  | .number (.whole n) => "with key " ++ toString n.val
  | .number (.real d) => "with key " ++ RealStyle.key.render d
  | .infinity negative => "with key " ++ (if negative then "-.inf" else ".inf")
  | .notANumber => "with key .nan"
  | .string s => "with key " ++ Text.quoted s
  | .sequence _ | .mapping _ | .tagged .. => "in YAML map"

/-- Malformed text has no wording of its own. -/
def Error.message : Error → String
  | .malformed => "<syntax>"
  | .duplicateKey place key =>
    (match place with
      | .root => ""
      | place => place.text ++ ": ") ++ "duplicate entry " ++ keyText key
  | .severalDocuments =>
    "deserializing from YAML containing more than one document is not supported"

/-- An event whose reference is a number. -/
inductive Linked where
  | reference (id : Nat)
  | event (e : Event)

/-- The events of a document with their references looked up, and where each number leads. -/
structure Links where
  events : Array Linked
  names : List (String × Nat)
  targets : List (Nat × Nat)
  whole : Bool

def Links.add (links : Links) (e : Event) : Links :=
  if !links.whole then links
  else match e with
  | .alias name =>
    match links.names.lookup name with
    | some id => { links with events := links.events.push (.reference id) }
    | none => { links with whole := false }
  | e =>
    let place := links.events.size
    let links := { links with events := links.events.push (.event e) }
    match e.anchor with
    | none => links
    | some name =>
      let id := links.names.length
      { links with
        names := if (links.names.lookup name).isSome then
            links.names.map fun (n, i) => if n == name then (n, id) else (n, i)
          else links.names ++ [(name, id)]
        targets := (id, place) :: links.targets }

def Links.ofDocument (d : Document) : Links :=
  d.events.foldl Links.add ⟨#[], [], [], d.whole⟩

/-- How far the events have been read, and how many references have been followed. -/
structure Progress where
  place : Nat
  jumps : Nat

def mostJumps (links : Links) : Nat := links.events.size * 100

/-- The application's own tag, without its exclamation mark. -/
def ownTag (tag : Option String) : Option String :=
  match tag.map (·.toList) with
  | some ['!'] => some "!"
  | some ('!' :: rest) => some (String.ofList rest)
  | _ => none

def scalarNode (tag : Option String) (text : String) (plain tagRead : Bool) :
    Except Error Node :=
  let node? := match tag with
    | some tag =>
      if tagRead then if plain then plainNode text else some (.string text)
      else coreNode tag text
    | none => if plain then plainNode text else some (.string text)
  match node? with
  | some n => .ok n
  | none => .error .malformed

mutual

/-- Reads the value at the present place. `room` is how many collections may still be opened, and
`tagRead` says that the tag at this place has been read already. -/
def readNode (links : Links) : Nat → Nat → Place → Bool → Progress → Except Error (Node × Progress)
  | 0, _, _, _, _ => .error .malformed
  | fuel + 1, room, place, tagRead, p =>
    let tagged (tag : Option String) : Option String := if tagRead then none else ownTag tag
    let underTag (tag : String) : Except Error (Node × Progress) := do
      let (content, p) ← readNode links fuel room place true p
      return (.tagged tag content, p)
    match links.events[p.place]? with
    | none => .error .malformed
    | some (.reference id) =>
      if mostJumps links < p.jumps + 1 then .error .malformed
      else match links.targets.lookup id with
      | none => .error .malformed
      | some target => do
        let (n, q) ← readNode links fuel room place false ⟨target, p.jumps + 1⟩
        return (n, ⟨p.place + 1, q.jumps⟩)
    | some (.event (.scalar _ tag text plain)) =>
      match tagged tag with
      | some own => underTag own
      | none => do
        let n ← scalarNode tag text plain tagRead
        return (n, { p with place := p.place + 1 })
    | some (.event (.sequenceStart _ tag)) =>
      match tagged tag with
      | some own => underTag own
      | none =>
        if room = 0 then .error .malformed
        else do
          let (items, p) ←
            readItems links fuel (room - 1) place 0 { p with place := p.place + 1 }
          return (.sequence items, p)
    | some (.event (.mappingStart _ tag)) =>
      match tagged tag with
      | some own => underTag own
      | none =>
        if room = 0 then .error .malformed
        else do
          let (entries, p) ←
            readEntries links fuel (room - 1) place tagRead [] { p with place := p.place + 1 }
          return (.mapping entries, p)
    | some (.event _) => .error .malformed

def readItems (links : Links) :
    Nat → Nat → Place → Nat → Progress → Except Error (List Node × Progress)
  | 0, _, _, _, _ => .error .malformed
  | fuel + 1, room, place, index, p =>
    match links.events[p.place]? with
    | some (.event .sequenceEnd) => .ok ([], { p with place := p.place + 1 })
    | _ => do
      let (n, p) ← readNode links fuel room (.item place index) false p
      let (rest, p) ← readItems links fuel room place (index + 1) p
      return (n :: rest, p)

/-- The entries of a mapping after those read so far. A tag on a key is dropped where the mapping
itself has a tag. -/
def readEntries (links : Links) :
    Nat → Nat → Place → Bool → List (Node × Node) → Progress →
      Except Error (List (Node × Node) × Progress)
  | 0, _, _, _, _, _ => .error .malformed
  | fuel + 1, room, place, tagRead, seen, p =>
    match links.events[p.place]? with
    | some (.event .mappingEnd) => .ok (seen.reverse, { p with place := p.place + 1 })
    | first => do
      let (key, p) ← readNode links fuel room place tagRead p
      match seen.find? fun entry => entry.1.same key with
      | some (earlier, _) => throw (.duplicateKey place earlier)
      | none =>
        let inner := match first with
          | some (.event (.scalar _ _ text _)) => Place.member place text
          | _ => .unnamed place
        let (value, p) ← readNode links fuel room inner false p
        readEntries links fuel room place tagRead ((key, value) :: seen) p

end

def mostCollections : Nat := 128

def Document.node (d : Document) : Except Error Node := do
  let links := Links.ofDocument d
  let node ←
    if links.events.isEmpty && links.whole then pure .null
    else do
      let fuel := (mostCollections + 2) * (links.events.size + 8)
      let (node, _) ← readNode links fuel mostCollections .root false ⟨0, 0⟩
      pure node
  if !links.whole then throw .malformed
  if d.continued then throw .severalDocuments
  return node

/-- Reads the only document of a text. -/
def Node.parse (text : String) : Except Error Node :=
  let (tokens, whole) := Token.scan text
  let d := Document.ofTokens tokens
  if tokens.isEmpty && !whole then .error .malformed else d.node

end Rulebook.Yaml
