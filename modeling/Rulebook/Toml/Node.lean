import Rulebook.Decode.Error

/-!
# TOML values

Tables keep the order in which their keys first appear. A table is written under a header, is
implied by the header of a table inside it, comes from a dotted key, or stands between braces; this
decides where it may still be extended. Keys and values carry a mark: how many characters of the text
were left in front of them.
-/

namespace Rulebook.Toml

set_option autoImplicit false

structure Key where
  text : String
  mark : Nat
deriving DecidableEq, Repr

inductive TableKind where
  | header
  | implied
  | dotted
  | braced
deriving DecidableEq, Repr

inductive Node where
  | value (mark : Nat) (source : Source)
  | list (mark : Nat) (items : List Node)
  | table (kind : TableKind) (mark : Option Nat) (entries : List (Key × Node))
  /-- Tables under repeated headers. -/
  | tables (items : List Node)
deriving Inhabited

abbrev Entries := List (Key × Node)

namespace Entries

def get? (entries : Entries) (name : String) : Option Node :=
  (entries.find? fun (key, _) => key.text == name).map (·.2)

def add (entries : Entries) (key : Key) (node : Node) : Entries := entries ++ [(key, node)]

def replace (entries : Entries) (name : String) (node : Node) : Entries :=
  entries.map fun (k, v) => if k.text = name then (k, node) else (k, v)

def erase (entries : Entries) (name : String) : Entries := entries.filter fun (key, _) => key.text != name

variable {α : Type}

/-- Changes the table at the end of a path, if the path can be followed. Tables that are not there
yet are made on the way. Along a dotted key no table may lie that has a header of its own. -/
def at? (dotted : Bool) (change : TableKind → Entries → Option (Entries × α)) :
    List Key → TableKind → Entries → Option (Entries × α)
  | [], kind, entries => change kind entries
  | key :: path, _, entries =>
    match entries.get? key.text with
    | none => do
      let kind := if dotted then TableKind.dotted else .implied
      let (inner, a) ← at? dotted change path kind []
      return (entries.add key (.table kind none inner), a)
    | some (.table kind mark inner) =>
      if kind = .braced || (dotted && kind = .header) then none
      else do
        let (inner, a) ← at? dotted change path kind inner
        return (entries.replace key.text (.table kind mark inner), a)
    | some (.tables items) =>
      match items.getLast? with
      | some (.table kind mark inner) => do
        let (inner, a) ← at? dotted change path kind inner
        return (entries.replace key.text (.tables (items.dropLast ++ [.table kind mark inner])), a)
      | _ => none
    | some _ => none

/-- The entries with one more under a dotted key: what holds it must be the table the path starts
from, or one that came from a dotted key as well. -/
def put? (kind : TableKind) (path : List Key) (key : Key) (node : Node) (entries : Entries) :
    Option Entries :=
  let change (kind : TableKind) (entries : Entries) : Option (Entries × Unit) :=
    if (kind = .dotted) = path.isEmpty || (entries.get? key.text).isSome then none
    else some (entries.add key node, ())
  (at? true change path kind entries).map (·.1)

end Entries

namespace Node

mutual

/-- The value as decoders read it. -/
def toSource : Node → Source
  | .value _ source => source
  | .list _ items => .list (itemSources items) none
  | .table _ _ entries => .table (entrySources entries) none
  | .tables items => .list (itemSources items) none

def itemSources : List Node → List Source
  | [] => []
  | n :: rest => toSource n :: itemSources rest

def entrySources : List (Key × Node) → List (Source × Source)
  | [] => []
  | (k, n) :: rest => (.text k.text, toSource n) :: entrySources rest

end

def mark? : Node → Option Nat
  | .value mark _ | .list mark _ => some mark
  | .table _ mark _ => mark
  | .tables items =>
    match items with
    | .table _ mark _ :: _ => mark
    | _ => none

def item? (i : Nat) : Node → Option Node
  | .list _ items | .tables items => items[i]?
  | _ => none

def entry? (name : String) : Node → Option (Key × Node)
  | .table _ _ entries => entries.find? fun (key, _) => key.text == name
  | _ => none

/-- The mark of what a trail leads to; a table without a mark has that of its key. -/
def markAt (fallback : Nat) : List Decode.Step → Node → Nat
  | [], n => n.mark?.getD fallback
  | .name name :: _, n =>
    match n.entry? name with
    | some (key, _) => key.mark
    | none => n.mark?.getD fallback
  | .member name :: trail, n =>
    match n.entry? name with
    | some (key, inner) => markAt key.mark trail inner
    | none => n.mark?.getD fallback
  | .item i :: trail, n =>
    match n.item? i with
    | some inner => markAt (n.mark?.getD fallback) trail inner
    | none => n.mark?.getD fallback

end Node

end Rulebook.Toml
