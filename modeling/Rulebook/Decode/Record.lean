import Rulebook.Decode.Error
import Rulebook.Keyed

/-!
# Decoders

Decoders for texts, flags, lists, keyed lists, plain JSON values and records. A record is decoded
member by member in the order of the text: an unknown or repeated name is reported before its value
is read, and a missing field only after the last member.
-/

namespace Rulebook.Decode

set_option autoImplicit false

variable {α : Type}

abbrev Decoder (α : Type) := Source → Except Error α

def text : Decoder String := fun source =>
  match source.bare with
  | .text s => .ok s
  | s => .error (mismatch "a string" s)

def flag : Decoder Bool := fun source =>
  match source.bare with
  | .bool b => .ok b
  | s => .error (mismatch "a boolean" s)

/-- The value, unless there is a flaw behind it. -/
def endOf (flaw : Option Json.Flaw) (value : α) : Except Error α :=
  match flaw with
  | none => .ok value
  | some flaw => .error (.malformed flaw)

/-- The result for a part of a value. -/
def inside (step : Step) (result : Except Error α) : Except Error α :=
  result.mapError (.within step)

def items (item : Decoder α) : Nat → List Source → Except Error (List α)
  | _, [] => .ok []
  | i, s :: rest => do return (← inside (.item i) (item s)) :: (← items item (i + 1) rest)

def list (dialect : Dialect) (item : Decoder α) : Decoder (List α) := fun source =>
  match source.bare with
  | .list sources flaw => do endOf flaw (← items item 0 sources)
  | .nothing =>
    if dialect.nothingIsEmpty then .ok [] else .error (mismatch "a sequence" .nothing)
  | s => .error (mismatch "a sequence" s)

def keyedMember (item : Decoder α) (table : Keyed α) (member : Source × Source) :
    Except Error (Keyed α) := do
  let key ← text member.1
  let value ← inside (.member key) (item member.2)
  return table.insert key value

/-- A later member replaces an earlier one with the same key. -/
def keyed (dialect : Dialect) (item : Decoder α) : Decoder (Keyed α) := fun source =>
  match source.bare with
  | .table members flaw => do endOf flaw (← members.foldlM (keyedMember item) [])
  | .nothing =>
    if dialect.nothingIsEmpty then .ok [] else .error (mismatch "a map" .nothing)
  | s => .error (mismatch "a map" s)

def keyText (expected : String) (source : Source) : Except Error String :=
  match source.bare with
  | .text s => .ok s
  | s => .error (mismatch expected s)

mutual

/-- Any value without tags; what is no number becomes null. -/
def json : Decoder Json
  | .unreadable flaw _ => .error (.malformed flaw)
  | .nothing => .ok .null
  | .bool b => .ok (.bool b)
  | .number n => .ok (.number n)
  | .limit _ => .ok .null
  | .text s => .ok (.string s)
  | .list items flaw => do endOf flaw (.array (← jsonItems items))
  | .table members flaw => do endOf flaw (.object (← jsonMembers "a string key" [] members))
  | .tagged _ => .error (.wrongType .tagged "any valid JSON value")

def jsonItems : List Source → Except Error (List Json)
  | [] => .ok []
  | v :: rest => do return (← json v) :: (← jsonItems rest)

def jsonMembers (expected : String) (table : Keyed Json) :
    List (Source × Source) → Except Error (Keyed Json)
  | [] => .ok table
  | (k, v) :: rest => do
    let key ← keyText expected k
    let value ← json v
    jsonMembers "a string" (table.insert key value) rest

end

/-- How a record is read: `put` decodes the value of a named field into the record so far, which
starts out as `blank`. -/
structure Layout (α : Type) where
  name : String
  fields : List String
  optional : List String
  /-- A name that is not a field is an error, and not skipped. -/
  strict : Bool
  blank : α
  put : α → String → Decoder α

namespace Layout

def step (layout : Layout α) (progress : α × List String) (member : Source × Source) :
    Except Error (α × List String) := do
  let name ← keyText "field identifier" member.1
  if name ∈ layout.fields then
    if name ∈ progress.2 then throw (.within (.name name) (.duplicateField name))
    let value ← inside (.member name) (layout.put progress.1 name member.2)
    return (value, name :: progress.2)
  else if layout.strict then
    throw (.within (.name name) (.unknownField name layout.fields))
  else endOf member.2.flaw? progress

def firstMissing (layout : Layout α) (seen : List String) : Option String :=
  layout.fields.find? fun f => f ∉ seen && f ∉ layout.optional

def ofMembers (layout : Layout α) (members : List (Source × Source)) (flaw : Option Json.Flaw) :
    Except Error α := do
  let (value, seen) ← endOf flaw (← members.foldlM layout.step (layout.blank, []))
  match layout.firstMissing seen with
  | some name => throw (.missingField name)
  | none => return value

/-- The fields in order from the items in order. -/
def ofItems (layout : Layout α) (dialect : Dialect) (items : List Source)
    (flaw : Option Json.Flaw) : Except Error α := do
  let value ← (layout.fields.zip items).zipIdx.foldlM
    (fun value ((name, item), i) => inside (.item i) (layout.put value name item)) layout.blank
  let count := layout.fields.length
  if items.length < count then
    let value ← endOf flaw value
    let absent := layout.fields.drop items.length
    match absent.findIdx? (· ∉ layout.optional) with
    | some i =>
      throw (.wrongLength (items.length + i)
        (layout.name ++ " with " ++ toString count ++
          (if count == 1 then " element" else " elements")))
    | none => return value
  else if count < items.length then
    match dialect.surplus with
    | .malformed => throw (.malformed (.unplaced .trailingText))
    | .tooMany => throw (.wrongLength items.length "fewer elements in array")
    | .ignored => endOf flaw value
  else
    endOf flaw value

def decode (layout : Layout α) (dialect : Dialect) : Decoder α := fun source =>
  match source.bare with
  | .table members flaw => layout.ofMembers members flaw
  | .list items flaw =>
    if dialect.listsAsRecords then layout.ofItems dialect items flaw
    else .error (mismatch layout.name (.list items flaw))
  | .nothing =>
    if dialect.nothingIsEmpty then layout.ofMembers [] none
    else .error (mismatch layout.name .nothing)
  | s => .error (mismatch layout.name s)

end Layout

/-- One of some named alternatives, given by its name or as a table of its name and nothing. -/
def alternative (dialect : Dialect) (allowed : List String) (parse : String → Option α) :
    Decoder α := fun source =>
  let named (name : String) : Except Error α :=
    match parse name with
    | some a => .ok a
    | none => .error (.unknownVariant name allowed)
  match source.bare with
  | .text s => named s
  | .table members flaw =>
    match dialect.alternative, members with
    | some _, [(k, v)] => do
      let a ← named (← keyText "variant identifier" k)
      match v with
      | .nothing => return a
      | v => throw (mismatch "unit" v)
    | some _, _ => .error (.wrongValue .table "map with a single key")
    | none, [] => .error (.malformed (flaw.getD (.unplaced .keyNotText)))
    | none, (k, v) :: rest => do
      let a ← named (← keyText "variant identifier" k)
      match v with
      | .nothing => endOf (if rest.isEmpty then flaw else some (.unplaced .noValue)) a
      | v => throw (mismatch "unit" v)
  | .unreadable flaw _ => .error (.malformed flaw)
  | s =>
    match dialect.alternative with
    | some expected => .error (mismatch expected s)
    | none => .error (.malformed (.unplaced .noValue))

end Rulebook.Decode
