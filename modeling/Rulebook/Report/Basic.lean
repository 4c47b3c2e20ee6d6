import Rulebook.Disk.Path
import Rulebook.Json.Text

/-!
# Reports

A report lists everything that was found in one run, in the order in which it was found. A run has
failed if one of the diagnostics is an error.
-/

namespace Rulebook

set_option autoImplicit false

inductive Level where
  | info
  | warning
  | error
deriving DecidableEq, Repr

namespace Level

def name : Level → String
  | .info => "info"
  | .warning => "warning"
  | .error => "error"

def rank : Level → Nat
  | .info => 0
  | .warning => 1
  | .error => 2

end Level

/-- What a diagnostic is about, apart from how bad it is. -/
inductive Topic where
  | schema
  | duplicateId
  | emptyAgent
  | orphanCard
  | io
  | manifest
  | missingRule
  | defaultsConflict
  | disabledCard
  | serialization
  | config
deriving DecidableEq, Repr

namespace Topic

def all : List Topic :=
  [.schema, .duplicateId, .emptyAgent, .orphanCard, .io, .manifest, .missingRule,
    .defaultsConflict, .disabledCard, .serialization, .config]

def words : Topic → List String
  | .schema => ["schema"]
  | .duplicateId => ["duplicate", "id"]
  | .emptyAgent => ["empty", "agent"]
  | .orphanCard => ["orphan", "card"]
  | .io => ["io"]
  | .manifest => ["manifest"]
  | .missingRule => ["missing", "rule"]
  | .defaultsConflict => ["defaults", "conflict"]
  | .disabledCard => ["disabled", "card"]
  | .serialization => ["serialization"]
  | .config => ["config"]

/-- The name in a text. -/
def label (topic : Topic) : String := "-".intercalate topic.words

/-- The name in JSON. -/
def key (topic : Topic) : String := "_".intercalate topic.words

end Topic

structure Diagnostic where
  level : Level
  topic : Topic
  path : Option Path
  field : Option String
  message : String
deriving DecidableEq, Repr

namespace Diagnostic

def text (d : Diagnostic) : String :=
  d.level.name ++ "[" ++ d.topic.label ++ "]" ++
    (match d.path with
      | some path => " " ++ path.text
      | none => "") ++
    (match d.field with
      | some field => " (" ++ field ++ ")"
      | none => "") ++
    ": " ++ d.message

def toJson (d : Diagnostic) : Json :=
  .object ([("level", .string d.level.name), ("kind", .string d.topic.key)] ++
    (d.path.toList.map fun path => ("path", .string path.text)) ++
    (d.field.toList.map fun field => ("field", .string field)) ++
    [("message", .string d.message)])

end Diagnostic

structure Report where
  diagnostics : List Diagnostic
deriving DecidableEq, Repr

namespace Report

def empty : Report := ⟨[]⟩

def add (report : Report) (more : List Diagnostic) : Report := ⟨report.diagnostics ++ more⟩

def atLevel (report : Report) (level : Level) : List Diagnostic :=
  report.diagnostics.filter (·.level == level)

def count (report : Report) (level : Level) : Nat := (report.atLevel level).length

def errors (report : Report) : List Diagnostic := report.atLevel .error

def hasErrors (report : Report) : Bool := !report.errors.isEmpty

def about (report : Report) (topic : Topic) : List Diagnostic :=
  report.diagnostics.filter (·.topic == topic)

def summary (report : Report) : String :=
  (if report.hasErrors then "FAILED" else "OK") ++ ": " ++ toString (report.count .error) ++
    " error(s), " ++ toString (report.count .warning) ++ " warning(s)"

/-- The diagnostics from a level on and the summary, each on a line. -/
def render (report : Report) (least : Level) : String :=
  let shown := report.diagnostics.filter fun d => least.rank ≤ d.level.rank
  String.join ((shown.map (·.text) ++ [report.summary]).map (· ++ "\n"))

def toJson (report : Report) : Json :=
  .object [("diagnostics", .array (report.diagnostics.map Diagnostic.toJson))]

end Report

end Rulebook
