import Rulebook.Manifest.Basic
import Rulebook.Yaml.Node.Reader

/-!
# Reading manifests

A manifest is a mapping of agent ids to entries, which may be wrapped in a mapping whose only key is
`agents`. The entries are read one after the other, and what is wrong with them is collected; a
manifest is accepted if it has entries and there are no issues at all.
-/

namespace Rulebook

set_option autoImplicit false

open Yaml (Node)

/-- An entry as it is written. -/
structure EntrySpec where
  name : String
  selector : SelectorSpec
  policy : Policy
deriving Inhabited

namespace EntrySpec

open Decode

def layout (dialect : Dialect) : Layout EntrySpec where
  name := "struct EntrySpec"
  fields := ["name", "rule_selector", "policy"]
  optional := []
  strict := true
  blank := default
  put spec name value :=
    match name with
    | "name" => return { spec with name := ← text value }
    | "rule_selector" => return { spec with selector := ← SelectorSpec.decode dialect value }
    | "policy" => return { spec with policy := ← Policy.decode dialect value }
    | _ => return spec

def decode (entry : Node) : Except Error EntrySpec :=
  (layout .yaml).decode .yaml entry.toSource

end EntrySpec

namespace Manifest

abbrev Entries := List (Node × Node)

def wrapperKey : String := "agents"

def isAgentIdTail (c : Char) : Bool := c.isLower || c.isDigit || c == '_' || c == '-'

/-- Small letters, digits, underscores and hyphens, the first a letter or a digit. -/
def validAgentId (id : String) : Bool :=
  match id.toList with
  | [] => false
  | c :: rest => (c.isLower || c.isDigit) && rest.all isAgentIdTail

/-- The entries of the manifest; a wrapper around an agent of its name is no wrapper. -/
def agentTable (root : Node) : Option Entries :=
  match root.entries? with
  | none => none
  | some entries =>
    let inner :=
      if entries.length = 1 then (Node.valueOf? wrapperKey entries).bind (·.entries?) else none
    match inner with
    | some inner =>
      if (Node.valueOf? "rule_selector" inner).isSome then some entries else some inner
    | none => some entries

def idIssues (id : String) : List ManifestIssue :=
  if id = wrapperKey then
    [⟨some id, "agent_id",
      "'agents' is reserved for the top-level wrapper; choose another agent_id"⟩]
  else if validAgentId id then []
  else
    [⟨some id, "agent_id",
      "must match [a-z0-9][a-z0-9_-]* (it becomes the package file name)"⟩]

def nameIssues (id name : String) : List ManifestIssue :=
  if name.isEmpty then [⟨some id, "name", "must not be empty"⟩] else []

def selectorField (field : String) : String :=
  if field = "rule_selector" then field else "rule_selector." ++ field

def selectorIssues (id : String) (spec : SelectorSpec) : List ManifestIssue :=
  (Selector.problems spec).map fun p => ⟨some id, selectorField p.field, p.message⟩

def targetIssue (id : String) (target : String × Nat) : Option ManifestIssue :=
  let field := "policy.targets[" ++ toString target.2 ++ "]"
  if (Text.trim target.1).isEmpty then some ⟨some id, field, "must not be empty"⟩
  else match Glob.parse target.1 with
    | .ok _ => none
    | .error e => some ⟨some id, field, Selector.badGlob target.1 e⟩

def targetIssues (id : String) (targets : List String) : List ManifestIssue :=
  (if targets.isEmpty then
    [⟨some id, "policy.targets", "must list at least one glob pattern"⟩] else []) ++
    targets.zipIdx.filterMap (targetIssue id)

/-- Defaults that are no scalars, by their keys as they are written. -/
def defaultIssues (id : String) (entry : Node) : List ManifestIssue :=
  match ((entry.member? "policy").bind (·.member? "defaults")).bind (·.entries?) with
  | none => []
  | some defaults =>
    defaults.filterMap fun (key, value) =>
      if value.scalar?.isSome then none
      else some ⟨some id, "policy.defaults." ++ key.text?.getD "",
        "must be a string, boolean, or finite number"⟩

def specIssues (id : String) (entry : Node) (spec : EntrySpec) : List ManifestIssue :=
  nameIssues id (Text.trim spec.name) ++ selectorIssues id spec.selector ++
    targetIssues id spec.policy.targets ++ defaultIssues id entry

/-- Reads an entry after others. What is wrong with it is added to the issues so far; it is an agent if
nothing is added. -/
def readEntry (id : String) (entry : Node) (issues : List ManifestIssue) :
    Option Agent × List ManifestIssue :=
  match EntrySpec.decode entry with
  | .error e => (none, issues ++ idIssues id ++ [⟨some id, "<entry>", e.message .yaml⟩])
  | .ok spec =>
    let found := issues ++ idIssues id ++ specIssues id entry spec
    if issues.length < found.length then (none, found)
    else
      let agent := (Selector.compile spec.selector).toOption.map fun selector =>
        ⟨id, Text.trim spec.name, selector, spec.policy⟩
      (agent, found)

/-- What the entries of a manifest come to, as far as they are read. -/
structure Reading where
  issues : List ManifestIssue
  agents : Keyed Agent

def Reading.add (r : Reading) (entry : Node × Node) : Reading :=
  match entry.1.text? with
  | none => { r with issues := r.issues ++ [⟨none, "<key>", "agent ids must be strings"⟩] }
  | some id =>
    match readEntry id entry.2 r.issues with
    | (none, issues) => { r with issues }
    | (some agent, issues) => ⟨issues, r.agents.insert id agent⟩

def ofNode (path : Path) (root : Node) : Except ManifestError Manifest :=
  match agentTable root with
  | none =>
    .error (.invalid path
      [⟨none, "<document>", "expected a mapping of agent_id to agent entry"⟩])
  | some entries =>
    let lacking : List ManifestIssue :=
      if entries.isEmpty then [⟨none, "<document>", "manifest declares no agents"⟩] else []
    let r := entries.foldl Reading.add ⟨lacking, []⟩
    if r.issues.isEmpty then .ok ⟨r.agents⟩ else .error (.invalid path r.issues)

def parse (path : Path) (text : String) : Except ManifestError Manifest :=
  match Node.parse text with
  | .ok root => ofNode path root
  | .error e => .error (.parse path e.message)

end Manifest

end Rulebook
