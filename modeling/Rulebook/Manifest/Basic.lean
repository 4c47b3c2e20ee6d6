import Rulebook.Disk.Path
import Rulebook.Selector

/-!
# Agents and manifests

An agent has an id, a name, a selector for its cards and a policy. A manifest holds agents by id.
-/

namespace Rulebook

set_option autoImplicit false

structure Policy where
  targets : List String
  defaults : Keyed Json
deriving DecidableEq, Inhabited

namespace Policy

def toJson (policy : Policy) : Json :=
  .object [("targets", Card.textsJson policy.targets), ("defaults", .object policy.defaults)]

open Decode

def layout (dialect : Dialect) : Layout Policy where
  name := "struct AgentPolicy"
  fields := ["targets", "defaults"]
  optional := ["defaults"]
  strict := true
  blank := default
  put policy name value :=
    match name with
    | "targets" => return { policy with targets := ← list dialect text value }
    | "defaults" => return { policy with defaults := ← keyed dialect json value }
    | _ => return policy

def decode (dialect : Dialect) : Decoder Policy := (layout dialect).decode dialect

end Policy

structure Agent where
  id : String
  name : String
  selector : Selector
  policy : Policy
deriving DecidableEq

structure Manifest where
  entries : Keyed Agent
deriving DecidableEq

namespace Manifest

/-- The agents in id order. -/
def agents (manifest : Manifest) : List Agent := manifest.entries.values

def find? (manifest : Manifest) (id : String) : Option Agent := manifest.entries.find? id

def size (manifest : Manifest) : Nat := manifest.entries.length

/-- A later agent replaces an earlier one with the same id. -/
def ofAgents (agents : List Agent) : Manifest := ⟨Keyed.ofList (agents.map fun a => (a.id, a))⟩

end Manifest

/-- What is wrong with a manifest, or with one of its agents. -/
structure ManifestIssue where
  agent : Option String
  field : String
  message : String
deriving DecidableEq

def ManifestIssue.text (issue : ManifestIssue) : String :=
  (match issue.agent with
    | some id => "agent '" ++ id ++ "': "
    | none => "") ++ issue.field ++ ": " ++ issue.message

inductive ManifestError where
  | io (path : Path) (reason : String)
  | parse (path : Path) (reason : String)
  | invalid (path : Path) (issues : List ManifestIssue)
  | emptyAgent (id selector : String)
deriving DecidableEq

def ManifestError.message : ManifestError → String
  | .io path reason => "I/O error at " ++ path.text ++ ": " ++ reason
  | .parse path reason => "failed to parse manifest " ++ path.text ++ ": " ++ reason
  | .invalid path issues =>
    "manifest " ++ path.text ++ " has " ++ toString issues.length ++ " problem(s)"
  | .emptyAgent id selector =>
    "agent '" ++ id ++ "' matches no rule cards (selector: " ++ selector ++ ")"

end Rulebook
