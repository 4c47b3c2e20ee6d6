import Rulebook.Config

/-!
# Errors about packages and builds
-/

namespace Rulebook

set_option autoImplicit false

/-- Why a text is refused as a package, and up to where it was read. -/
structure PackageFault where
  /-- The text is not JSON, and not only of the wrong shape. -/
  malformed : Bool
  message : String
  place : Option Text.Place
deriving DecidableEq

def PackageFault.text (fault : PackageFault) : String :=
  fault.message ++
    match fault.place with
    | some place => " at line " ++ toString place.line ++ " column " ++ toString place.column
    | none => ""

inductive CompileError where
  | io (path : Path) (reason : String)
  | missingRule (agent rule : String)
  | duplicateRule (agent rule : String)
  | emptyPackage (agent : String)
  | invalidBuildDate (value reason : String)
  | invalidPackage (path : Path) (fault : PackageFault)
  | serialization (reason : String)
  | config (path : Path) (fault : ConfigFault)
deriving DecidableEq

namespace CompileError

def message : CompileError → String
  | .io path reason => "I/O error at " ++ path.text ++ ": " ++ reason
  | .missingRule agent rule =>
    "agent '" ++ agent ++ "' references rule '" ++ rule ++ "' which is not in the validated corpus"
  | .duplicateRule agent rule =>
    "agent '" ++ agent ++ "' includes rule '" ++ rule ++ "' more than once"
  | .emptyPackage agent => "agent '" ++ agent ++ "' has no rules to compile"
  | .invalidBuildDate value reason => "invalid build date '" ++ value ++ "': " ++ reason
  | .invalidPackage path fault => "failed to read package " ++ path.text ++ ": " ++ fault.text
  | .serialization reason => "serialization error: " ++ reason
  | .config path fault => "invalid config " ++ path.text ++ ": " ++ fault.text

/-- The agent the error is about. -/
def agent? : CompileError → Option String
  | .missingRule agent _ | .duplicateRule agent _ | .emptyPackage agent => some agent
  | _ => none

end CompileError

end Rulebook
