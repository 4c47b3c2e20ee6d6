import Rulebook.Card.Violation
import Rulebook.Disk.Path

/-!
# Errors about card files
-/

namespace Rulebook

set_option autoImplicit false

inductive CardError where
  | io (path : Path) (reason : String)
  | schema (path : Path) (violations : List Violation)
  | duplicateId (id : String) (first second : Path)
  | invalidPattern (pattern reason : String)
  | serialization (reason : String)
deriving DecidableEq

namespace CardError

def message : CardError → String
  | .io path reason => "I/O error at " ++ path.text ++ ": " ++ reason
  | .schema path violations =>
    path.text ++ " rejected with " ++ toString violations.length ++ " schema violation(s)"
  | .duplicateId id first second =>
    "duplicate rule id '" ++ id ++ "' in " ++ first.text ++ " and " ++ second.text
  | .invalidPattern pattern reason => "invalid discovery pattern '" ++ pattern ++ "': " ++ reason
  | .serialization reason => "serialization error: " ++ reason

/-- The file the error is about. -/
def path? : CardError → Option Path
  | .io path _ | .schema path _ | .duplicateId _ _ path => some path
  | .invalidPattern .. | .serialization _ => none

end CardError

end Rulebook
