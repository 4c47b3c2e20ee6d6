/-!
# Events

A YAML document as the sequence of its scalars, of the starts and ends of its collections, and of
its references to earlier nodes.
-/

namespace Rulebook.Yaml

set_option autoImplicit false

inductive Event where
  | alias (name : String)
  | scalar (anchor tag : Option String) (text : String) (plain : Bool)
  | sequenceStart (anchor tag : Option String)
  | sequenceEnd
  | mappingStart (anchor tag : Option String)
  | mappingEnd
deriving DecidableEq, Repr

def Event.anchor : Event → Option String
  | .scalar anchor .. | .sequenceStart anchor _ | .mappingStart anchor _ => anchor
  | _ => none

/-- The plain scalar without text that stands where a node is left out. -/
def Event.empty (anchor tag : Option String) : Event := .scalar anchor tag "" true

end Rulebook.Yaml
