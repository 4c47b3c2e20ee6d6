/-!
# Tokens

The tokens of a YAML text. Indentation shows as the start and the end of block collections.
-/

namespace Rulebook.Yaml

set_option autoImplicit false

inductive Token where
  | streamEnd
  | versionDirective (major minor : Nat)
  | tagDirective (handle expansion : String)
  | documentStart
  | documentEnd
  | blockSequenceStart
  | blockMappingStart
  | blockEnd
  | flowSequenceStart
  | flowSequenceEnd
  | flowMappingStart
  | flowMappingEnd
  | blockEntry
  | flowEntry
  | key
  | value
  | alias (name : String)
  | anchor (name : String)
  | tag (handle suffix : String)
  /-- A scalar, and whether it is plain: neither quoted nor a block. -/
  | scalar (text : String) (plain : Bool)
deriving DecidableEq, Repr

end Rulebook.Yaml
