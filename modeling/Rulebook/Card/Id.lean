/-!
# Rule ids

A rule id has three segments joined by hyphens: two words of capital letters and digits, each
starting with a letter, and three digits.
-/

namespace Rulebook

set_option autoImplicit false

/-- The pieces between the separators; there is always at least one. -/
def pieces (separator : Char) : List Char → List (List Char)
  | [] => [[]]
  | c :: rest =>
    if c = separator then [] :: pieces separator rest
    else match pieces separator rest with
      | [] => [[c]]
      | p :: ps => (c :: p) :: ps

namespace RuleId

def isWordTail (c : Char) : Bool := c.isUpper || c.isDigit

def isWord : List Char → Bool
  | [] => false
  | c :: rest => c.isUpper && rest.all isWordTail

def isNumber (cs : List Char) : Bool := cs.length == 3 && cs.all Char.isDigit

def valid (id : String) : Bool :=
  match pieces '-' id.toList with
  | [category, subcategory, number] => isWord category && isWord subcategory && isNumber number
  | _ => false

/-- The first segment of an id. -/
def category (id : String) : String := String.ofList ((pieces '-' id.toList).headD [])

end RuleId

end Rulebook
