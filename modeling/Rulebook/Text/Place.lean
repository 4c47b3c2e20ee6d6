/-!
# Places in a text

A line and a column, both counted from one, for messages about a text.
-/

namespace Rulebook.Text

set_option autoImplicit false

structure Place where
  line : Nat
  column : Nat
deriving DecidableEq, Repr

def newlines (cs : List Char) : Nat := cs.count '\n'

/-- What follows the last newline. -/
def lastLine (cs : List Char) : List Char := (cs.reverse.takeWhile (· != '\n')).reverse

/-- The place of the character at an offset. The end of a text lies right after its last character,
also where that is a newline. -/
def placeAt (cs : List Char) (offset : Nat) : Place :=
  let inside := min offset (cs.length - 1)
  let before := cs.take inside
  ⟨newlines before + 1, (lastLine before).length + 1 + (offset - inside)⟩

/-- The place up to which a text has been read, with the column counted in bytes. -/
def placeAfter (read : List Char) : Place :=
  ⟨newlines read + 1, (lastLine read).foldl (fun n c => n + c.utf8Size) 0⟩

end Rulebook.Text
