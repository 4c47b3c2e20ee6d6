import Rulebook.Digest.Sha256

/-!
# Source digests

The digest of a set of cards: one line for each card with its id and content hash, in id order.
-/

namespace Rulebook

set_option autoImplicit false

/-- Pairs by rising id; pairs with one id keep their order. -/
def byId (pairs : List (String × String)) : List (String × String) :=
  pairs.mergeSort fun a b => !decide (b.1 < a.1)

def digestLine (pair : String × String) : String := pair.1 ++ ":" ++ pair.2 ++ "\n"

/-- The text that the source digest is taken over. -/
def digestText (pairs : List (String × String)) : String := String.join ((byId pairs).map digestLine)

def sourceDigest (pairs : List (String × String)) : String := Digest.ofText (digestText pairs)

end Rulebook
