/-!
# Cursors

A place in a YAML text: what is left of the text, and where in the text that is. A line ends at a
carriage return, a line feed, both together, or one of three further break characters.
-/

namespace Rulebook.Yaml

set_option autoImplicit false

structure Cursor where
  rest : List Char
  index : Nat
  line : Nat
  column : Nat

namespace Cursor

def ofText (text : String) : Cursor := ⟨text.toList, 0, 0, 0⟩

def isBreakChar (c : Char) : Bool :=
  c == '\n' || c == '\r' || c == '\u0085' || c == '\u2028' || c == '\u2029'

def isBlankChar (c : Char) : Bool := c == ' ' || c == '\t'

/-- The character some places ahead. -/
def ahead (c : Cursor) (n : Nat) : Option Char := c.rest[n]?

def current (c : Cursor) : Option Char := c.rest.head?

def holds (c : Cursor) (p : Char → Bool) : Bool := c.current.any p

def atBlank (c : Cursor) : Bool := c.holds isBlankChar

def atBreak (c : Cursor) : Bool := c.holds isBreakChar

/-- Whether a blank, a break or the end of the text stands some places ahead. -/
def blankAhead (c : Cursor) (n : Nat) : Bool :=
  (c.ahead n).all fun x => isBlankChar x || isBreakChar x

def breakAhead (c : Cursor) (n : Nat) : Bool := (c.ahead n).all isBreakChar

/-- Moves past some characters of the line. -/
def advance (c : Cursor) (n : Nat) : Cursor :=
  ⟨c.rest.drop n, c.index + n, c.line, c.column + n⟩

/-- The break at the cursor as it is kept in a scalar, and the start of the next line. -/
def takeBreak (c : Cursor) : List Char × Cursor :=
  match c.rest with
  | '\r' :: '\n' :: rest => (['\n'], ⟨rest, c.index + 2, c.line + 1, 0⟩)
  | b :: rest =>
    if b == '\u2028' || b == '\u2029' then ([b], ⟨rest, c.index + 1, c.line + 1, 0⟩)
    else if isBreakChar b then (['\n'], ⟨rest, c.index + 1, c.line + 1, 0⟩)
    else ([], c)
  | [] => ([], c)

def skipBreak (c : Cursor) : Cursor := c.takeBreak.2

/-- The longest run of characters with a property, none of them a break. -/
def takeWhile (c : Cursor) (p : Char → Bool) : List Char × Cursor :=
  let run := c.rest.takeWhile fun x => p x && !isBreakChar x
  (run, c.advance run.length)

def skipWhile (c : Cursor) (p : Char → Bool) : Cursor := (c.takeWhile p).2

def skipBlanks (c : Cursor) : Cursor := c.skipWhile isBlankChar

/-- Past a comment, if one starts here. -/
def skipComment (c : Cursor) : Cursor :=
  if c.current == some '#' then c.skipWhile fun _ => true else c

/-- Whether a line starts here with three equal marks and a blank after them. -/
def atLineMark (c : Cursor) (mark : Char) : Bool :=
  c.column == 0 && [mark, mark, mark].isPrefixOf c.rest && c.blankAhead 3

def atDocumentMark (c : Cursor) : Bool := c.atLineMark '-' || c.atLineMark '.'

end Cursor

end Rulebook.Yaml
