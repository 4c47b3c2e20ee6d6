import Rulebook.Yaml.Cursor

/-!
# Lexing scalars

The text of quoted, plain and block scalars. In quoted and plain scalars the blanks and breaks
between two pieces of text are folded: one break becomes a space, further breaks are kept.
-/

namespace Rulebook.Yaml

set_option autoImplicit false

/-- Blanks and breaks that have been read and not yet been joined to the text. -/
structure Pending where
  newLine : Bool
  spaces : List Char
  firstBreak : List Char
  laterBreaks : List Char

namespace Pending

def none : Pending := ⟨false, [], [], []⟩

/-- What the blanks and breaks become once more text follows. -/
def folded (p : Pending) : List Char :=
  if p.newLine then
    if p.firstBreak == ['\n'] then
      if p.laterBreaks.isEmpty then [' '] else p.laterBreaks
    else p.firstBreak ++ p.laterBreaks
  else p.spaces

end Pending

/-- Reads blanks and breaks. Below `leastTabColumn` a tab may not stand at the start of a line. -/
def readPending (leastTabColumn : Nat) : Nat → Cursor → Pending → Option (Pending × Cursor)
  | 0, c, p => some (p, c)
  | fuel + 1, c, p =>
    match c.current with
    | some ' ' =>
      readPending leastTabColumn fuel (c.advance 1)
        (if p.newLine then p else { p with spaces := p.spaces ++ [' '] })
    | some '\t' =>
      if p.newLine && c.column < leastTabColumn then none
      else readPending leastTabColumn fuel (c.advance 1)
        (if p.newLine then p else { p with spaces := p.spaces ++ ['\t'] })
    | _ =>
      if c.atBreak then
        let (kept, next) := c.takeBreak
        readPending leastTabColumn fuel next
          (if p.newLine then { p with laterBreaks := p.laterBreaks ++ kept }
           else ⟨true, [], kept, p.laterBreaks⟩)
      else some (p, c)

def hexOf (c : Char) : Option Nat :=
  if c.isDigit then some (c.toNat - '0'.toNat)
  else if 'a' ≤ c ∧ c ≤ 'f' then some (c.toNat - 'a'.toNat + 10)
  else if 'A' ≤ c ∧ c ≤ 'F' then some (c.toNat - 'A'.toNat + 10)
  else none

def hexNumber (digits : List Char) : Option Nat :=
  digits.foldlM (fun n c => (hexOf c).map (n * 16 + ·)) 0

/-- The character of an escape without digits. -/
def namedEscape : Char → Option Char
  | '0' => some '\x00'
  | 'a' => some '\x07'
  | 'b' => some '\x08'
  | 't' => some '\t'
  | '\t' => some '\t'
  | 'n' => some '\n'
  | 'v' => some '\x0b'
  | 'f' => some '\x0c'
  | 'r' => some '\r'
  | 'e' => some '\x1b'
  | ' ' => some ' '
  | '"' => some '"'
  | '/' => some '/'
  | '\\' => some '\\'
  | 'N' => some '\u0085'
  | '_' => some '\u00a0'
  | 'L' => some '\u2028'
  | 'P' => some '\u2029'
  | _ => none

def escapeDigits : Char → Option Nat
  | 'x' => some 2
  | 'u' => some 4
  | 'U' => some 8
  | _ => none

/-- The escape after a backslash: its character, and how many characters it takes. -/
def readEscape (afterBackslash : List Char) : Option (Char × Nat) :=
  match afterBackslash with
  | [] => none
  | e :: rest =>
    match namedEscape e with
    | some c => some (c, 2)
    | none => do
      let count ← escapeDigits e
      if rest.length < count then none
      let n ← hexNumber (rest.take count)
      if h : n.isValidChar then some (Char.ofNatAux n h, count + 2) else none

/-- The text of a quoted scalar after its opening quote, in reverse. A document mark may not stand
at the start of its lines. -/
def readQuoted (single : Bool) : Nat → Cursor → List Char → Option (List Char × Cursor)
  | 0, _, _ => none
  | fuel + 1, c, text =>
    let resume (c : Cursor) (p : Pending) : Option (List Char × Cursor) := do
      let (p, next) ← readPending 0 (c.rest.length + 1) c p
      if next.atDocumentMark then none
      readQuoted single fuel next (p.folded.reverse ++ text)
    match c.rest with
    | [] => none
    | x :: rest =>
      if Cursor.isBlankChar x || Cursor.isBreakChar x then resume c .none
      else if single then
        if x == '\'' then
          if rest.head? == some '\'' then readQuoted single fuel (c.advance 2) ('\'' :: text)
          else some (text, c.advance 1)
        else readQuoted single fuel (c.advance 1) (x :: text)
      else if x == '"' then some (text, c.advance 1)
      else if x == '\\' then
        if rest.head?.any Cursor.isBreakChar then
          resume (c.advance 1).skipBreak { Pending.none with newLine := true }
        else
          match readEscape rest with
          | some (e, length) => readQuoted single fuel (c.advance length) (e :: text)
          | none => none
      else readQuoted single fuel (c.advance 1) (x :: text)

/-- A quoted scalar at its opening quote. -/
def quotedScalar (single : Bool) (c : Cursor) : Option (String × Cursor) := do
  let (text, next) ← readQuoted single (c.rest.length + 1) (c.advance 1) []
  return (String.ofList text.reverse, next)

def isFlowIndicator (c : Char) : Bool :=
  c == ',' || c == '[' || c == ']' || c == '\x7b' || c == '\x7d'

/-- The text of a plain scalar in reverse, with what is pending after it. The scalar ends at a
comment, a document mark, a colon before a blank, an indicator of a flow collection, or in block
context at a line that is not indented enough. -/
def readPlain (inFlow : Bool) (least : Nat) :
    Nat → Cursor → Pending → List Char → Option (List Char × Pending × Cursor)
  | 0, _, _, _ => none
  | fuel + 1, c, pending, text =>
    match c.rest with
    | [] => some (text, pending, c)
    | x :: _ =>
      if Cursor.isBlankChar x || Cursor.isBreakChar x then do
        let (p, next) ← readPending least (c.rest.length + 1) c pending
        if !inFlow && next.column < least then return (text, p, next)
        if next.atDocumentMark || next.current == some '#' then return (text, p, next)
        readPlain inFlow least fuel next p text
      else if inFlow && x == ':' &&
          (c.ahead 1).any (fun y => isFlowIndicator y || y == '?') then none
      else if (x == ':' && c.blankAhead 1) || (inFlow && isFlowIndicator x) then
        some (text, pending, c)
      else readPlain inFlow least fuel (c.advance 1) .none (x :: (pending.folded.reverse ++ text))

/-- A plain scalar, and whether breaks were read after its text. -/
def plainScalar (inFlow : Bool) (indent : Int) (c : Cursor) : Option (String × Bool × Cursor) := do
  let (text, pending, next) ←
    readPlain inFlow (indent + 1).toNat (c.rest.length + 1) c .none []
  return (String.ofList text.reverse, pending.newLine, next)

/-- What becomes of the breaks at the end of a block scalar. -/
inductive Chomping where
  | strip
  | clip
  | keep
deriving DecidableEq

/-- The indicators after `|` or `>`: the chomping and the explicit indentation. -/
def blockHeader (c : Cursor) : Option (Chomping × Option Nat × Cursor) :=
  let chomping (x : Char) : Option Chomping :=
    if x == '+' then some .keep else if x == '-' then some .strip else none
  match c.rest with
  | x :: y :: _ =>
    match chomping x with
    | some how =>
      if y == '0' then none
      else if y.isDigit then some (how, some (y.toNat - '0'.toNat), c.advance 2)
      else some (how, none, c.advance 1)
    | none =>
      if x == '0' then none
      else if x.isDigit then
        let width := some (x.toNat - '0'.toNat)
        match chomping y with
        | some how => some (how, width, c.advance 2)
        | none => some (.clip, width, c.advance 1)
      else some (.clip, none, c)
  | [x] =>
    match chomping x with
    | some how => some (how, none, c.advance 1)
    | none =>
      if x == '0' then none
      else if x.isDigit then some (.clip, some (x.toNat - '0'.toNat), c.advance 1)
      else some (.clip, none, c)
  | [] => some (.clip, none, c)

/-- Reads the indentation and the empty lines in front of a line of a block scalar: the breaks, the
deepest indentation, and the start of the line's text. Without a known indentation all leading
spaces are indentation. -/
def readBlockBreaks (indent : Option Nat) :
    Nat → Cursor → Nat → List Char → Option (List Char × Nat × Cursor)
  | 0, _, _, _ => none
  | fuel + 1, c, deepest, breaks =>
    let run := (c.rest.takeWhile (· == ' ')).length
    let width := match indent with
      | some n => min run (n - c.column)
      | none => run
    let c := c.advance width
    let deepest := max deepest c.column
    let inside := match indent with
      | some n => decide (c.column < n)
      | none => true
    if inside && c.current == some '\t' then none
    else if c.atBreak then
      let (kept, next) := c.takeBreak
      readBlockBreaks indent fuel next deepest (breaks ++ kept)
    else some (breaks, deepest, c)

/-- State of a block scalar between two lines. -/
structure BlockState where
  text : List Char
  leadingBreak : List Char
  trailingBreaks : List Char
  afterBlank : Bool

/-- The lines of a block scalar, whose text grows in reverse. -/
def readBlockLines (literal : Bool) (indent : Nat) :
    Nat → Cursor → BlockState → Option (BlockState × Cursor)
  | 0, _, _ => none
  | fuel + 1, c, s =>
    if c.column == indent && !c.rest.isEmpty then do
      let startsBlank := c.atBlank
      let joined :=
        if !literal && s.leadingBreak == ['\n'] && !s.afterBlank && !startsBlank then
          if s.trailingBreaks.isEmpty then [' '] else s.trailingBreaks
        else s.leadingBreak ++ s.trailingBreaks
      let (line, next) := c.takeWhile fun _ => true
      let (kept, next) := next.takeBreak
      let (breaks, _, next) ← readBlockBreaks (some indent) (next.rest.length + 1) next 0 []
      readBlockLines literal indent fuel next
        ⟨line.reverse ++ (joined.reverse ++ s.text), kept, breaks, startsBlank⟩
    else some (s, c)

/-- A block scalar at its indicator, inside a collection with the given indentation. -/
def blockScalar (literal : Bool) (parent : Int) (c : Cursor) : Option (String × Cursor) := do
  let (chomping, width, c) ← blockHeader (c.advance 1)
  let c := c.skipBlanks.skipComment
  if !c.breakAhead 0 then none
  let c := c.skipBreak
  let explicit := width.map fun n => if parent < 0 then n else parent.toNat + n
  let (breaks, deepest, c) ← readBlockBreaks explicit (c.rest.length + 1) c 0 []
  let indent := explicit.getD (max (max deepest (parent + 1).toNat) 1)
  let (s, c) ← readBlockLines literal indent (c.rest.length + 1) c ⟨[], [], breaks, false⟩
  let tail := match chomping with
    | .strip => []
    | .clip => s.leadingBreak
    | .keep => s.leadingBreak ++ s.trailingBreaks
  return (String.ofList (s.text.reverse ++ tail), c)

end Rulebook.Yaml
