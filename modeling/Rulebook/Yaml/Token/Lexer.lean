import Rulebook.Yaml.Token.Property

/-!
# Lexing

`Token.scan` splits a text into tokens. A mapping may show only by a colon after its first key, so
every place that could start a key is remembered, one for each flow collection around it, until it
is used or can no longer be a key: a key stays on one line and within 1024 characters.

If the text is malformed, the tokens in front of the first place that could still have become a key
are returned, for a token is settled only once nothing can be inserted before it.
-/

namespace Rulebook.Yaml

set_option autoImplicit false

/-- A place where a key could have started. -/
structure PossibleKey where
  /-- The text is malformed if no key starts here. -/
  required : Bool
  token : Nat
  index : Nat
  line : Nat
  column : Nat

structure Lexer where
  cursor : Cursor
  tokens : Array Token
  /-- The column of the innermost block collection, or `-1`. -/
  indent : Int
  indents : List Int
  keyAllowed : Bool
  /-- The last possible key inside each flow collection, innermost first. -/
  keys : List (Option PossibleKey)
  flowDepth : Nat

namespace Lexer

def ofText (text : String) : Lexer := ⟨.ofText text, #[], -1, [], true, [none], 0⟩

def push (x : Lexer) (token : Token) : Lexer := { x with tokens := x.tokens.push token }

def inFlow (x : Lexer) : Bool := x.flowDepth != 0

def stale (x : Lexer) (k : PossibleKey) : Bool :=
  k.line < x.cursor.line || k.index + 1024 < x.cursor.index

/-- Forgets the keys that lie too far back. -/
def dropStaleKeys (x : Lexer) : Option Lexer :=
  let old (k : PossibleKey) : Bool := x.stale k
  if x.keys.any fun k => k.any fun k => old k && k.required then none
  else some { x with keys := x.keys.map fun k => k.filter fun k => !old k }

/-- Forgets the last possible key. -/
def dropKey (x : Lexer) : Option Lexer :=
  match x.keys with
  | some k :: rest => if k.required then none else some { x with keys := none :: rest }
  | _ => some x

/-- Remembers that a key could start here. -/
def saveKey (x : Lexer) : Option Lexer :=
  if x.keyAllowed then do
    let key : PossibleKey :=
      ⟨!x.inFlow && x.indent == x.cursor.column, x.tokens.size, x.cursor.index, x.cursor.line,
        x.cursor.column⟩
    let x ← x.dropKey
    return { x with keys := some key :: x.keys.drop 1 }
  else some x

/-- Closes the block collections that lie deeper than a column. -/
def unroll (x : Lexer) (column : Int) : Lexer :=
  if x.inFlow then x
  else
    let closed := (x.indent :: x.indents).takeWhile (column < ·)
    let count := min closed.length x.indents.length
    { x with
      tokens := (List.replicate count Token.blockEnd).foldl Array.push x.tokens
      indent := ((x.indent :: x.indents).drop count).headD (-1)
      indents := x.indents.drop count }

/-- Opens a block collection, at the end of the tokens or in front of an earlier one. -/
def roll (x : Lexer) (column place : Nat) (token : Token) : Lexer :=
  if !x.inFlow && x.indent < column then
    { x with
      tokens := x.tokens.insertIdxIfInBounds place token
      indent := column
      indents := x.indent :: x.indents }
  else x

/-- Past blanks, and past a byte order mark at the start of a line. -/
def skipSpaces (x : Lexer) : Cursor :=
  let c := x.cursor
  let c := if c.column == 0 && c.current == some '\ufeff' then c.advance 1 else c
  c.skipWhile fun y => y == ' ' || ((x.inFlow || !x.keyAllowed) && y == '\t')

/-- Past blanks, comments and breaks. A new line in block context may start a key. -/
def toNextToken : Nat → Lexer → Lexer
  | 0, x => x
  | fuel + 1, x =>
    let c := x.skipSpaces.skipComment
    if c.atBreak then
      toNextToken fuel { x with cursor := c.skipBreak, keyAllowed := x.keyAllowed || !x.inFlow }
    else { x with cursor := c }

def fetchStreamEnd (x : Lexer) : Option Lexer := do
  let x ← (x.unroll (-1)).dropKey
  return { x with keyAllowed := false }.push .streamEnd

def fetchDirective (x : Lexer) : Option Lexer := do
  let x ← (x.unroll (-1)).dropKey
  let (token, c) ← directive x.cursor
  return { x with keyAllowed := false, cursor := c }.push token

def fetchDocumentMark (x : Lexer) (token : Token) : Option Lexer := do
  let x ← (x.unroll (-1)).dropKey
  return { x with keyAllowed := false, cursor := x.cursor.advance 3 }.push token

def fetchFlowStart (x : Lexer) (token : Token) : Option Lexer := do
  let x ← x.saveKey
  return { x with
    keys := none :: x.keys
    flowDepth := x.flowDepth + 1
    keyAllowed := true
    cursor := x.cursor.advance 1 }.push token

def fetchFlowEnd (x : Lexer) (token : Token) : Option Lexer := do
  let x ← x.dropKey
  return { x with
    keys := if x.inFlow then x.keys.drop 1 else x.keys
    flowDepth := x.flowDepth - 1
    keyAllowed := false
    cursor := x.cursor.advance 1 }.push token

def fetchFlowEntry (x : Lexer) : Option Lexer := do
  let x ← x.dropKey
  return { x with keyAllowed := true, cursor := x.cursor.advance 1 }.push .flowEntry

def fetchBlockEntry (x : Lexer) : Option Lexer := do
  if !x.inFlow && !x.keyAllowed then none
  let x ← (x.roll x.cursor.column x.tokens.size .blockSequenceStart).dropKey
  return { x with keyAllowed := true, cursor := x.cursor.advance 1 }.push .blockEntry

def fetchKey (x : Lexer) : Option Lexer := do
  if !x.inFlow && !x.keyAllowed then none
  let x ← (x.roll x.cursor.column x.tokens.size .blockMappingStart).dropKey
  return { x with keyAllowed := !x.inFlow, cursor := x.cursor.advance 1 }.push .key

def fetchValue (x : Lexer) : Option Lexer := do
  match x.keys with
  | some k :: rest =>
    let x := { x with tokens := x.tokens.insertIdxIfInBounds k.token .key, keys := none :: rest }
    let x := x.roll k.column k.token .blockMappingStart
    return { x with keyAllowed := false, cursor := x.cursor.advance 1 }.push .value
  | _ =>
    if !x.inFlow && !x.keyAllowed then none
    let x := x.roll x.cursor.column x.tokens.size .blockMappingStart
    return { x with keyAllowed := !x.inFlow, cursor := x.cursor.advance 1 }.push .value

/-- A token that may start a key. -/
def fetchContent (x : Lexer) (lex : Cursor → Option (Token × Cursor)) : Option Lexer := do
  let x ← x.saveKey
  let (token, c) ← lex x.cursor
  return { x with keyAllowed := false, cursor := c }.push token

def fetchQuoted (x : Lexer) (single : Bool) : Option Lexer :=
  x.fetchContent fun c => (quotedScalar single c).map fun (text, c) => (.scalar text false, c)

def fetchBlockScalar (x : Lexer) (literal : Bool) : Option Lexer := do
  let x ← x.dropKey
  let (text, c) ← blockScalar literal x.indent x.cursor
  return { x with keyAllowed := true, cursor := c }.push (.scalar text false)

def fetchPlain (x : Lexer) : Option Lexer := do
  let x ← x.saveKey
  let (text, newLine, c) ← plainScalar x.inFlow x.indent x.cursor
  return { x with keyAllowed := newLine, cursor := c }.push (.scalar text true)

def isIndicator (c : Char) : Bool :=
  ['-', '?', ':', ',', '[', ']', '\x7b', '\x7d', '#', '&', '*', '!', '|', '>', '\'', '"', '%',
    '@', '\x60'].contains c

/-- Whether a plain scalar may start with the character at the cursor. -/
def startsPlain (x : Lexer) (first : Char) : Bool :=
  (!isIndicator first && !Cursor.isBlankChar first) ||
    (first == '-' && !(x.cursor.ahead 1).any Cursor.isBlankChar) ||
    (!x.inFlow && (first == '?' || first == ':') && !x.cursor.blankAhead 1)

/-- Reads the token at the cursor. -/
def fetch (x : Lexer) : Option Lexer :=
  let c := x.cursor
  match c.current with
  | none => x.fetchStreamEnd
  | some first =>
    if c.column == 0 && first == '%' then x.fetchDirective
    else if c.atLineMark '-' then x.fetchDocumentMark .documentStart
    else if c.atLineMark '.' then x.fetchDocumentMark .documentEnd
    else if first == '[' then x.fetchFlowStart .flowSequenceStart
    else if first == '\x7b' then x.fetchFlowStart .flowMappingStart
    else if first == ']' then x.fetchFlowEnd .flowSequenceEnd
    else if first == '\x7d' then x.fetchFlowEnd .flowMappingEnd
    else if first == ',' then x.fetchFlowEntry
    else if first == '-' && c.blankAhead 1 then x.fetchBlockEntry
    else if first == '?' && (x.inFlow || c.blankAhead 1) then x.fetchKey
    else if first == ':' && (x.inFlow || c.blankAhead 1) then x.fetchValue
    else if first == '*' then x.fetchContent (nameToken .alias)
    else if first == '&' then x.fetchContent (nameToken .anchor)
    else if first == '!' then x.fetchContent (tagToken x.inFlow)
    else if first == '|' && !x.inFlow then x.fetchBlockScalar true
    else if first == '>' && !x.inFlow then x.fetchBlockScalar false
    else if first == '\'' then x.fetchQuoted true
    else if first == '"' then x.fetchQuoted false
    else if x.startsPlain first then x.fetchPlain
    else none

/-- Moves to the next token and reads it. -/
def next (x : Lexer) : Option Lexer := do
  let x ← (toNextToken (x.cursor.rest.length + 1) x).dropStaleKeys
  (x.unroll x.cursor.column).fetch

/-- The tokens before which nothing can be inserted any more. -/
def settled (x : Lexer) : List Token :=
  let places := x.keys.filterMap fun k => k.map (·.token)
  x.tokens.toList.take (places.foldl min x.tokens.size)

/-- All tokens, and whether the text ended well. -/
def run : Nat → Lexer → List Token × Bool
  | 0, x => (x.settled, false)
  | fuel + 1, x =>
    match x.dropStaleKeys with
    | none => (x.settled, false)
    | some x =>
      match x.next with
      | none => (x.settled, false)
      | some y => if y.tokens.back? == some .streamEnd then (y.tokens.toList, true) else run fuel y

end Lexer

/-- Characters that a text may hold. -/
def isTextChar (c : Char) : Bool :=
  let n := c.toNat
  n == 0x9 || n == 0xa || n == 0xd || (0x20 ≤ n && n ≤ 0x7e) || n == 0x85 ||
    (0xa0 ≤ n && n ≤ 0xd7ff) || (0xe000 ≤ n && n ≤ 0xfffd) || 0x10000 ≤ n

/-- The settled tokens of a text, and whether they are all of it. -/
def Token.scan (text : String) : List Token × Bool :=
  if text.toList.all isTextChar then
    let x := Lexer.ofText text
    Lexer.run (x.cursor.rest.length + 2) x
  else ([], false)

end Rulebook.Yaml
