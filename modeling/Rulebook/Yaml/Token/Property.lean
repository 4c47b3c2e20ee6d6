import Rulebook.Yaml.Cursor
import Rulebook.Yaml.Token
import Rulebook.Yaml.Token.Scalar

/-!
# Lexing properties and directives

Anchors, aliases, tags and directives. A tag is a handle, which stands for an expansion given by a
directive, and a suffix; percent escapes in it stand for the bytes of UTF-8 text.
-/

namespace Rulebook.Yaml

set_option autoImplicit false

def isWordChar (c : Char) : Bool := c.isAlphanum || c == '_' || c == '-'

/-- The name of an anchor or alias, after its indicator. -/
def nameToken (build : String → Token) (c : Cursor) : Option (Token × Cursor) :=
  let (name, next) := (c.advance 1).takeWhile isWordChar
  let ends := next.blankAhead 0 ||
    next.holds fun x => ['?', ':', ',', ']', '\x7d', '%', '@', '\x60'].contains x
  if name.isEmpty || !ends then none else some (build (String.ofList name), next)

def isTagChar (verbatim : Bool) (c : Char) : Bool :=
  isWordChar c || [';', '/', '?', ':', '@', '&', '=', '+', '$', '.', '%', '!', '~', '*', '\'',
    '(', ')'].contains c || (verbatim && [',', '[', ']'].contains c)

/-- The bytes of a run of tag characters. -/
def tagBytes : List Char → Option (List UInt8)
  | [] => some []
  | '%' :: a :: b :: rest => do
    let byte ← hexNumber [a, b]
    return UInt8.ofNat byte :: (← tagBytes rest)
  | c :: rest => if c == '%' then none else do return UInt8.ofNat c.toNat :: (← tagBytes rest)

/-- The characters of a tag or an expansion, after a head that has been read already. -/
def tagText (verbatim : Bool) (head : List Char) (c : Cursor) : Option (String × Cursor) := do
  let (run, next) := c.takeWhile (isTagChar verbatim)
  if head.isEmpty && run.isEmpty then none
  let bytes ← tagBytes run
  let text ← String.fromUTF8? ⟨bytes.toArray⟩
  return (String.ofList (head.drop 1) ++ text, next)

/-- A handle: an exclamation mark, a word and, if it is there, another exclamation mark. -/
def tagHandle (c : Cursor) : Option (List Char × Cursor) :=
  if c.current == some '!' then
    let (word, next) := (c.advance 1).takeWhile isWordChar
    if next.current == some '!' then some ('!' :: word ++ ['!'], next.advance 1)
    else some ('!' :: word, next)
  else none

/-- A tag in angle brackets. -/
def verbatimTag (c : Cursor) : Option (String × String × Cursor) := do
  let (suffix, next) ← tagText true [] (c.advance 2)
  if next.current == some '>' then some ("", suffix, next.advance 1) else none

/-- A tag with a handle; without a second exclamation mark the handle is the first one alone. -/
def shortTag (c : Cursor) : Option (String × String × Cursor) := do
  let (handle, next) ← tagHandle c
  if 1 < handle.length && handle.getLast? == some '!' then
    (tagText false [] next).map fun (suffix, next) => (String.ofList handle, suffix, next)
  else
    (tagText false handle next).map fun (suffix, next) =>
      if suffix.isEmpty then ("", "!", next) else ("!", suffix, next)

def tagToken (inFlow : Bool) (c : Cursor) : Option (Token × Cursor) := do
  let (handle, suffix, next) ← if c.ahead 1 == some '<' then verbatimTag c else shortTag c
  if next.blankAhead 0 || (inFlow && next.current == some ',') then
    some (.tag handle suffix, next)
  else none

def versionNumber (c : Cursor) : Option (Nat × Cursor) :=
  let (digits, next) := c.takeWhile Char.isDigit
  if digits.isEmpty || 9 < digits.length then none
  else some (digits.foldl (fun n d => n * 10 + (d.toNat - '0'.toNat)) 0, next)

def versionDirective (c : Cursor) : Option (Token × Cursor) := do
  let (major, c) ← versionNumber c.skipBlanks
  if c.current != some '.' then none
  let (minor, c) ← versionNumber (c.advance 1)
  return (.versionDirective major minor, c)

def tagDirective (c : Cursor) : Option (Token × Cursor) := do
  let (handle, c) ← tagHandle c.skipBlanks
  if handle.getLast? != some '!' || !c.atBlank then none
  let (expansion, c) ← tagText true [] c.skipBlanks
  if !c.blankAhead 0 then none
  return (.tagDirective (String.ofList handle) expansion, c)

/-- A directive at its percent sign, through the end of its line. -/
def directive (c : Cursor) : Option (Token × Cursor) := do
  let (name, c) := (c.advance 1).takeWhile isWordChar
  if name.isEmpty || !c.blankAhead 0 then none
  let (token, c) ←
    if name == "YAML".toList then versionDirective c
    else if name == "TAG".toList then tagDirective c
    else none
  let c := c.skipBlanks.skipComment
  if !c.breakAhead 0 then none
  return (token, c.skipBreak)

end Rulebook.Yaml
