import Rulebook.Number.Decimal
import Rulebook.Text.Place
import Rulebook.Toml.Node

/-!
# Reading TOML

A document is a list of lines, each a key with a value, a header, a comment, or blank. The value of a
key goes into the table of the last header. Keys may not be given twice, and a table may not be
extended once it is complete; such a line is refused as a whole, at its start.
-/

namespace Rulebook.Toml

set_option autoImplicit false

/-- Fails with the number of characters that are left where the text cannot be read on. -/
abbrev Reader (α : Type) := List Char → Except Nat (α × List Char)

variable {α : Type}

def stuckAt (cs : List Char) : Except Nat α := .error cs.length

def isBlank (c : Char) : Bool := c == ' ' || c == '\t'

def skipBlank (cs : List Char) : List Char := cs.dropWhile isBlank

def expect (c : Char) (cs : List Char) : Except Nat (List Char) :=
  match cs with
  | d :: rest => if c = d then .ok rest else stuckAt cs
  | [] => stuckAt cs

/-- Printable characters, the tab, and all beyond ASCII. -/
def isPlain (c : Char) : Bool := c == '\t' || (' ' ≤ c && c ≤ '~') || 0x80 ≤ c.toNat

def newline? : List Char → Option (List Char)
  | '\n' :: rest | '\r' :: '\n' :: rest => some rest
  | _ => none

def skipComment (cs : List Char) : List Char :=
  match cs with
  | '#' :: rest => rest.dropWhile isPlain
  | cs => cs

/-- The rest of a line behind its contents. -/
def endLine (cs : List Char) : Except Nat (List Char) :=
  let cs := skipComment (skipBlank cs)
  match cs, newline? cs with
  | [], _ => .ok []
  | _, some rest => .ok rest
  | cs, none => stuckAt cs

/-! ## Strings -/

def simpleEscape : Char → Option Char
  | 'b' => some '\x08'
  | 'f' => some '\x0c'
  | 'n' => some '\n'
  | 'r' => some '\r'
  | 't' => some '\t'
  | '"' => some '"'
  | '\\' => some '\\'
  | _ => none

def hexDigit? (c : Char) : Option Nat :=
  if c.isDigit then some (c.toNat - '0'.toNat)
  else if 'a' ≤ c ∧ c ≤ 'f' then some (c.toNat - 'a'.toNat + 10)
  else if 'A' ≤ c ∧ c ≤ 'F' then some (c.toNat - 'A'.toNat + 10)
  else none

def number? (radix : Nat) (digits : List Char) : Option Nat :=
  digits.foldlM (fun n c => ((hexDigit? c).filter (· < radix)).map (n * radix + ·)) 0

/-- A character given by exactly `count` hexadecimal digits. -/
def readCode (count : Nat) : Reader Char := fun cs =>
  let digits := cs.take count
  match number? 16 digits with
  | some n =>
    if digits.length = count && n.isValidChar then .ok (Char.ofNat n, cs.drop count) else stuckAt cs
  | none => stuckAt cs

/-- The character of an escape, after its backslash. -/
def readEscape : Reader Char := fun cs =>
  match cs with
  | 'u' :: rest => readCode 4 rest
  | 'U' :: rest => readCode 8 rest
  | c :: rest =>
    match simpleEscape c with
    | some e => .ok (e, rest)
    | none => stuckAt cs
  | [] => stuckAt cs

/-- A string after its opening quote. -/
def readBasic : Nat → Reader (List Char)
  | 0, cs => stuckAt cs
  | fuel + 1, cs =>
    match cs with
    | '"' :: rest => .ok ([], rest)
    | '\\' :: rest => do
      let (c, rest) ← readEscape rest
      let (more, rest) ← readBasic fuel rest
      return (c :: more, rest)
    | c :: rest =>
      if isPlain c then do
        let (more, rest) ← readBasic fuel rest
        return (c :: more, rest)
      else stuckAt cs
    | [] => stuckAt cs

def readLiteral : Reader (List Char) := fun cs => do
  let text := cs.takeWhile fun c => isPlain c && c != '\''
  let rest ← expect '\'' (cs.drop text.length)
  return (text, rest)

/-- The end of a long string at a run of quotes: the last three close it, and up to two in front of
them belong to it. -/
def closing? (quote : Char) (cs : List Char) : Option (List Char × List Char) :=
  let count := (cs.takeWhile (· == quote)).length
  if count < 3 then none else some (List.replicate (min (count - 3) 2) quote, cs.drop (min count 5))

/-- Whether the rest of the line behind a backslash is blank. -/
def endsLine (cs : List Char) : Bool := (newline? (skipBlank cs)).isSome

/-- Skips blanks and newlines; a carriage return is one only in front of a line feed. -/
def skipNewlines : Nat → List Char → List Char
  | 0, cs => cs
  | fuel + 1, cs =>
    match newline? (skipBlank cs) with
    | some rest => skipNewlines fuel rest
    | none => skipBlank cs

/-- A long string after its opening quotes. -/
def readLong (quote : Char) (escapes : Bool) : Nat → Reader (List Char)
  | 0, cs => stuckAt cs
  | fuel + 1, cs =>
    match closing? quote cs, newline? cs with
    | some (text, rest), _ => .ok (text, rest)
    | none, some rest => do
      let (more, rest) ← readLong quote escapes fuel rest
      return ('\n' :: more, rest)
    | none, none =>
      match cs with
      | [] => stuckAt cs
      | c :: rest =>
        if escapes && c == '\\' then
          if endsLine rest then readLong quote escapes fuel (skipNewlines rest.length rest)
          else do
            let (e, rest) ← readEscape rest
            let (more, rest) ← readLong quote escapes fuel rest
            return (e :: more, rest)
        else if isPlain c then do
          let (more, rest) ← readLong quote escapes fuel rest
          return (c :: more, rest)
        else stuckAt cs

def readString : Reader String := fun cs => do
  let withoutNewline (cs : List Char) : List Char := (newline? cs).getD cs
  let (chars, rest) ← match cs with
    | '"' :: '"' :: '"' :: rest => readLong '"' true (rest.length + 1) (withoutNewline rest)
    | '\'' :: '\'' :: '\'' :: rest => readLong '\'' false (rest.length + 1) (withoutNewline rest)
    | '"' :: rest => readBasic (rest.length + 1) rest
    | '\'' :: rest => readLiteral rest
    | cs => stuckAt cs
  return (String.ofList chars, rest)

/-! ## Keys -/

def isKeyChar (c : Char) : Bool := c.isAlphanum || c == '_' || c == '-'

def readSimpleKey : Reader Key := fun cs => do
  let (text, rest) ← match cs with
    | '"' :: rest => readBasic (rest.length + 1) rest
    | '\'' :: rest => readLiteral rest
    | cs =>
      let text := cs.takeWhile isKeyChar
      if text.isEmpty then stuckAt cs else .ok (text, cs.drop text.length)
  return (⟨String.ofList text, cs.length⟩, rest)

def startsKey (cs : List Char) : Bool :=
  match cs with
  | c :: _ => isKeyChar c || c == '"' || c == '\''
  | [] => false

/-- Simple keys joined by dots, with blanks around them; a dot without a key behind it is left. -/
def readKeyParts : Nat → Reader (List Key)
  | 0, cs => stuckAt cs
  | fuel + 1, cs => do
    let (key, cs) ← readSimpleKey (skipBlank cs)
    let cs := skipBlank cs
    match cs with
    | '.' :: rest =>
      if startsKey (skipBlank rest) then
        let (more, cs) ← readKeyParts fuel rest
        return (key :: more, cs)
      else return ([key], cs)
    | cs => return ([key], cs)

/-- How many parts a key has less than, and how deep values nest less than. -/
def depthLimit : Nat := 80

/-- The path of a key and its last part. -/
def readKey : Reader (List Key × Key) := fun cs => do
  let (keys, rest) ← readKeyParts (cs.length + 1) cs
  match keys.getLast? with
  | some last => if keys.length < depthLimit then return ((keys.dropLast, last), rest) else stuckAt cs
  | none => stuckAt cs

/-! ## Numbers and dates -/

/-- Digits of a radix with single underscores between them, without the underscores. -/
def readDigits (radix : Nat) : Nat → Reader (List Char)
  | 0, cs => stuckAt cs
  | fuel + 1, cs =>
    match cs with
    | c :: rest =>
      if ((hexDigit? c).filter (· < radix)).isNone then stuckAt cs
      else
        match rest with
        | '_' :: after => do
          let (more, rest) ← readDigits radix fuel after
          return (c :: more, rest)
        | d :: _ =>
          if ((hexDigit? d).filter (· < radix)).isSome then do
            let (more, rest) ← readDigits radix fuel rest
            return (c :: more, rest)
          else return ([c], rest)
        | [] => return ([c], rest)
    | [] => stuckAt cs

def readSign (cs : List Char) : Bool × List Char :=
  match cs with
  | '-' :: rest => (true, rest)
  | '+' :: rest => (false, rest)
  | cs => (false, cs)

/-- The digits of a decimal number; a leading zero stands alone. -/
def readWhole : Reader (List Char) := fun cs =>
  match cs with
  | '0' :: rest => .ok (['0'], rest)
  | cs => readDigits 10 cs.length cs

def readExponent : Reader Int := fun cs =>
  match cs with
  | c :: rest =>
    if c == 'e' || c == 'E' then do
      let (negative, rest) := readSign rest
      let (digits, rest) ← readDigits 10 rest.length rest
      let n := (number? 10 digits).getD 0
      return (if negative then -(n : Int) else n, rest)
    else return (0, cs)
  | [] => return (0, cs)

def readFraction : Reader (List Char) := fun cs =>
  match cs with
  | '.' :: rest => readDigits 10 rest.length rest
  | cs => .ok ([], cs)

def namedNumber? (name : String) (cs : List Char) : Option (List Char) :=
  if name.toList.isPrefixOf cs then some (cs.drop name.length) else none

/-- A name for what is no finite number, after a sign. -/
def readLimit (negative : Bool) : Reader Source := fun cs =>
  match namedNumber? "inf" cs, namedNumber? "nan" cs with
  | some rest, _ => .ok (.limit (if negative then "-inf" else "inf"), rest)
  | none, some rest => .ok (.limit "NaN", rest)
  | none, none => stuckAt cs

def wholeSource? (n : Int) : Option Source :=
  if n < 0x8000000000000000 then (WideInt.ofInt? n).map fun n => .number (.whole n) else none

/-- The double; below the least one is minus infinity, and beyond the greatest one there is none. -/
def realSource? (negative : Bool) (d : Decimal) : Option Source :=
  match d.toDouble? negative with
  | some d => some (.number (.real d))
  | none => if negative then some (.limit "-inf") else none

def orStuck (cs : List Char) (value : Option α) : Except Nat α :=
  match value with
  | some a => .ok a
  | none => stuckAt cs

def readRadix (radix : Nat) : Reader Source := fun cs => do
  let (digits, rest) ← readDigits radix cs.length cs
  let source ← orStuck cs ((number? radix digits).bind fun n => wholeSource? n)
  return (source, rest)

def readDecimal : Reader Source := fun cs => do
  let (negative, unsigned) := readSign cs
  if unsigned.head?.all fun c => !c.isDigit then readLimit negative unsigned
  else
    let (whole, rest) ← readWhole unsigned
    match rest.head? with
    | some '.' | some 'e' | some 'E' =>
      let (fraction, rest) ← readFraction rest
      let (exponent, rest) ← readExponent rest
      let digits := (number? 10 (whole ++ fraction)).getD 0
      let source ← orStuck cs (realSource? negative ⟨digits, exponent - fraction.length⟩)
      return (source, rest)
    | _ =>
      let n := (number? 10 whole).getD 0
      let source ← orStuck cs (wholeSource? (if negative then -(n : Int) else n))
      return (source, rest)

def readNumber : Reader Source := fun cs =>
  match cs with
  | '0' :: 'x' :: rest => readRadix 16 rest
  | '0' :: 'o' :: rest => readRadix 8 rest
  | '0' :: 'b' :: rest => readRadix 2 rest
  | cs => readDecimal cs

/-- Exactly `count` digits whose number lies in a range. -/
def readField (count least most : Nat) : Reader Nat := fun cs =>
  let digits := cs.take count
  match number? 10 digits with
  | some n =>
    if digits.length = count && least ≤ n && n ≤ most then .ok (n, cs.drop count) else stuckAt cs
  | none => stuckAt cs

def daysIn (year month : Nat) : Nat :=
  if month = 2 then if year % 4 == 0 && (year % 100 != 0 || year % 400 == 0) then 29 else 28
  else if month ∈ [4, 6, 9, 11] then 30
  else 31

def readDate (cs : List Char) : Except Nat (List Char) := do
  let (year, cs) ← readField 4 0 9999 cs
  let cs ← expect '-' cs
  let (month, cs) ← readField 2 1 12 cs
  let cs ← expect '-' cs
  let (_, cs) ← readField 2 1 (daysIn year month) cs
  return cs

def readTime (cs : List Char) : Except Nat (List Char) := do
  let (_, cs) ← readField 2 0 23 cs
  let cs ← expect ':' cs
  let (_, cs) ← readField 2 0 59 cs
  let cs ← expect ':' cs
  let (_, cs) ← readField 2 0 60 cs
  match cs with
  | '.' :: c :: rest => if c.isDigit then return rest.dropWhile Char.isDigit else return cs
  | cs => return cs

def readOffset (cs : List Char) : Except Nat (List Char) :=
  match cs with
  | 'Z' :: rest | 'z' :: rest => .ok rest
  | c :: rest =>
    if c == '+' || c == '-' then do
      let (_, rest) ← readField 2 0 23 rest
      let rest ← expect ':' rest
      let (_, rest) ← readField 2 0 59 rest
      return rest
    else .ok cs
  | [] => .ok []

def startsDate (cs : List Char) : Bool :=
  (cs.take 4).all Char.isDigit && cs[4]? == some '-'

def startsTime (cs : List Char) : Bool :=
  (cs.take 2).all Char.isDigit && cs[2]? == some ':'

/-- The time behind a date, if there is one. -/
def readTimeOfDay (cs : List Char) : Except Nat (List Char) :=
  match cs with
  | c :: rest =>
    if (c == 'T' || c == 't' || c == ' ') && startsTime rest then do readOffset (← readTime rest)
    else .ok cs
  | [] => .ok []

/-- A date or a time, which decoders see as a table with one member of a reserved name. -/
def readDateTime : Reader Source := fun cs => do
  let rest ← if startsDate cs then do readTimeOfDay (← readDate cs) else readTime cs
  let written := String.ofList (cs.take (cs.length - rest.length))
  return (.table [(.text "$__toml_private_datetime", .text written)] none, rest)

def readWord : Reader Source := fun cs =>
  match namedNumber? "true" cs, namedNumber? "false" cs with
  | some rest, _ => .ok (.bool true, rest)
  | none, some rest => .ok (.bool false, rest)
  | none, none => readLimit false cs

def readScalar : Reader Source := fun cs =>
  match cs with
  | '"' :: _ | '\'' :: _ => do
    let (s, rest) ← readString cs
    return (.text s, rest)
  | c :: _ =>
    if startsDate cs || startsTime cs then readDateTime cs
    else if c.isDigit || c == '+' || c == '-' then readNumber cs
    else readWord cs
  | [] => stuckAt cs

/-! ## Values -/

/-- Skips blanks, newlines and comments. -/
def skipFiller : Nat → List Char → List Char
  | 0, cs => cs
  | fuel + 1, cs =>
    let cs := skipBlank cs
    match cs with
    | '#' :: _ =>
      match newline? (skipComment cs) with
      | some rest => skipFiller fuel rest
      | none => cs
    | _ =>
      match newline? cs with
      | some rest => skipFiller fuel rest
      | none => cs

def skipAll (cs : List Char) : List Char := skipFiller (cs.length + 1) cs

mutual

/-- A value with at most `room` more levels inside it. -/
def readValue : Nat → Nat → Reader Node
  | 0, _, cs => stuckAt cs
  | fuel + 1, room, cs =>
    match cs with
    | '[' :: rest =>
      if room = 0 then stuckAt rest
      else do
        let (items, rest) ← readItems fuel (room - 1) true (skipAll rest)
        return (.list cs.length items, rest)
    | '\x7b' :: rest =>
      if room = 0 then stuckAt rest
      else do
        let (entries, rest) ← readPairs fuel (room - 1) [] rest
        return (.table .braced (some cs.length) entries, rest)
    | cs => do
      let (source, rest) ← readScalar cs
      return (.value cs.length source, rest)

/-- The items of a list and its closing bracket; a comma may follow the last item. -/
def readItems : Nat → Nat → Bool → Reader (List Node)
  | 0, _, _, cs => stuckAt cs
  | fuel + 1, room, first, cs =>
    match cs with
    | ']' :: rest => .ok ([], rest)
    | ',' :: _ => if first then stuckAt cs else next fuel room cs
    | cs => next fuel room cs
where
  next (fuel room : Nat) (cs : List Char) : Except Nat (List Node × List Char) := do
    let (item, rest) ← readValue fuel room cs
    let rest := skipAll rest
    match rest with
    | ',' :: rest =>
      let (items, rest) ← readItems fuel room false (skipAll rest)
      return (item :: items, rest)
    | ']' :: rest => return ([item], rest)
    | rest => stuckAt rest

/-- The members of a table between braces after those read so far, and the closing brace. -/
def readPairs : Nat → Nat → Entries → Reader Entries
  | 0, _, _, cs => stuckAt cs
  | fuel + 1, room, entries, cs =>
    match entries, skipBlank cs with
    | [], '\x7d' :: rest => .ok ([], rest)
    | entries, cs => do
      let ((path, key), rest) ← readKey cs
      let rest ← expect '=' rest
      let (node, rest) ← readValue fuel room (skipBlank rest)
      let entries ← orStuck cs (entries.put? .braced path key node)
      match skipBlank rest with
      | ',' :: rest => readPairs fuel room entries rest
      | '\x7d' :: rest => return (entries, rest)
      | rest => stuckAt rest

end

/-! ## Documents -/

/-- The document so far: what is complete, and the table that is being read. -/
structure Progress where
  root : Entries
  path : List Key
  repeated : Bool
  mark : Option Nat
  entries : Entries

namespace Progress

def start : Progress := ⟨[], [], false, none, []⟩

/-- The whole document, with the table that is being read put into its place. -/
def close? (p : Progress) : Option Entries :=
  match p.path.getLast? with
  | none => some p.entries
  | some key =>
    let table := Node.table .header p.mark p.entries
    let change (_ : TableKind) (entries : Entries) : Option (Entries × Unit) :=
      if p.repeated then
        match entries.get? key.text with
        | some (.tables items) => some (entries.replace key.text (.tables (items ++ [table])), ())
        | _ => none
      else some (entries.add key table, ())
    (p.root.at? false change p.path.dropLast .header).map (·.1)

/-- Goes on with the table of a header. A table that its parts have implied keeps them. -/
def open? (p : Progress) (path : List Key) (mark : Nat) : Option Progress := do
  let root ← p.close?
  let key ← path.getLast?
  let change (_ : TableKind) (entries : Entries) : Option (Entries × Entries) :=
    match entries.get? key.text with
    | none => some (entries, [])
    | some (.table .implied _ inner) => some (entries.erase key.text, inner)
    | some _ => none
  let (root, entries) ← root.at? false change path.dropLast .header
  return ⟨root, path, false, some mark, entries⟩

/-- Goes on with a new table of a repeated header. -/
def openNext? (p : Progress) (path : List Key) (mark : Nat) : Option Progress := do
  let root ← p.close?
  let key ← path.getLast?
  let change (_ : TableKind) (entries : Entries) : Option (Entries × Unit) :=
    match entries.get? key.text with
    | none => some (entries.add key (.tables []), ())
    | some (.tables _) => some (entries, ())
    | some _ => none
  let (root, _) ← root.at? false change path.dropLast .header
  return ⟨root, path, true, some mark, []⟩

def put? (p : Progress) (path : List Key) (key : Key) (node : Node) : Option Progress := do
  return { p with entries := ← p.entries.put? .header path key node }

end Progress

def readHeader (p : Progress) : Reader Progress := fun cs =>
  match cs with
  | '[' :: '[' :: rest => do
    let ((path, key), rest) ← readKey rest
    let rest ← expect ']' rest
    let rest ← expect ']' rest
    let rest ← endLine rest
    return (← orStuck cs (p.openNext? (path ++ [key]) cs.length), rest)
  | cs => do
    let ((path, key), rest) ← readKey (cs.drop 1)
    let rest ← expect ']' rest
    let rest ← endLine rest
    return (← orStuck cs (p.open? (path ++ [key]) cs.length), rest)

def readPair (p : Progress) : Reader Progress := fun cs => do
  let ((path, key), rest) ← readKey cs
  let rest ← expect '=' rest
  let rest := skipBlank rest
  let (node, rest) ← readValue (2 * rest.length + 2) (depthLimit - 1) rest
  let rest ← endLine rest
  return (← orStuck cs (p.put? path key node), rest)

def readLines : Nat → Progress → List Char → Except Nat Progress
  | 0, _, cs => stuckAt cs
  | fuel + 1, p, cs =>
    let cs := skipBlank cs
    match cs, newline? cs with
    | [], _ => .ok p
    | _, some rest => readLines fuel p rest
    | '#' :: _, none => do readLines fuel p (← endLine cs)
    | '[' :: _, none => do
      let (p, rest) ← readHeader p cs
      readLines fuel p rest
    | cs, none => do
      let (p, rest) ← readPair p cs
      readLines fuel p rest

/-- The mark in front of a text may stand in front of a document. -/
def withoutByteOrderMark (cs : List Char) : List Char :=
  match cs with
  | '\ufeff' :: rest => rest
  | cs => cs

/-- The table of a document, or how many characters are left where it cannot be read on. -/
def readDocument (cs : List Char) : Except Nat Node := do
  let cs := withoutByteOrderMark cs
  let p ← readLines (cs.length + 1) .start cs
  let entries ← orStuck [] p.close?
  return .table .header none entries

/-- The place in a text of a mark. -/
def placeOf (cs : List Char) (mark : Nat) : Text.Place := Text.placeAt cs (cs.length - mark)

end Rulebook.Toml
