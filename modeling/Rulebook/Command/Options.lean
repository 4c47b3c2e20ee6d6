/-!
# Options on a command line

The words of a command line are options, the values of options, and operands. An option is `--name` or
a letter behind a single hyphen; its value is the next word or follows an equals sign. An option may
be given once. Behind a bare `--` every word is an operand.
-/

namespace Rulebook

set_option autoImplicit false

/-- What an option takes. -/
inductive ValueKind where
  | nothing
  | path
  | text
  | count
  | choice (names : List String)
deriving DecidableEq, Repr

structure OptionSpec where
  name : String
  letter : Option Char
  kind : ValueKind
deriving DecidableEq, Repr

namespace ValueKind

/-- The number a word stands for, if 64 bits hold it. -/
def number? (word : String) : Option Nat :=
  let digits := match word.toList with
    | '+' :: rest => rest
    | cs => cs
  if digits.isEmpty || !digits.all Char.isDigit then none
  else
    let n := digits.foldl (fun n c => n * 10 + (c.toNat - '0'.toNat)) 0
    if n < 0x10000000000000000 then some n else none

def accepts (value : String) : ValueKind → Bool
  | .nothing => false
  | .path => !value.isEmpty
  | .text => true
  | .count => (number? value).isSome
  | .choice names => value ∈ names

end ValueKind

/-- The options and operands read so far. -/
structure Words where
  options : List (String × String)
  operands : List String
deriving DecidableEq, Repr

/-- Why reading a command line stops. -/
inductive Stop where
  | misused
  | help
  | version
deriving DecidableEq, Repr

namespace Words

def empty : Words := ⟨[], []⟩

def has (words : Words) (name : String) : Bool := words.options.any (·.1 == name)

def value? (words : Words) (name : String) : Option String :=
  (words.options.find? (·.1 == name)).map (·.2)

def addOption (words : Words) (spec : OptionSpec) (value : String) : Except Stop Words :=
  if words.has spec.name then .error .misused
  else .ok { words with options := words.options ++ [(spec.name, value)] }

def addValue (words : Words) (spec : OptionSpec) (value : String) : Except Stop Words :=
  if spec.kind.accepts value then words.addOption spec value else .error .misused

def addOperand (words : Words) (operand : String) : Words :=
  { words with operands := words.operands ++ [operand] }

/-- The options that stop reading. -/
def stopOf (name : String) : Option Stop :=
  match name with
  | "help" => some .help
  | "version" => some .version
  | _ => none

def isOperand (word : String) : Bool := word == "-" || word.toList.head? != some '-'

/-- Letters behind a hyphen; none of the options with a letter takes a value. -/
def addLetters (specs : List OptionSpec) : List Char → Words → Except Stop Words
  | [], words => .ok words
  | c :: rest, words =>
    match specs.find? (·.letter == some c) with
    | none => .error .misused
    | some spec =>
      match stopOf spec.name with
      | some stop => .error stop
      | none => do addLetters specs rest (← words.addOption spec "")

/-- Reads words up to the first operand that `ends` them, and gives that operand and what follows. -/
def read (specs : List OptionSpec) (ends : Bool) :
    List String → Words → Except Stop (Words × List String)
  | [], words => .ok (words, [])
  | word :: rest, words =>
    if word == "--" then
      if ends then
        if rest.isEmpty then .ok (words, []) else .error .misused
      else .ok (rest.foldl addOperand words, [])
    else if isOperand word then
      if ends then .ok (words, word :: rest) else read specs ends rest (words.addOperand word)
    else if "--".toList.isPrefixOf word.toList then
      let name := (word.toList.drop 2).takeWhile (· != '=')
      let attached := (word.toList.drop 2).drop name.length
      match specs.find? (·.name == String.ofList name) with
      | none => .error .misused
      | some spec =>
        if spec.kind = .nothing then
          if !attached.isEmpty then .error .misused
          else
            match stopOf spec.name with
            | some stop => .error stop
            | none => do read specs ends rest (← words.addOption spec "")
        else
          match attached, rest with
          | _ :: value, rest => do
            read specs ends rest (← words.addValue spec (String.ofList value))
          | [], value :: rest =>
            if isOperand value then do read specs ends rest (← words.addValue spec value)
            else .error .misused
          | [], [] => .error .misused
    else do read specs ends rest (← addLetters specs (word.toList.drop 1) words)

end Words

end Rulebook
