import Rulebook.Config
import Rulebook.Command.Options

/-!
# Command lines

`rulecard` has four commands: `validate`, `compile`, `verify` and `list`. Options of the program stand
in front of the command, options of the command behind it, and those for the log in either place.
-/

namespace Rulebook

set_option autoImplicit false

inductive ReportFormat where
  | text
  | json
deriving DecidableEq, Repr

/-- What replaces the settings of a configuration. -/
structure BuildArguments where
  rules : Option Path
  manifest : Option Path
  output : Option Path
  lenient : Bool
  workers : Option Nat
  format : ReportFormat
deriving DecidableEq, Repr

inductive Command where
  | validate (build : BuildArguments)
  | compile (build : BuildArguments) (buildDate version : Option String)
  | verify (packages : List Path) (rules manifest : Option Path)
  | list (build : BuildArguments)
deriving DecidableEq, Repr

structure Invocation where
  root : Path
  verbose : Bool
  command : Command
deriving DecidableEq, Repr

namespace BuildArguments

def apply (build : BuildArguments) (config : Config) : Config where
  paths := ⟨build.rules.getD config.paths.rules, build.manifest.getD config.paths.manifest,
    build.output.getD config.paths.output⟩
  build := { config.build with
    lenient := build.lenient || config.build.lenient
    workers := build.workers.getD config.build.workers }

end BuildArguments

namespace Invocation

def helpOption : OptionSpec := ⟨"help", some 'h', .nothing⟩

def logOptions : List OptionSpec :=
  [⟨"verbose", some 'v', .nothing⟩, ⟨"log-format", none, .choice ["text", "json"]⟩, helpOption]

def programOptions : List OptionSpec :=
  [⟨"project-root", none, .path⟩, ⟨"version", some 'V', .nothing⟩] ++ logOptions

def buildOptions : List OptionSpec :=
  [⟨"rules-dir", none, .path⟩, ⟨"manifest", none, .path⟩, ⟨"out", none, .path⟩,
    ⟨"lenient", none, .nothing⟩, ⟨"workers", none, .count⟩,
    ⟨"format", none, .choice ["text", "json"]⟩] ++ logOptions

def compileOptions : List OptionSpec :=
  [⟨"build-date", none, .text⟩, ⟨"package-version", none, .text⟩] ++ buildOptions

def verifyOptions : List OptionSpec :=
  [⟨"rules-dir", none, .path⟩, ⟨"manifest", none, .path⟩] ++ logOptions

def path? (words : Words) (name : String) : Option Path := (words.value? name).map Path.mk

def buildArguments (words : Words) : BuildArguments where
  rules := path? words "rules-dir"
  manifest := path? words "manifest"
  output := path? words "out"
  lenient := words.has "lenient"
  workers := (words.value? "workers").bind ValueKind.number?
  format := if words.value? "format" = some "json" then .json else .text

/-- Reads the options of a command that takes no operands. -/
def readOptions (specs : List OptionSpec) (args : List String) : Except Stop Words := do
  let (words, _) ← Words.read specs false args .empty
  if words.operands.isEmpty then return words else throw .misused

/-- Reads a command, and whether it asks for more to be shown. -/
def readCommand (name : String) (args : List String) : Except Stop (Command × Bool) := do
  match name with
  | "validate" =>
    let words ← readOptions buildOptions args
    return (.validate (buildArguments words), words.has "verbose")
  | "compile" =>
    let words ← readOptions compileOptions args
    return (.compile (buildArguments words) (words.value? "build-date")
      (words.value? "package-version"), words.has "verbose")
  | "verify" =>
    let (words, _) ← Words.read verifyOptions false args .empty
    if words.operands.isEmpty || words.operands.any (·.isEmpty) then throw .misused
    if words.has "manifest" && !words.has "rules-dir" then throw .misused
    return (.verify (words.operands.map Path.mk) (path? words "rules-dir")
      (path? words "manifest"), words.has "verbose")
  | "list" =>
    let words ← readOptions buildOptions args
    return (.list (buildArguments words), words.has "verbose")
  | "help" => throw .help
  | _ => throw .misused

def read (args : List String) : Except Stop Invocation := do
  let (words, rest) ← Words.read programOptions true args .empty
  match rest with
  | [] => throw .misused
  | name :: args =>
    let (command, verbose) ← readCommand name args
    return ⟨⟨(words.value? "project-root").getD "."⟩, words.has "verbose" || verbose, command⟩

end Invocation

end Rulebook
