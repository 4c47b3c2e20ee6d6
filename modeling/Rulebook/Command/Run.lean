import Rulebook.Build
import Rulebook.Command.Arguments
import Rulebook.Package.Verify

/-!
# Running commands

A command reads and changes a disk, prints a text, and may end with an error. What was printed before
an error stays printed.
-/

namespace Rulebook

set_option autoImplicit false

/-- What a command needs to know beyond the disk. -/
structure Surroundings where
  /-- How many workers the machine runs at once. -/
  cores : Nat
  /-- The present, in seconds since the start of 1970. -/
  now : Int
  /-- The build date that the environment asks for. -/
  sourceDate : Option String

/-- What is printed, and the error at the end. -/
structure Reply where
  output : String
  error : Option String
deriving DecidableEq

namespace Reply

def ok (output : String) : Reply := ⟨output, none⟩

def fail (error : String) : Reply := ⟨"", some error⟩

/-- The reply with more text in front. -/
def after (text : String) (reply : Reply) : Reply := { reply with output := text ++ reply.output }

end Reply

namespace Command

def lines (texts : List String) : String := String.join (texts.map (· ++ "\n"))

def reportText (report : Report) (format : ReportFormat) (verbose : Bool) : String :=
  match format with
  | .text => report.render (if verbose then .info else .warning)
  | .json => report.toJson.pretty ++ "\n"

def closing (format : ReportFormat) (text : String) : String :=
  match format with
  | .text => text
  | .json => ""

def runValidate (s : Surroundings) (config : Config) (build : BuildArguments) (verbose : Bool)
    (d : Disk) : Reply :=
  let o := Build.validate s.cores (build.apply config) (.ofSeconds s.now) d
  let reply : Reply :=
    if o.failed then .fail ("validation failed: " ++ o.report.summary)
    else .ok (closing build.format
      (lines [toString o.validCards ++ " card(s) valid, " ++ toString o.assignments.length ++
        " agent(s) resolved"]))
  reply.after (reportText o.report build.format verbose)

/-- A text with blanks behind it up to a width. -/
def padded (width : Nat) (s : String) : String :=
  s ++ String.ofList (List.replicate (width - s.length) ' ')

def publishedLine (p : Published) : String :=
  "  " ++ padded 24 p.agent ++ " sha256:" ++ p.fileDigest ++ "  source:" ++ p.sourceDigest

def publishedText (config : Config) (stamp : Stamp) (published : List Published) : String :=
  lines (("Wrote " ++ toString published.length ++ " package(s) to " ++ config.paths.output.text ++
    " (version " ++ stamp.version ++ ", built " ++ stamp.buildDate ++ ")") ::
    published.map publishedLine)

def runCompile (s : Surroundings) (config : Config) (build : BuildArguments)
    (buildDate version : Option String) (verbose : Bool) (d : Disk) : Reply × Disk :=
  match Stamp.resolve buildDate s.sourceDate s.now with
  | .error e => (.fail e.message, d)
  | .ok stamp =>
    let stamp := version.elim stamp stamp.withVersion
    let config := build.apply config
    let (o, d) := Build.compile s.cores config stamp d
    let reply : Reply :=
      if o.failed then
        .fail ("compilation failed, no packages written: " ++ o.report.summary)
      else .ok (closing build.format (publishedText config stamp o.published))
    (reply.after (reportText o.report build.format verbose), d)

/-! ## Lists -/

def listing (o : Outcome) : Json :=
  .object [("agents", Card.listsJson o.assignments), ("orphans", Card.textsJson o.orphans),
    ("report", o.report.toJson.byKey)]

def agentLines (entry : String × List String) : List String :=
  (entry.1 ++ " (" ++ toString entry.2.length ++ " rule(s))") :: entry.2.map ("  " ++ ·)

def orphanLines (orphans : List String) : List String :=
  if orphans.isEmpty then []
  else ("orphaned (" ++ toString orphans.length ++ " card(s))") :: orphans.map ("  " ++ ·)

def runList (s : Surroundings) (config : Config) (build : BuildArguments) (d : Disk) : Reply :=
  let o := Build.validate s.cores (build.apply config) (.ofSeconds s.now) d
  let text := match build.format with
    | .json => (listing o).pretty ++ "\n"
    | .text =>
      lines (o.assignments.flatMap agentLines ++ orphanLines o.orphans) ++
        reportText o.report .text false
  (if o.failed then Reply.fail o.report.summary else .ok "").after text

/-! ## Verification -/

/-- The cards to compare packages with, which must all be sound. -/
def referenceCorpus (s : Surroundings) (d : Disk) (rules : Path) : Except String Corpus :=
  match d.loadCorpus s.cores ⟨false, 0⟩ rules with
  | .error e => .error e.message
  | .ok load =>
    if load.isClean then .ok load.corpus
    else
      .error ("rules directory " ++ rules.text ++ " has " ++ toString load.errors.length ++
        " error(s); cannot check drift")

/-- A directory stands for the packages in it. -/
def expand (d : Disk) (input : Path) : List Path :=
  match d.isDirectory input, d.names input with
  | true, .ok names =>
    (names.map fun name => input.join ⟨name⟩).filter fun p =>
      d.isFile p && p.extension? == some "json"
  | _, _ => [input]

def findings (p : Package) (corpus : Option Corpus) (manifest : Option Manifest) : List Finding :=
  p.verify corpus ++
    match manifest, corpus with
    | some manifest, some corpus => p.verifySelection manifest corpus
    | _, _ => []

def findingLine (f : Finding) : String :=
  "  " ++ (if f.isDrift then "drift" else "invalid") ++ ": " ++ f.message

def packageText (path : Path) (p : Package) (found : List Finding) : String :=
  if found.isEmpty then
    lines [path.text ++ ": OK (" ++ toString p.rules.length ++ " rule(s), source " ++
      p.sourceDigest ++ ")"]
  else
    lines ((path.text ++ ": " ++ toString found.length ++ " problem(s)") :: found.map findingLine)

def checkedText (total failed : Nat) : Reply :=
  let text := lines [toString total ++ " package(s) checked, " ++ toString failed ++ " failed"]
  if failed = 0 then .ok text
  else ⟨text, some (toString failed ++ " package(s) failed verification")⟩

/-- Checks packages one by one, up to one that cannot be read. -/
def checkPackages (d : Disk) (corpus : Option Corpus) (manifest : Option Manifest) (total : Nat) :
    List Path → Nat → Reply
  | [], failed => checkedText total failed
  | path :: rest, failed =>
    match d.loadPackage path with
    | .error e => .fail e.message
    | .ok p =>
      let found := findings p corpus manifest
      (checkPackages d corpus manifest total rest
        (if found.isEmpty then failed else failed + 1)).after (packageText path p found)

def runVerify (s : Surroundings) (inputs : List Path) (rules manifest : Option Path) (d : Disk) :
    Except String Reply := do
  let corpus ← rules.mapM (referenceCorpus s d)
  let manifest ← manifest.mapM fun path => (d.loadManifest path).mapError (·.message)
  let paths := inputs.flatMap (expand d)
  if paths.isEmpty then throw "no package files found"
  return checkPackages d corpus manifest paths.length paths 0

end Command

namespace Invocation

/-- A root that is there is taken by its absolute path. -/
def rootOf (d : Disk) (root : Path) : Path :=
  match d.resolved root with
  | .ok path => path
  | .error _ => root

def run (s : Surroundings) (i : Invocation) (d : Disk) : Reply × Disk :=
  match d.projectConfig (rootOf d i.root) with
  | .error e => (.fail e.message, d)
  | .ok config =>
    match i.command with
    | .validate build => (Command.runValidate s config build i.verbose d, d)
    | .compile build buildDate version =>
      Command.runCompile s config build buildDate version i.verbose d
    | .verify packages rules manifest =>
      match Command.runVerify s packages rules manifest d with
      | .ok reply => (reply, d)
      | .error message => (.fail message, d)
    | .list build => (Command.runList s config build d, d)

def versionText : String := "rulecard 0.1.0\n"

end Invocation

end Rulebook
