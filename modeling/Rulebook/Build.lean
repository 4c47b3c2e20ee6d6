import Rulebook.Corpus.Load
import Rulebook.Package.Compile
import Rulebook.Package.Load
import Rulebook.Package.Publication
import Rulebook.Report.Causes

/-!
# Builds

A build loads the cards and the manifest, resolves who gets which cards, compiles a package for every
agent, and publishes the packages. Each stage needs the one before it to be free of errors, but
everything that a stage finds is reported.
-/

namespace Rulebook

set_option autoImplicit false

structure Outcome where
  report : Report
  discovered : Nat
  validCards : Nat
  /-- The rules of every agent that gets any. -/
  assignments : Keyed (List String)
  orphans : List String
  /-- What was compiled, if the build came as far as that without an error. -/
  compiled : Option (List Package)
  published : List Published

namespace Outcome

def failed (o : Outcome) : Bool := o.report.hasErrors

def packages (o : Outcome) : List Package := o.compiled.getD []

def empty : Outcome := ⟨.empty, 0, 0, [], [], none, []⟩

def add (o : Outcome) (more : List Diagnostic) : Outcome := { o with report := o.report.add more }

end Outcome

namespace Build

/-- What loading the cards has found. -/
def ofLoad (load : CorpusLoad) : Outcome :=
  let found := load.errors.flatMap (·.diagnostics .error) ++
    load.skipped.flatMap (·.diagnostics .warning) ++ load.corpus.disabled.map (·.disabledNote)
  { (Outcome.empty.add found) with
    discovered := load.discovered, validCards := load.corpus.size }

def compileAgent (config : Config) (stamp : Stamp) (corpus : Corpus) (r : Resolution)
    (agent : Agent) : Except CompileError Package :=
  Package.compile agent (r.cardsFor agent.id) corpus stamp config.build.attribution

def compileAll (cores : Nat) (config : Config) (stamp : Stamp) (corpus : Corpus) (r : Resolution)
    (manifest : Manifest) : List (Except CompileError Package) :=
  let workers := effectiveWorkers cores config.build.workers manifest.size
  shareOut workers (compileAgent config stamp corpus r) manifest.agents

def compileFailure? : Except CompileError Package → Option CompileError
  | .ok _ => none
  | .error e => some e

/-- Resolves a manifest and, if every agent has cards, compiles their packages. -/
def resolveAndCompile (cores : Nat) (config : Config) (stamp : Stamp) (corpus : Corpus)
    (manifest : Manifest) (o : Outcome) : Outcome :=
  let r := Resolution.resolve manifest corpus
  let o := { o.add (r.errors.flatMap (·.diagnostics config.paths.manifest) ++
      r.warnings.map (·.diagnostic)) with
    assignments := r.assignments.mapValues fun cards => cards.map (·.id)
    orphans := r.orphans.map (·.1) }
  if !r.isComplete then o
  else
    let results := compileAll cores config stamp corpus r manifest
    let o := o.add ((results.filterMap compileFailure?).map (·.diagnostic))
    if o.failed then o else { o with compiled := some (results.filterMap (·.toOption)) }

/-- Everything but publishing. The manifest may be absent where it is not `required`. -/
def examine (cores : Nat) (required : Bool) (config : Config) (stamp : Stamp) (d : Disk) :
    Outcome :=
  let paths := config.paths
  match d.loadCorpus cores ⟨config.build.lenient, config.build.workers⟩ paths.rules with
  | .error e => Outcome.empty.add (e.diagnostics .error)
  | .ok load =>
    let o := ofLoad load
    if !required && !d.contains paths.manifest then o
    else
      match d.loadManifest paths.manifest with
      | .error e => o.add (e.diagnostics paths.manifest)
      | .ok manifest =>
        if load.isClean then resolveAndCompile cores config stamp load.corpus manifest o else o

/-- Checks a project without writing anything. -/
def validate (cores : Nat) (config : Config) (stamp : Stamp) (d : Disk) : Outcome :=
  examine cores false config stamp d

def publish (config : Config) (o : Outcome) (d : Disk) : Outcome × Disk :=
  match o.compiled with
  | none => (o, d)
  | some packages =>
    match Publication.publish config.paths.output packages d with
    | (.ok published, d) => ({ o with published }, d)
    | (.error e, d) => (o.add [e.diagnostic], d)

/-- Builds a project and publishes its packages. -/
def compile (cores : Nat) (config : Config) (stamp : Stamp) (d : Disk) : Outcome × Disk :=
  publish config (examine cores true config stamp d) d

end Build

end Rulebook
