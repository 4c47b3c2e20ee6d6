import Rulebook.Card.Text
import Rulebook.Corpus.Basic
import Rulebook.Corpus.Discovery
import Rulebook.Corpus.Workers

/-!
# Loading a corpus

Every card file is read and checked on its own, whatever the others hold. Files that cannot be read and
ids that are taken are always errors; cards that break the schema are errors unless the load is
lenient, which skips them.
-/

namespace Rulebook

set_option autoImplicit false

structure LoadOptions where
  lenient : Bool
  /-- None stands for as many workers as the machine runs at once. -/
  workers : Nat
deriving DecidableEq, Repr

structure CorpusLoad where
  corpus : Corpus
  errors : List CardError
  skipped : List CardError
  /-- How many card files there are. -/
  discovered : Nat

namespace CorpusLoad

def isClean (load : CorpusLoad) : Bool := load.errors.isEmpty

def isSchemaError : CardError → Bool
  | .schema .. => true
  | _ => false

/-- The results of some files, sorted. -/
structure Sifted where
  cards : List LoadedCard
  errors : List CardError
  skipped : List CardError

/-- Adds the result of one more file. A lenient load skips a card that breaks the schema; whatever else is
wrong is an error. -/
def Sifted.add (lenient : Bool) (sifted : Sifted) : Except CardError LoadedCard → Sifted
  | .ok loaded => { sifted with cards := sifted.cards ++ [loaded] }
  | .error e =>
    if lenient && isSchemaError e then { sifted with skipped := sifted.skipped ++ [e] }
    else { sifted with errors := sifted.errors ++ [e] }

def sift (lenient : Bool) (results : List (Except CardError LoadedCard)) : Sifted :=
  results.foldl (.add lenient) ⟨[], [], []⟩

/-- Sorts the results of all files, and builds the corpus of the cards among them. -/
def ofResults (lenient : Bool) (results : List (Except CardError LoadedCard)) : CorpusLoad :=
  let sifted := sift lenient results
  let (corpus, duplicates) := Corpus.build sifted.cards
  { corpus
    errors := sifted.errors ++ duplicates
    skipped := sifted.skipped
    discovered := results.length }

end CorpusLoad

namespace Disk

def loadCard (d : Disk) (path : Path) : Except CardError LoadedCard :=
  match d.readText path with
  | .error e => .error (.io path e.message)
  | .ok text =>
    match Card.ofYaml text with
    | .ok card => .ok (.ofCard card path)
    | .error violations => .error (.schema path violations)

/-- The corpus of a directory, loaded on a machine that runs `cores` workers at once. -/
def loadCorpus (cores : Nat) (options : LoadOptions) (d : Disk) (root : Path) :
    Except CardError CorpusLoad := do
  let paths ← Discovery.cardPaths d root
  let workers := effectiveWorkers cores options.workers paths.length
  return .ofResults options.lenient (shareOut workers d.loadCard paths)

end Disk

end Rulebook
