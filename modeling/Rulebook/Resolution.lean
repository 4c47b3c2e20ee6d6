import Rulebook.Corpus.Basic
import Rulebook.Manifest.Basic

/-!
# Resolution

Every agent gets the active cards that its selector accepts, in id order. An agent without cards is
an error. A card's default that differs from the agent's own is a warning, and so is an active card
that no agent gets.
-/

namespace Rulebook

set_option autoImplicit false

structure DefaultsConflict where
  agent : String
  rule : String
  key : String
  manifestValue : Json
  cardValue : Json
deriving DecidableEq

inductive ResolveWarning where
  | orphan (rule : String) (path : Path)
  | conflict (c : DefaultsConflict)
deriving DecidableEq

def ResolveWarning.message : ResolveWarning → String
  | .orphan rule path => "rule '" ++ rule ++ "' (" ++ path.text ++ ") is not selected by any agent"
  | .conflict c =>
    "agent '" ++ c.agent ++ "': rule '" ++ c.rule ++ "' sets default '" ++ c.key ++ "' = " ++
      c.cardValue.compact ++ " but the manifest sets " ++ c.manifestValue.compact ++
      " (manifest wins)"

structure Resolution where
  assignments : Keyed (List LoadedCard)
  errors : List ManifestError
  warnings : List ResolveWarning

namespace Resolution

def isComplete (r : Resolution) : Bool := r.errors.isEmpty

def cardsFor (r : Resolution) (agent : String) : List LoadedCard :=
  (r.assignments.find? agent).getD []

def orphans (r : Resolution) : List (String × Path) :=
  r.warnings.filterMap fun w =>
    match w with
    | .orphan rule path => some (rule, path)
    | .conflict _ => none

/-- The active cards that an agent's selector accepts. -/
def selection (corpus : Corpus) (agent : Agent) : List LoadedCard :=
  corpus.active.filter fun loaded => agent.selector.accepts loaded.card

def cardConflicts (agent : Agent) (loaded : LoadedCard) : List ResolveWarning :=
  loaded.card.defaults.filterMap fun (key, cardValue) =>
    match agent.policy.defaults.find? key with
    | some manifestValue =>
      if manifestValue.same cardValue then none
      else some (.conflict ⟨agent.id, loaded.id, key, manifestValue, cardValue⟩)
    | none => none

def conflicts (corpus : Corpus) (agent : Agent) : List ResolveWarning :=
  (selection corpus agent).flatMap (cardConflicts agent)

def emptyAgents (manifest : Manifest) (corpus : Corpus) : List ManifestError :=
  manifest.agents.filterMap fun agent =>
    if (selection corpus agent).isEmpty then some (.emptyAgent agent.id agent.selector.text)
    else none

def isSelected (manifest : Manifest) (corpus : Corpus) (loaded : LoadedCard) : Bool :=
  manifest.agents.any fun agent => (selection corpus agent).any (·.id == loaded.id)

def orphanWarnings (manifest : Manifest) (corpus : Corpus) : List ResolveWarning :=
  (corpus.active.filter (!isSelected manifest corpus ·)).map fun loaded =>
    .orphan loaded.id loaded.path

def assign (manifest : Manifest) (corpus : Corpus) : Keyed (List LoadedCard) :=
  manifest.agents.foldl (fun table agent =>
    let cards := selection corpus agent
    if cards.isEmpty then table else table.insert agent.id cards) []

def resolve (manifest : Manifest) (corpus : Corpus) : Resolution where
  assignments := assign manifest corpus
  errors := emptyAgents manifest corpus
  warnings :=
    manifest.agents.flatMap (conflicts corpus) ++ orphanWarnings manifest corpus

end Resolution

end Rulebook
