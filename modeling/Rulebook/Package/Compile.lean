import Rulebook.Corpus.Basic
import Rulebook.Package.Basic
import Rulebook.Package.Stamp

/-!
# Compiling an agent

A package takes an agent's cards in id order. The cards must be there, each id once, and each with
the content that the corpus has for it. The validation hooks name, for each tool that a card can be
detected with, the tool's rule ids in the order in which the cards first mention them.
-/

namespace Rulebook

set_option autoImplicit false

namespace Package

/-- The rule ids of every tool so far, and every id seen with the tool it was seen for. -/
structure Hooks where
  lists : Keyed (List String)
  seen : List (String × String)

namespace Hooks

def empty : Hooks := ⟨[], []⟩

def idsOf (hooks : Hooks) (tool : String) : List String := (hooks.lists.find? tool).getD []

/-- An id is added once to a tool, whatever other tools have it. -/
def add (tool : String) (hooks : Hooks) (id : String) : Hooks :=
  if (tool, id) ∈ hooks.seen then hooks
  else ⟨hooks.lists.insert tool (hooks.idsOf tool ++ [id]), (tool, id) :: hooks.seen⟩

/-- A tool is listed even if it comes without ids. -/
def register (hooks : Hooks) (tool : String) : Hooks :=
  { hooks with lists := hooks.lists.insert tool (hooks.idsOf tool) }

def addTool (hooks : Hooks) (entry : String × List String) : Hooks :=
  entry.2.foldl (add entry.1) (hooks.register entry.1)

def addCard (hooks : Hooks) (card : Card) : Hooks := card.detect.foldl addTool hooks

end Hooks

/-- The rule ids of every tool over all cards. -/
def mergeHooks (cards : List Card) : Keyed (List String) := (cards.foldl Hooks.addCard .empty).lists

/-- Cards by rising id; cards with one id keep their order. -/
def inOrder (cards : List LoadedCard) : List LoadedCard :=
  cards.mergeSort fun a b => !decide (b.id < a.id)

def firstRepeated : List LoadedCard → Option String
  | a :: b :: rest => if a.id = b.id then some a.id else firstRepeated (b :: rest)
  | _ => none

/-- Whether the corpus has the card with the same content. -/
def isKnown (corpus : Corpus) (loaded : LoadedCard) : Bool :=
  (corpus.find? loaded.id).any (·.contentHash == loaded.contentHash)

def ofCards (agent : Agent) (cards : List LoadedCard) (stamp : Stamp) (attribution : String) :
    Package where
  id := agent.id
  name := agent.name
  version := stamp.version
  buildDate := stamp.buildDate
  sourceDigest := Rulebook.sourceDigest (cards.map fun c => (c.id, c.contentHash))
  attribution := attribution
  policy := agent.policy
  rules := cards.map (·.id)
  rulesDetail := cards.map (·.card)
  validationHooks := mergeHooks (cards.map (·.card))

def compile (agent : Agent) (cards : List LoadedCard) (corpus : Corpus) (stamp : Stamp)
    (attribution : String) : Except CompileError Package :=
  if cards.isEmpty then .error (.emptyPackage agent.id)
  else
    let ordered := inOrder cards
    match firstRepeated ordered with
    | some rule => .error (.duplicateRule agent.id rule)
    | none =>
      match ordered.find? (!isKnown corpus ·) with
      | some loaded => .error (.missingRule agent.id loaded.id)
      | none => .ok (ofCards agent ordered stamp attribution)

end Package

end Rulebook
