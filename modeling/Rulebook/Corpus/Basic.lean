import Rulebook.Card.Error
import Rulebook.Corpus.Digest

/-!
# The corpus

All cards of one run by id. The first card with an id claims it; every later one is reported
against the claimant and left out.
-/

namespace Rulebook

set_option autoImplicit false

structure LoadedCard where
  card : Card
  path : Path
  contentHash : String
deriving DecidableEq, Inhabited

namespace LoadedCard

def ofCard (card : Card) (path : Path) : LoadedCard := ⟨card, path, card.contentHash⟩

def id (loaded : LoadedCard) : String := loaded.card.id

def isActive (loaded : LoadedCard) : Bool := loaded.card.isActive

end LoadedCard

structure Corpus where
  cards : Keyed LoadedCard
deriving DecidableEq, Inhabited

namespace Corpus

def empty : Corpus := ⟨[]⟩

def find? (corpus : Corpus) (id : String) : Option LoadedCard := corpus.cards.find? id

def contains (corpus : Corpus) (id : String) : Bool := corpus.cards.contains id

/-- The cards in id order. -/
def toList (corpus : Corpus) : List LoadedCard := corpus.cards.values

def active (corpus : Corpus) : List LoadedCard := corpus.toList.filter (·.isActive)

def disabled (corpus : Corpus) : List LoadedCard := corpus.toList.filter (!·.isActive)

def size (corpus : Corpus) : Nat := corpus.cards.length

/-- The corpus with one more card, or the error that its id is taken. -/
def add (built : Corpus × List CardError) (loaded : LoadedCard) : Corpus × List CardError :=
  match built.1.find? loaded.id with
  | none => (⟨built.1.cards.insert loaded.id loaded⟩, built.2)
  | some claimant =>
    (built.1, built.2 ++ [.duplicateId loaded.id claimant.path loaded.path])

def build (cards : List LoadedCard) : Corpus × List CardError := cards.foldl add (.empty, [])

end Corpus

end Rulebook
