import Rulebook.Package.Compile
import Rulebook.Resolution

/-!
# Verifying packages

A package is checked against itself, against a corpus, and against a manifest. A finding is drift if
the package was sound when it was built and the cards or the manifest have changed since.
-/

namespace Rulebook

set_option autoImplicit false

inductive Finding where
  | empty
  | lengthMismatch (rules details : Nat)
  | misaligned (index : Nat) (rule detail : String)
  | unsorted (index : Nat) (rule : String)
  | digestMismatch (recorded computed : String)
  | hooksMismatch (recorded computed : Keyed (List String))
  | removed (rule : String)
  | changed (rule : String)
  | disabled (rule : String)
  | agentGone (agent : String)
  | selectionChanged (added dropped : List String)
deriving DecidableEq

namespace Finding

def isDrift : Finding → Bool
  | .removed _ | .changed _ | .disabled _ | .agentGone _ | .selectionChanged .. => true
  | _ => false

def listed (label : String) (rules : List String) : String :=
  if rules.isEmpty then "" else "; " ++ label ++ ": " ++ ", ".intercalate rules

def message : Finding → String
  | .empty => "package includes no rules"
  | .lengthMismatch rules details =>
    "rules has " ++ toString rules ++ " entries but rules_detail has " ++ toString details
  | .misaligned index rule detail =>
    let i := toString index
    "rules[" ++ i ++ "] is '" ++ rule ++ "' but rules_detail[" ++ i ++ "] is '" ++ detail ++ "'"
  | .unsorted index rule =>
    "rules[" ++ toString index ++ "] '" ++ rule ++ "' is out of order or repeated"
  | .digestMismatch recorded computed =>
    "source_digest is " ++ recorded ++ " but the included cards hash to " ++ computed
  | .hooksMismatch .. => "validation_hooks is not the union of the included cards' detect maps"
  | .removed rule => "rule '" ++ rule ++ "' is no longer in the corpus"
  | .changed rule => "rule '" ++ rule ++ "' has changed since this package was built"
  | .disabled rule => "rule '" ++ rule ++ "' has been disabled since this package was built"
  | .agentGone agent => "agent '" ++ agent ++ "' is no longer in the manifest"
  | .selectionChanged added dropped =>
    "selector now matches a different rule set" ++ listed "newly selected" added ++
      listed "no longer selected" dropped

end Finding

namespace Package

def countFindings (p : Package) : List Finding :=
  (if p.rules.isEmpty then [.empty] else []) ++
    (if p.rules.length = p.rulesDetail.length then []
      else [.lengthMismatch p.rules.length p.rulesDetail.length])

def alignmentFindings (p : Package) : List Finding :=
  ((p.rules.zip p.rulesDetail).zipIdx).filterMap fun ((rule, detail), i) =>
    if rule = detail.id then none else some (.misaligned i rule detail.id)

def orderFindings (p : Package) : List Finding :=
  ((p.rules.zip (p.rules.drop 1)).zipIdx).filterMap fun ((rule, next), i) =>
    if rule < next then none else some (.unsorted (i + 1) next)

/-- The digest of the cards that the package includes. -/
def computedDigest (p : Package) : String :=
  Rulebook.sourceDigest (p.rulesDetail.map fun card => (card.id, card.contentHash))

def digestFindings (p : Package) : List Finding :=
  if p.computedDigest = p.sourceDigest then []
  else [.digestMismatch p.sourceDigest p.computedDigest]

def hookFindings (p : Package) : List Finding :=
  let hooks := mergeHooks p.rulesDetail
  if hooks = p.validationHooks then [] else [.hooksMismatch p.validationHooks hooks]

/-- What has become of an included card. -/
def driftFinding (corpus : Corpus) (card : Card) : Option Finding :=
  match corpus.find? card.id with
  | none => some (.removed card.id)
  | some current =>
    if !current.isActive then some (.disabled card.id)
    else if current.contentHash = card.contentHash then none
    else some (.changed card.id)

def verify (p : Package) (corpus : Option Corpus) : List Finding :=
  p.countFindings ++ p.alignmentFindings ++ p.orderFindings ++ p.digestFindings ++ p.hookFindings ++
    match corpus with
    | some corpus => p.rulesDetail.filterMap (driftFinding corpus)
    | none => []

/-- Rule ids in order, each once. -/
def ruleSet (rules : List String) : List String :=
  (Keyed.ofList (rules.map fun id => (id, ()))).keys

/-- Rules that the agent would get now and the package has not, and active rules that the package
has and the agent would not get any more. -/
def verifySelection (p : Package) (manifest : Manifest) (corpus : Corpus) : List Finding :=
  match manifest.find? p.id with
  | none => [.agentGone p.id]
  | some agent =>
    let selected := (Resolution.selection corpus agent).map (·.id)
    let added := selected.filter (· ∉ p.rules)
    let dropped := (ruleSet p.rules).filter fun id =>
      id ∉ selected && (corpus.find? id).any (·.isActive)
    if added.isEmpty && dropped.isEmpty then [] else [.selectionChanged added dropped]

end Package

end Rulebook
