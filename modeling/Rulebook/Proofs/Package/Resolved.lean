import Rulebook.Proofs.Build.Stages
import Rulebook.Proofs.Package.Recompile
import Rulebook.Proofs.Resolution.Cover

/-!
# The package of an assignment

Once every agent of a manifest has cards, every agent has a package, with just the rules that it was
assigned. What is in it follows from the agent's entry and the cards that the agent matches: no other
agent, no other card and no path has an influence.
-/

namespace Rulebook

set_option autoImplicit false

/-- What a package takes from a loaded card: everything but where the card lies. -/
def LoadedCard.content (loaded : LoadedCard) : Card × String := (loaded.card, loaded.contentHash)

namespace Resolution

variable {corpus corpus' : Corpus} {agent : Agent}

/-- The agent matches a card with this content, wherever it lies. -/
def MatchesContent (corpus : Corpus) (agent : Agent) (content : Card × String) : Prop :=
  ∃ path, Matches corpus agent ⟨content.1, path, content.2⟩

theorem mem_contents_selection_iff {content : Card × String} :
    content ∈ (selection corpus agent).map (·.content) ↔ MatchesContent corpus agent content := by
  rw [List.mem_map]
  constructor
  · rintro ⟨loaded, hloaded, rfl⟩
    exact ⟨loaded.path, mem_selection_iff.mp hloaded⟩
  · rintro ⟨path, hmatches⟩
    exact ⟨_, mem_selection_iff.mpr hmatches, rfl⟩

theorem rising_contents_selection (h : corpus.IsKeyed) :
    ((selection corpus agent).map (·.content)).Pairwise fun a b => a.1.id < b.1.id :=
  List.pairwise_map.mpr (List.pairwise_map.mp (rising_selection h))

/-- The contents of a selection are known from the contents that are matched. -/
theorem contents_selection_eq (hc : corpus.IsKeyed) (hc' : corpus'.IsKeyed)
    (h : ∀ content, MatchesContent corpus agent content ↔ MatchesContent corpus' agent content) :
    (selection corpus agent).map (·.content) = (selection corpus' agent).map (·.content) := by
  refine eq_of_mem_iff (fun a b => string_lt_asymm a.1.id b.1.id) (rising_contents_selection hc)
    (rising_contents_selection hc') fun content => ?_
  rw [mem_contents_selection_iff, mem_contents_selection_iff]
  exact h content

theorem selection_ne_nil {manifest : Manifest} (hm : manifest.IsKeyed)
    (hcomplete : (resolve manifest corpus).isComplete = true) (hagent : agent ∈ manifest.agents) :
    selection corpus agent ≠ [] := by
  intro hnil
  have hnone : (resolve manifest corpus).assignments.find? agent.id = none := by
    rw [find?_resolve hm hagent, if_pos hnil]
  have hnoErrors := List.isEmpty_iff.mp hcomplete
  rw [errors_resolve hm, List.map_eq_nil_iff, List.filter_eq_nil_iff] at hnoErrors
  apply hnoErrors agent hagent
  rw [hnone]
  rfl

end Resolution

namespace Package

variable {corpus corpus' : Corpus} {agent : Agent}

theorem ofCards_congr {cards cards' : List LoadedCard}
    (h : cards.map (·.content) = cards'.map (·.content)) (agent : Agent) (stamp : Stamp)
    (attribution : String) :
    ofCards agent cards stamp attribution = ofCards agent cards' stamp attribution := by
  have hpart : ∀ {β : Type} (part : Card × String → β),
      cards.map (part ·.content) = cards'.map (part ·.content) := by
    intro β part
    have hparts := congrArg (List.map part) h
    rwa [List.map_map, List.map_map] at hparts
  have hcards : cards.map (·.card) = cards'.map (·.card) := hpart (·.1)
  have hids : cards.map (·.id) = cards'.map (·.id) := hpart (·.1.id)
  have hcontents : (cards.map fun c => (c.id, c.contentHash)) =
      cards'.map fun c => (c.id, c.contentHash) := hpart fun content => (content.1.id, content.2)
  rw [ofCards, ofCards, hcards, hids, hcontents]

theorem compile_selection_congr (hc : corpus.IsKeyed) (hc' : corpus'.IsKeyed)
    (h : ∀ content, Resolution.MatchesContent corpus agent content ↔
      Resolution.MatchesContent corpus' agent content) (stamp : Stamp) (attribution : String) :
    compile agent (Resolution.selection corpus agent) corpus stamp attribution =
      compile agent (Resolution.selection corpus' agent) corpus' stamp attribution := by
  have hcontents := Resolution.contents_selection_eq hc hc' h
  by_cases hnil : Resolution.selection corpus agent = []
  · have hnil' : Resolution.selection corpus' agent = [] := by
      rw [hnil] at hcontents
      exact List.map_eq_nil_iff.mp hcontents.symm
    rw [hnil, hnil']
    rfl
  · have hnil' : Resolution.selection corpus' agent ≠ [] := by
      intro hnil'
      rw [hnil'] at hcontents
      exact hnil (List.map_eq_nil_iff.mp hcontents)
    rw [compile_selection hc hnil, compile_selection hc' hnil',
      ofCards_congr hcontents agent stamp attribution]

/-- Two manifests with the same entry for an agent, and two corpora in which the agent matches the same
contents, give the agent the same package or the same error. -/
theorem compile_of_same_matches (agents agents' : List Agent) (cards cards' : List LoadedCard)
    (agent : Agent) (stamp : Stamp) (attribution : String) :
    let manifest := Manifest.ofAgents agents
    let manifest' := Manifest.ofAgents agents'
    let corpus := (Corpus.build cards).1
    let corpus' := (Corpus.build cards').1
    let assigned := (Resolution.resolve manifest corpus).cardsFor agent.id
    let assigned' := (Resolution.resolve manifest' corpus').cardsFor agent.id
    manifest.find? agent.id = some agent → manifest'.find? agent.id = some agent →
    (∀ content, Resolution.MatchesContent corpus agent content ↔
      Resolution.MatchesContent corpus' agent content) →
    compile agent assigned corpus stamp attribution =
        compile agent assigned' corpus' stamp attribution ∧
      (compile agent assigned corpus stamp attribution).map (·.bytes) =
        (compile agent assigned' corpus' stamp attribution).map (·.bytes) := by
  intro manifest manifest' corpus corpus' assigned assigned' hagent hagent' hsame
  have hm : manifest.IsKeyed := Manifest.isKeyed_ofAgents agents
  have hm' : manifest'.IsKeyed := Manifest.isKeyed_ofAgents agents'
  have hassigned : assigned = Resolution.selection corpus agent :=
    Resolution.cardsFor_resolve hm (hm.find?_eq_some_iff.mp hagent).1
  have hassigned' : assigned' = Resolution.selection corpus' agent :=
    Resolution.cardsFor_resolve hm' (hm'.find?_eq_some_iff.mp hagent').1
  have heq : compile agent assigned corpus stamp attribution =
      compile agent assigned' corpus' stamp attribution := by
    rw [hassigned, hassigned']
    exact compile_selection_congr (Corpus.isKeyed_build cards) (Corpus.isKeyed_build cards') hsame
      stamp attribution
  exact ⟨heq, by rw [heq]⟩

/-- Another agent has gone, another has come, the agent's only card has moved, and a disabled card of its
scope has taken the place of a card that it does not select. -/
theorem compile_of_same_matches_moved :
    let agent := Resolution.agentFor "web" "web"
    let card := Resolution.cardAt "A-B-002" "web" false
    let moved : LoadedCard := { card with path := ⟨"rules/moved.yaml"⟩ }
    let agents := [agent, Resolution.agentFor "idle" "none"]
    let agents' := [Resolution.agentFor "core" "core", agent]
    let cards := [card, Resolution.cardAt "A-B-001" "core" false]
    let cards' := [Resolution.cardAt "A-B-003" "web" true, moved]
    let manifest := Manifest.ofAgents agents
    let manifest' := Manifest.ofAgents agents'
    let corpus := (Corpus.build cards).1
    let corpus' := (Corpus.build cards').1
    manifest.find? agent.id = some agent ∧ manifest'.find? agent.id = some agent ∧
      (∀ content, Resolution.MatchesContent corpus agent content ↔
        Resolution.MatchesContent corpus' agent content) ∧
      ∀ stamp attribution,
        compile agent ((Resolution.resolve manifest corpus).cardsFor agent.id) corpus stamp
            attribution =
          compile agent ((Resolution.resolve manifest' corpus').cardsFor agent.id) corpus' stamp
            attribution := by
  intro agent card moved agents agents' cards cards' manifest manifest' corpus corpus'
  have hagent : manifest.find? agent.id = some agent := by decide
  have hagent' : manifest'.find? agent.id = some agent := by decide
  have hselection : Resolution.selection corpus agent = [card] := by decide
  have hselection' : Resolution.selection corpus' agent = [moved] := by decide
  have hsame : ∀ content, Resolution.MatchesContent corpus agent content ↔
      Resolution.MatchesContent corpus' agent content := by
    intro content
    rw [← Resolution.mem_contents_selection_iff, ← Resolution.mem_contents_selection_iff,
      hselection, hselection']
    rfl
  refine ⟨hagent, hagent', hsame, fun stamp attribution => ?_⟩
  exact (compile_of_same_matches agents agents' cards cards' agent stamp attribution hagent hagent'
    hsame).1

/-- If resolution finds no error, no package fails: each has exactly the rules that its agent was
assigned, in their order. -/
theorem compile_of_isComplete (agents : List Agent) (cards : List LoadedCard) :
    let manifest := Manifest.ofAgents agents
    let corpus := (Corpus.build cards).1
    let r := Resolution.resolve manifest corpus
    r.isComplete = true →
    (∀ agent ∈ manifest.agents, ∀ stamp attribution,
      ∃ p, compile agent (r.cardsFor agent.id) corpus stamp attribution = .ok p ∧
        p.rules = (r.cardsFor agent.id).map (·.id)) ∧
      ∀ cores config stamp e, .error e ∉ Build.compileAll cores config stamp corpus r manifest := by
  intro manifest corpus r hcomplete
  have hm : manifest.IsKeyed := Manifest.isKeyed_ofAgents agents
  have hc : corpus.IsKeyed := Corpus.isKeyed_build cards
  have hpackage : ∀ agent ∈ manifest.agents, ∀ stamp attribution,
      ∃ p, compile agent (r.cardsFor agent.id) corpus stamp attribution = .ok p ∧
        p.rules = (r.cardsFor agent.id).map (·.id) := by
    intro agent hagent stamp attribution
    rw [Resolution.cardsFor_resolve hm hagent]
    have hne := Resolution.selection_ne_nil hm hcomplete hagent
    exact ⟨_, compile_selection hc hne stamp attribution, rfl⟩
  refine ⟨hpackage, fun cores config stamp e he => ?_⟩
  rw [Build.compileAll_eq] at he
  obtain ⟨agent, hagent, hfailed⟩ := List.mem_map.mp he
  obtain ⟨p, hp, _⟩ := hpackage agent hagent stamp config.build.attribution
  rw [Build.compileAgent, hp] at hfailed
  cases hfailed

/-- One agent and its card, with a disabled card and one for nobody. -/
theorem compile_of_isComplete_single :
    let manifest := Manifest.ofAgents [Resolution.agentFor "web" "web"]
    let cards := [Resolution.cardAt "A-B-002" "web" false, Resolution.cardAt "A-B-001" "core" false,
      Resolution.cardAt "A-B-003" "web" true]
    let corpus := (Corpus.build cards).1
    let r := Resolution.resolve manifest corpus
    r.isComplete = true ∧ manifest.agents = [Resolution.agentFor "web" "web"] ∧
      ∀ stamp attribution,
        ∃ p, compile (Resolution.agentFor "web" "web") (r.cardsFor "web") corpus stamp attribution =
          .ok p ∧ p.rules = ["A-B-002"] := by
  intro manifest cards corpus r
  have hcomplete : r.isComplete = true := by decide
  have hagents : manifest.agents = [Resolution.agentFor "web" "web"] := by decide
  refine ⟨hcomplete, hagents, fun stamp attribution => ?_⟩
  have hpackages := (compile_of_isComplete _ cards hcomplete).1
  exact hpackages _ (hagents ▸ List.mem_cons_self) stamp attribution

end Package

end Rulebook
