import Rulebook.Proofs.Package.Verify

/-!
# Verifying is recompiling

Nothing is found in a package, with a corpus and a manifest, exactly if its agent can be compiled now and
the outcome has the same rules, the same digest and cards of the same content. Texts apart that are no
knowledge, such as the name or the version, it need not be the package that was verified.
-/

namespace Rulebook

set_option autoImplicit false

namespace Package

variable {cards : List LoadedCard} {corpus : Corpus} {agent : Agent} {p q : Package}

/-! ## Compiling a selection -/

theorem firstRepeated_of_rising (h : (cards.map (·.id)).Pairwise (· < ·)) :
    firstRepeated cards = none := by
  induction cards with
  | nil => rfl
  | cons first rest ih =>
    cases rest with
    | nil => rfl
    | cons second others =>
      obtain ⟨hfirst, hrest⟩ := List.pairwise_cons.mp h
      have hlt : first.id < second.id := hfirst _ List.mem_cons_self
      have hne : first.id ≠ second.id := fun heq => String.lt_irrefl _ (heq ▸ hlt)
      rw [firstRepeated, if_neg hne]
      exact ih hrest

/-- Cards in order that the corpus has are compiled as they are. -/
theorem compile_of_rising (hne : cards ≠ []) (hrising : (cards.map (·.id)).Pairwise (· < ·))
    (hknown : ∀ loaded ∈ cards, corpus.find? loaded.id = some loaded) (agent : Agent) (stamp : Stamp)
    (attribution : String) :
    compile agent cards corpus stamp attribution = .ok (ofCards agent cards stamp attribution) := by
  have hfind : cards.find? (!isKnown corpus ·) = none := by
    rw [List.find?_eq_none]
    intro loaded hloaded
    simp [isKnown, hknown loaded hloaded]
  rw [compile, if_neg (by simpa using hne)]
  dsimp only
  rw [inOrder_of_rising hrising, firstRepeated_of_rising hrising, hfind]

theorem compile_selection (hcorpus : corpus.IsKeyed) (hne : Resolution.selection corpus agent ≠ [])
    (stamp : Stamp) (attribution : String) :
    compile agent (Resolution.selection corpus agent) corpus stamp attribution =
      .ok (ofCards agent (Resolution.selection corpus agent) stamp attribution) :=
  compile_of_rising hne (Resolution.rising_selection hcorpus)
    (fun _ hloaded => hcorpus.find? (Resolution.mem_selection hloaded).1) agent stamp attribution

/-! ## The knowledge of a package -/

/-- The included cards by id and content hash. -/
def contents (p : Package) : List (String × String) :=
  p.rulesDetail.map fun card => (card.id, card.contentHash)

/-- Two packages with the same rules, the same digest and cards of the same content. -/
structure SameKnowledge (p q : Package) : Prop where
  rules : p.rules = q.rules
  digest : p.sourceDigest = q.sourceDigest
  contents : p.contents = q.contents

theorem ids_contents : p.contents.map (·.1) = p.rulesDetail.map (·.id) := by
  rw [contents, List.map_map]
  rfl

theorem computedDigest_eq : p.computedDigest = Rulebook.sourceDigest p.contents := rfl

/-- The content that a corpus has for an id. -/
def contentAt (corpus : Corpus) (id : String) : String :=
  ((corpus.find? id).map (·.contentHash)).getD ""

/-- The contents of a package follow from its rules while the corpus has its cards. -/
theorem contents_eq_map (h : p.verify (some corpus) = []) :
    p.contents = p.rules.map fun id => (id, contentAt corpus id) := by
  obtain ⟨hp, hincludes⟩ := verify_some_eq_nil_iff.mp h
  rw [hp.aligned, contents, List.map_map]
  refine List.map_congr_left fun card hcard => ?_
  obtain ⟨current, hfind, _, hhash⟩ := hincludes card hcard
  have hat : contentAt corpus card.id = card.contentHash := by
    rw [contentAt, hfind, ← hhash]
    rfl
  rw [Function.comp_apply, hat]

theorem sameKnowledge_of_rules_eq (hp : p.verify (some corpus) = [])
    (hq : q.verify (some corpus) = []) (h : p.rules = q.rules) : p.SameKnowledge q := by
  have hcontents : p.contents = q.contents := by rw [contents_eq_map hp, contents_eq_map hq, h]
  refine ⟨h, ?_, hcontents⟩
  rw [← (verify_some_eq_nil_iff.mp hp).1.digest, ← (verify_some_eq_nil_iff.mp hq).1.digest,
    computedDigest_eq, computedDigest_eq, hcontents]

namespace SameKnowledge

theorem isConsistent (h : p.SameKnowledge q) (hp : p.IsConsistent)
    (hhooks : mergeHooks q.rulesDetail = q.validationHooks) : q.IsConsistent where
  nonempty := h.rules ▸ hp.nonempty
  aligned := by rw [← h.rules, hp.aligned, ← ids_contents, ← ids_contents, h.contents]
  rising := h.rules ▸ hp.rising
  digest := by rw [computedDigest_eq, ← h.contents, ← computedDigest_eq, hp.digest, h.digest]
  hooks := hhooks

theorem includes (h : p.SameKnowledge q) (hp : ∀ card ∈ p.rulesDetail, Includes corpus card) :
    ∀ card ∈ q.rulesDetail, Includes corpus card := by
  intro card hcard
  have hmem : (card.id, card.contentHash) ∈ p.contents := by
    rw [h.contents]
    exact List.mem_map_of_mem hcard
  obtain ⟨other, hother, heq⟩ := List.mem_map.mp hmem
  obtain ⟨hid, hhash⟩ := Prod.mk.inj heq
  have hincludes := hp other hother
  rwa [Includes, hid, hhash] at hincludes

theorem verify_eq_nil (h : p.SameKnowledge q) (hp : p.verify (some corpus) = [])
    (hhooks : mergeHooks q.rulesDetail = q.validationHooks) : q.verify (some corpus) = [] := by
  obtain ⟨hconsistent, hincludes⟩ := verify_some_eq_nil_iff.mp hp
  exact verify_some_eq_nil_iff.mpr ⟨h.isConsistent hconsistent hhooks, h.includes hincludes⟩

end SameKnowledge

theorem verifySelection_congr (hid : p.id = q.id) (hrules : p.rules = q.rules) (manifest : Manifest)
    (corpus : Corpus) : p.verifySelection manifest corpus = q.verifySelection manifest corpus := by
  simp only [verifySelection, hid, hrules]

/-! ## The rules of a package in which nothing is found -/

/-- The rules are all active cards that the agent selects, and no others. -/
theorem rules_eq_selection {manifest : Manifest} (hcorpus : corpus.IsKeyed)
    (hclean : p.verify (some corpus) = []) (hselection : p.verifySelection manifest corpus = []) :
    ∃ agent, manifest.find? p.id = some agent ∧
      p.rules = (Resolution.selection corpus agent).map (·.id) := by
  obtain ⟨hp, hincludes⟩ := verify_some_eq_nil_iff.mp hclean
  obtain ⟨agent, hagent, hselected, hrules⟩ := verifySelection_eq_nil_iff.mp hselection
  have hactive : ∀ id ∈ p.rules, (corpus.find? id).any (·.isActive) = true := by
    intro id hid
    rw [hp.aligned] at hid
    obtain ⟨card, hcard, rfl⟩ := List.mem_map.mp hid
    obtain ⟨current, hfind, hactive, _⟩ := hincludes card hcard
    rw [hfind]
    exact hactive
  refine ⟨agent, hagent, eq_of_mem_iff string_lt_asymm hp.rising
    (Resolution.rising_selection hcorpus) fun id => ?_⟩
  constructor
  · exact fun hid => hrules id hid (hactive id hid)
  · intro hid
    obtain ⟨loaded, hloaded, rfl⟩ := List.mem_map.mp hid
    exact hselected loaded hloaded

/-- Nothing is found in a package, with the cards of a corpus and the agents of a manifest, exactly if
its agent is assigned cards that compile to a package of the same knowledge and its hooks are those of
its own cards. -/
theorem clean_iff_recompiled (agents : List Agent) (sources : List (Card × Path)) (p : Package)
    (stamp : Stamp) (attribution : String) :
    let manifest := Manifest.ofAgents agents
    let corpus := (Corpus.build (sources.map fun (card, path) => .ofCard card path)).1
    let assigned := (Resolution.resolve manifest corpus).cardsFor p.id
    p.verify (some corpus) = [] ∧ p.verifySelection manifest corpus = [] ↔
      ∃ agent q, manifest.find? p.id = some agent ∧ assigned ≠ [] ∧
        compile agent assigned corpus stamp attribution = .ok q ∧ q.SameKnowledge p ∧
        p.validationHooks = mergeHooks p.rulesDetail := by
  intro manifest corpus assigned
  have hmanifest : manifest.IsKeyed := Manifest.isKeyed_ofAgents agents
  have hcorpus : corpus.IsKeyed := Corpus.isKeyed_build _
  have hhashed : ∀ loaded ∈ corpus.toList, loaded.contentHash = loaded.card.contentHash := by
    intro loaded hloaded
    obtain ⟨entry, hentry, rfl⟩ := List.mem_map.mp hloaded
    obtain ⟨source, _, heq⟩ := List.mem_map.mp (Corpus.mem_of_mem_build hentry)
    rw [← heq]
    rfl
  have hassigned {agent : Agent} (hagent : manifest.find? p.id = some agent) :
      assigned = Resolution.selection corpus agent := by
    obtain ⟨hmem, hid⟩ := hmanifest.find?_eq_some_iff.mp hagent
    rw [← Resolution.cardsFor_resolve hmanifest hmem, hid]
  have hfresh {agent : Agent} (hne : Resolution.selection corpus agent ≠ []) :
      (ofCards agent (Resolution.selection corpus agent) stamp attribution).verify (some corpus) =
        [] :=
    verify_ofCards agent stamp attribution hne (Resolution.rising_selection hcorpus)
      (fun loaded hloaded => hhashed loaded (Resolution.mem_selection hloaded).1)
      (fun loaded hloaded => hcorpus.find? (Resolution.mem_selection hloaded).1)
      (fun loaded hloaded => (Resolution.mem_selection hloaded).2)
  constructor
  · rintro ⟨hclean, hselection⟩
    obtain ⟨agent, hagent, hrules⟩ := rules_eq_selection hcorpus hclean hselection
    have hp := (verify_some_eq_nil_iff.mp hclean).1
    have hne : Resolution.selection corpus agent ≠ [] := by
      intro hnil
      rw [hnil] at hrules
      exact hp.nonempty hrules
    refine ⟨agent, _, hagent, hassigned hagent ▸ hne,
      hassigned hagent ▸ compile_selection hcorpus hne stamp attribution,
      sameKnowledge_of_rules_eq (hfresh hne) hclean hrules.symm, hp.hooks.symm⟩
  · rintro ⟨agent, q, hagent, hne, hcompile, hsame, hhooks⟩
    rw [hassigned hagent] at hne hcompile
    rw [compile_selection hcorpus hne stamp attribution] at hcompile
    cases hcompile
    refine ⟨hsame.verify_eq_nil (hfresh hne) hhooks.symm, ?_⟩
    have hid : agent.id = p.id := (hmanifest.find?_eq_some_iff.mp hagent).2
    rw [← verifySelection_congr hid hsame.rules]
    exact verifySelection_ofCards stamp attribution (hid ▸ hagent)

end Package

end Rulebook
