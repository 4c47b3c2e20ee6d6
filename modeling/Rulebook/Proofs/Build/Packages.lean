import Rulebook.Proofs.Build.Stages
import Rulebook.Proofs.Manifest.Defaults
import Rulebook.Proofs.Package.Verify

/-!
# The packages of a build

Every package of a build is made of one agent and its selection, the cards in id order. So nothing is
wrong with it, and it is read back from its own text.
-/

namespace Rulebook.Build.Compiles

set_option autoImplicit false

variable {config : Config} {stamp : Stamp} {corpus : Corpus} {manifest : Manifest}
  {packages : List Package} {p : Package}

theorem eq_ofCards (h : Compiles config stamp corpus manifest packages) (hm : manifest.Accepted)
    (hcorpus : corpus.IsSound) (hp : p ∈ packages) :
    ∃ agent ∈ manifest.agents, Resolution.selection corpus agent ≠ [] ∧
      p = .ofCards agent (Resolution.selection corpus agent) stamp config.build.attribution := by
  obtain ⟨agent, hagent, hcompile⟩ := h.exists_agent hp
  rw [compileAgent, Resolution.cardsFor_resolve hm.isKeyed hagent] at hcompile
  obtain ⟨hne, _, _, hp⟩ := Package.compile_ok hcompile
  rw [Package.inOrder_of_rising (Resolution.rising_selection hcorpus.isKeyed)] at hp
  exact ⟨agent, hagent, hne, hp⟩

theorem verify_eq_nil (h : Compiles config stamp corpus manifest packages) (hm : manifest.Accepted)
    (hcorpus : corpus.IsSound) (hp : p ∈ packages) :
    p.verify (some corpus) = [] ∧ p.verifySelection manifest corpus = [] := by
  obtain ⟨agent, hagent, hne, rfl⟩ := h.eq_ofCards hm hcorpus hp
  have hmem {loaded : LoadedCard} (hloaded : loaded ∈ Resolution.selection corpus agent) :=
    Resolution.mem_selection hloaded
  refine ⟨Package.verify_ofCards agent _ _ hne (Resolution.rising_selection hcorpus.isKeyed)
    (fun loaded hloaded => (hcorpus.loaded (hmem hloaded).1).hashed)
    (fun loaded hloaded => hcorpus.isKeyed.find? (hmem hloaded).1)
    (fun loaded hloaded => (hmem hloaded).2), ?_⟩
  exact Package.verifySelection_ofCards _ _ (hm.isKeyed.find?_eq_some_iff.mpr ⟨hagent, rfl⟩)

/-- A package of a build is in order, and its text is not too deep to be read. -/
theorem isOrdered (h : Compiles config stamp corpus manifest packages) (hm : manifest.Accepted)
    (hcorpus : corpus.IsSound) (hfits : ∀ agent ∈ manifest.agents, agent.policy.Fits mostDefaults)
    (hp : p ∈ packages) : p.IsOrdered ∧ p.toJson.depth ≤ Json.mostContainers := by
  obtain ⟨agent, hagent, _, rfl⟩ := h.eq_ofCards hm hcorpus hp
  have hcards : ∀ card ∈ (Resolution.selection corpus agent).map (·.card), card.IsFlat := by
    intro card hcard
    obtain ⟨loaded, hloaded, rfl⟩ := List.mem_map.mp hcard
    exact (hcorpus.loaded (Resolution.mem_selection hloaded).1).flat
  have hpolicy := hfits agent hagent
  refine ⟨⟨hpolicy.toIsOrdered, fun card hcard => (hcards card hcard).toIsOrdered,
    Package.rising_mergeHooks _⟩, ?_⟩
  refine Nat.le_trans (Package.depth_toJson (m := 0) hpolicy.shallow fun card hcard => ?_) (by decide)
  exact Json.depthMembers_le_iff.mpr fun entry hentry =>
    Nat.le_of_eq ((hcards card hcard).flat entry hentry)

theorem isIntegral (h : Compiles config stamp corpus manifest packages) (hm : manifest.Accepted)
    (hcorpus : corpus.IsSound)
    (hcards : ∀ loaded ∈ corpus.toList, Json.membersIntegral loaded.card.defaults = true)
    (hagents : ∀ agent ∈ manifest.agents, Json.membersIntegral agent.policy.defaults = true)
    (hp : p ∈ packages) : p.toJson.isIntegral = true := by
  obtain ⟨agent, hagent, _, rfl⟩ := h.eq_ofCards hm hcorpus hp
  refine Package.isIntegral_toJson (hagents agent hagent) fun card hcard => ?_
  obtain ⟨loaded, hloaded, rfl⟩ := List.mem_map.mp hcard
  exact hcards loaded (Resolution.mem_selection hloaded).1

end Rulebook.Build.Compiles
