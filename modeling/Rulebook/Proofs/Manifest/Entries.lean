import Mathlib.Data.List.Induction
import Mathlib.Data.List.Nodup
import Rulebook.Proofs.Manifest
import Rulebook.Proofs.Yaml.Tree

/-!
# The agents of an accepted manifest

Every entry of an accepted manifest declares an agent, under the text of its key. Keys of one text are
told apart by their tags only, and of the agents that are declared under one text the last is kept.
-/

namespace Rulebook.Manifest

set_option autoImplicit false

open Yaml (Node KeysDiffer)

variable {entries : Entries} {entry : Node × Node} {agents : List Agent} {agent : Agent}

/-- The entry declares the agent: the id is the text of the key, and all else is read from the value. -/
structure Declares (entry : Node × Node) (agent : Agent) : Prop where
  id : entry.1.text? = some agent.id
  valid : validAgentId agent.id = true
  spec : ∃ spec, EntrySpec.decode entry.2 = .ok spec ∧ agent.name = Text.trim spec.name ∧
    agent.selector.matchers = Selector.matchersOf spec.selector ∧ agent.policy = spec.policy

theorem declares_of_checkEntry {id : String} (htext : entry.1.text? = some id)
    (h : checkEntry id entry.2 = .ok agent) : Declares entry agent := by
  obtain ⟨spec, hspec, hid, -, rfl⟩ := checkEntry_ok h
  exact ⟨htext, validAgentId_of_noIssues hid, spec, hspec, rfl, rfl, rfl⟩

theorem exists_declares (h : issuesOf entry = []) :
    ∃ agent, agentOf entry = some agent ∧ Declares entry agent := by
  obtain ⟨id, agent, htext, hcheck, hagent⟩ := agentOf_of_noIssues h
  exact ⟨agent, hagent, declares_of_checkEntry htext hcheck⟩

theorem forall₂_declares (h : ∀ entry ∈ entries, issuesOf entry = []) :
    List.Forall₂ Declares entries (entries.filterMap agentOf) := by
  induction entries with
  | nil => exact .nil
  | cons entry rest ih =>
    obtain ⟨hentry, hrest⟩ := List.forall_mem_cons.mp h
    obtain ⟨agent, hagent, hdeclares⟩ := exists_declares hentry
    rw [List.filterMap_cons_some hagent]
    exact .cons hdeclares (ih hrest)

theorem nodup_texts_iff (h : List.Forall₂ Declares entries agents) :
    (entries.map (·.1.text?)).Nodup ↔ (agents.map (·.id)).Nodup :=
  nodup_map_iff_of_forall₂ (h.imp fun _ _ hdeclares => hdeclares.id)

theorem ofAgents_concat (agents : List Agent) (agent : Agent) :
    ofAgents (agents ++ [agent]) = ⟨(ofAgents agents).entries.insert agent.id agent⟩ := by
  rw [ofAgents, List.map_append, List.map_singleton, Keyed.ofList_concat]
  rfl

theorem find?_ofAgents (agents : List Agent) (id : String) :
    (ofAgents agents).find? id = (agents.filter (·.id == id)).getLast? := by
  -- from the end, since each agent replaces those before it
  induction agents using List.reverseRecOn with
  | nil => rfl
  | append_singleton agents agent ih =>
    rw [ofAgents_concat, find?, Keyed.find?_insert, List.filter_append]
    by_cases hid : agent.id = id
    · simp [hid]
    · rw [find?] at ih
      simp [hid, ih]

theorem size_ofAgents_iff (agents : List Agent) :
    (ofAgents agents).size = agents.length ↔ (agents.map (·.id)).Nodup := by
  have hlength := Keyed.length_ofList_eq_iff (agents.map fun agent => (agent.id, agent))
  rw [List.length_map, Keyed.keys, List.map_map] at hlength
  exact hlength

theorem find?_ofAgents_of_nodup (h : (agents.map (·.id)).Nodup) (hagent : agent ∈ agents) :
    (ofAgents agents).find? agent.id = some agent := by
  have hkeyed : (Keyed.keys (agents.map fun agent => (agent.id, agent))).Nodup := by
    rw [Keyed.keys, List.map_map]
    exact h
  rw [find?, ofAgents, Keyed.find?_ofList hkeyed, Keyed.find?_eq_some_iff_of_nodup hkeyed]
  exact List.mem_map_of_mem hagent

theorem keysDiffer_agentTable {root : Node} (hroot : root.every Node.keysDiffer = true)
    (h : agentTable root = some entries) : KeysDiffer entries := by
  rw [agentTable] at h
  cases hall : root.entries? with
  | none =>
    rw [hall] at h
    cases h
  | some all =>
    obtain ⟨hdiffer, hvalues⟩ := Node.keysDiffer_of_entries? hroot hall
    rw [hall] at h
    dsimp only at h
    split at h
    · rename_i inner hinner
      split at h
      · cases h
        exact hdiffer
      · cases h
        split at hinner
        · obtain ⟨value, hvalue, hinner⟩ := Option.bind_eq_some_iff.mp hinner
          have hkeys := hvalues _ (Node.mem_of_valueOf? hvalue)
          exact (Node.keysDiffer_of_entries? hkeys hinner).1
        · cases hinner
    · cases h
      exact hdiffer

/-- Every entry of an accepted manifest declares an agent, and of those declared under one id the last
is kept. So none is lost exactly if the keys differ as texts, and keys of one text are tagged, all but one. -/
theorem parse_keeps_last {path : Path} {text : String} {manifest : Manifest}
    (h : parse path text = .ok manifest) :
    ∃ root entries agents, Node.parse text = .ok root ∧ agentTable root = some entries ∧
      List.Forall₂ Declares entries agents ∧
      (∀ id, manifest.find? id = (agents.filter (·.id == id)).getLast?) ∧
      (manifest.size = entries.length ∧ (∀ agent ∈ agents, manifest.find? agent.id = some agent) ↔
        (entries.map (·.1.text?)).Nodup) ∧
      entries.Pairwise fun a b => ∀ s, a.1.text? = some s → b.1.text? = some s →
        a.1.isTagged = true ∨ b.1.isTagged = true := by
  rw [parse] at h
  cases hparse : Node.parse text with
  | error e =>
    rw [hparse] at h
    cases h
  | ok root =>
    rw [hparse] at h
    obtain ⟨entries, htable, -, hissues, rfl⟩ := ofNode_ok h
    have hdeclares := forall₂_declares hissues
    refine ⟨root, entries, entries.filterMap agentOf, rfl, htable, hdeclares, find?_ofAgents _, ?_, ?_⟩
    · rw [hdeclares.length_eq, size_ofAgents_iff, nodup_texts_iff hdeclares]
      constructor
      · exact And.left
      · intro hdistinct
        exact ⟨hdistinct, fun agent hagent => find?_ofAgents_of_nodup hdistinct hagent⟩
    · apply Node.isTagged_of_text?_eq
      exact keysDiffer_agentTable (Node.keysDiffer_parse hparse) htable

/-- Two entries that would land on one agent id. -/
def homonyms : String :=
  "a:\n  name: A\n  rule_selector:\n    scopes: [c]\n  policy:\n    targets: [\"*\"]\n" ++
  "!x a:\n  name: B\n  rule_selector:\n    scopes: [d]\n  policy:\n    targets: [\"*\"]\n"

theorem parse_keeps_last_homonyms :
    ∃ manifest root entries, parse ⟨"agents.yaml"⟩ homonyms = .ok manifest ∧
      Node.parse homonyms = .ok root ∧ agentTable root = some entries ∧
      entries.length = 2 ∧ manifest.size = 1 ∧ ¬ (entries.map (·.1.text?)).Nodup := by
  have hsizes : (parse ⟨"agents.yaml"⟩ homonyms).toOption.map (·.size) = some 1 ∧
      ((Node.parse homonyms).toOption.bind agentTable).map (·.length) = some 2 := by
    decide +kernel
  cases hmanifest : parse ⟨"agents.yaml"⟩ homonyms with
  | error e =>
    rw [hmanifest] at hsizes
    cases hsizes.1
  | ok manifest =>
    obtain ⟨root, entries, agents, hroot, htable, -, -, hkept, -⟩ := parse_keeps_last hmanifest
    rw [hmanifest, hroot] at hsizes
    have hsize : manifest.size = 1 := Option.some.inj hsizes.1
    have hlength : entries.length = 2 := by
      have htwo := hsizes.2
      rw [Except.toOption, Option.bind_some, htable] at htwo
      exact Option.some.inj htwo
    refine ⟨manifest, root, entries, rfl, hroot, htable, hlength, hsize, ?_⟩
    intro hdistinct
    have hall := (hkept.mpr hdistinct).1
    omega

end Rulebook.Manifest
