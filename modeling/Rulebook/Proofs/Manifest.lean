import Rulebook.Manifest.Text
import Rulebook.Package.Load
import Rulebook.Proofs.Keyed

/-!
# Accepted manifests

What has been read of a manifest makes no difference to the entries that follow: each has its own
issues, or is an agent if there are none. A manifest is accepted if nothing is wrong with any of
its entries. Then its agents are stored under their own ids, which are valid, and there is at least one.
-/

namespace Rulebook

set_option autoImplicit false

open Yaml (Node)

namespace Manifest

/-! ## Entries on their own -/

/-- The agent of an entry, or all that is wrong with it. -/
def checkEntry (id : String) (entry : Node) : Except (List ManifestIssue) Agent :=
  match EntrySpec.decode entry with
  | .error e => .error (idIssues id ++ [⟨some id, "<entry>", e.message .yaml⟩])
  | .ok spec =>
    let issues := idIssues id ++ specIssues id entry spec
    if issues.isEmpty then
      .ok ⟨id, Text.trim spec.name, ⟨Selector.matchersOf spec.selector⟩, spec.policy⟩
    else .error issues

def checkKeyed (entry : Node × Node) : Except (List ManifestIssue) Agent :=
  match entry.1.text? with
  | none => .error [⟨none, "<key>", "agent ids must be strings"⟩]
  | some id => checkEntry id entry.2

def issuesOf (entry : Node × Node) : List ManifestIssue :=
  match checkKeyed entry with
  | .ok _ => []
  | .error issues => issues

def agentOf (entry : Node × Node) : Option Agent := (checkKeyed entry).toOption

theorem checkEntry_error {id : String} {entry : Node} {issues : List ManifestIssue}
    (h : checkEntry id entry = .error issues) : issues ≠ [] := by
  rw [checkEntry] at h
  split at h
  · cases h
    simp
  · dsimp only at h
    split at h
    · cases h
    · rename_i hnot
      cases h
      exact fun hnil => hnot (by rw [hnil]; rfl)

theorem checkEntry_ok {id : String} {entry : Node} {agent : Agent}
    (h : checkEntry id entry = .ok agent) :
    ∃ spec, EntrySpec.decode entry = .ok spec ∧ idIssues id = [] ∧ specIssues id entry spec = [] ∧
      agent = ⟨id, Text.trim spec.name, ⟨Selector.matchersOf spec.selector⟩, spec.policy⟩ := by
  rw [checkEntry] at h
  split at h
  · cases h
  · rename_i spec hspec
    dsimp only at h
    split at h
    · rename_i hissues
      cases h
      rw [List.isEmpty_iff, List.append_eq_nil_iff] at hissues
      exact ⟨spec, hspec, hissues.1, hissues.2, rfl⟩
    · cases h

/-! ## Entries one after the other -/

theorem compile_of_noProblems {spec : SelectorSpec} (h : Selector.problems spec = []) :
    Selector.compile spec = .ok ⟨Selector.matchersOf spec⟩ := by
  rw [Selector.compile, h]
  rfl

theorem problems_of_noIssues {id : String} {entry : Node} {spec : EntrySpec}
    (h : specIssues id entry spec = []) : Selector.problems spec.selector = [] := by
  simp only [specIssues, List.append_eq_nil_iff] at h
  exact List.map_eq_nil_iff.mp h.1.1.2

/-- An entry is read as if there were nothing before it. -/
theorem readEntry_eq (id : String) (entry : Node) (issues : List ManifestIssue) :
    readEntry id entry issues =
      match checkEntry id entry with
      | .ok agent => (some agent, issues)
      | .error found => (none, issues ++ found) := by
  rw [readEntry, checkEntry]
  cases EntrySpec.decode entry with
  | error e => simp only [List.append_assoc]
  | ok spec =>
    dsimp only
    rw [List.append_assoc, List.length_append]
    by_cases hnil : idIssues id ++ specIssues id entry spec = []
    · have hspec := (List.append_eq_nil_iff.mp hnil).2
      rw [hnil, compile_of_noProblems (problems_of_noIssues hspec), List.append_nil]
      simp [Except.toOption]
    · have hpos := List.length_pos_of_ne_nil hnil
      rw [if_pos (by omega), if_neg (by rwa [List.isEmpty_iff])]

namespace Reading

/-- One entry adds its own issues and its own agent. -/
theorem add_eq (r : Reading) (entry : Node × Node) :
    r.add entry = ⟨r.issues ++ issuesOf entry,
      (agentOf entry).elim r.agents fun agent => r.agents.insert agent.id agent⟩ := by
  rw [add, issuesOf, agentOf, checkKeyed]
  cases entry.1.text? with
  | none => rfl
  | some id =>
    dsimp only
    rw [readEntry_eq]
    cases hcheck : checkEntry id entry.2 with
    | error issues => rfl
    | ok agent =>
      obtain ⟨spec, -, -, -, rfl⟩ := checkEntry_ok hcheck
      simp [Except.toOption]

/-- All entries add their issues in their order, and of the agents with one id the last one stays. -/
theorem foldl_add (r : Reading) (entries : Entries) :
    entries.foldl add r = ⟨r.issues ++ entries.flatMap issuesOf,
      ((entries.filterMap agentOf).map fun agent => (agent.id, agent)).foldl
        (fun table (id, agent) => table.insert id agent) r.agents⟩ := by
  induction entries generalizing r with
  | nil => simp
  | cons entry rest ih =>
    rw [List.foldl_cons, ih, add_eq, List.flatMap_cons, List.append_assoc]
    cases hagent : agentOf entry with
    | none => rw [List.filterMap_cons_none hagent]; rfl
    | some agent => rw [List.filterMap_cons_some hagent]; rfl

end Reading

/-- All that is wrong with the entries of a manifest. -/
def issuesIn (entries : Entries) : List ManifestIssue :=
  (if entries.isEmpty then [⟨none, "<document>", "manifest declares no agents"⟩] else []) ++
    entries.flatMap issuesOf

theorem ofNode_of_table {root : Node} {entries : Entries} (path : Path)
    (h : agentTable root = some entries) :
    ofNode path root =
      if issuesIn entries = [] then .ok (ofAgents (entries.filterMap agentOf))
      else .error (.invalid path (issuesIn entries)) := by
  rw [ofNode, h]
  dsimp only
  rw [Reading.foldl_add]
  by_cases hissues : issuesIn entries = []
  · rw [if_pos hissues]
    exact if_pos (by rw [List.isEmpty_iff]; exact hissues)
  · rw [if_neg hissues]
    exact if_neg (by rw [List.isEmpty_iff]; exact hissues)

theorem ofNode_ok {path : Path} {root : Node} {manifest : Manifest}
    (h : ofNode path root = .ok manifest) :
    ∃ entries, agentTable root = some entries ∧ entries ≠ [] ∧
      (∀ entry ∈ entries, issuesOf entry = []) ∧
      manifest = ofAgents (entries.filterMap agentOf) := by
  cases htable : agentTable root with
  | none =>
    rw [ofNode, htable] at h
    cases h
  | some entries =>
    rw [ofNode_of_table path htable] at h
    split at h
    · rename_i hissues
      cases h
      rw [issuesIn, List.append_eq_nil_iff, List.flatMap_eq_nil_iff] at hissues
      refine ⟨entries, rfl, ?_, hissues.2, rfl⟩
      rintro rfl
      exact absurd hissues.1 (List.cons_ne_nil _ _)
    · cases h

theorem validAgentId_of_noIssues {id : String} (h : idIssues id = []) : validAgentId id = true := by
  rw [idIssues] at h
  split at h
  · cases h
  · split at h
    · rename_i hvalid
      exact hvalid
    · cases h

/-- The agent of an entry that has no issues. -/
theorem agentOf_of_noIssues {entry : Node × Node} (h : issuesOf entry = []) :
    ∃ id agent, entry.1.text? = some id ∧ checkEntry id entry.2 = .ok agent ∧
      agentOf entry = some agent := by
  rw [issuesOf, checkKeyed] at h
  cases htext : entry.1.text? with
  | none =>
    rw [htext] at h
    cases h
  | some id =>
    rw [htext] at h
    cases hcheck : checkEntry id entry.2 with
    | error issues =>
      simp only [hcheck] at h
      exact absurd h (checkEntry_error hcheck)
    | ok agent =>
      refine ⟨id, agent, rfl, hcheck, ?_⟩
      simp only [agentOf, checkKeyed, htext, hcheck]
      rfl

/-- Every agent lies under its own id, in id order. -/
structure IsKeyed (manifest : Manifest) : Prop where
  rising : manifest.entries.Rising
  keyed : ∀ entry ∈ manifest.entries, entry.1 = entry.2.id

/-- What holds of every manifest that is accepted. -/
structure Accepted (manifest : Manifest) : Prop where
  rising : manifest.entries.Rising
  nonempty : manifest.entries ≠ []
  keyed : ∀ entry ∈ manifest.entries, entry.1 = entry.2.id
  /-- Every agent comes from an entry without issues. -/
  checked : ∀ agent ∈ manifest.agents, ∃ entry, checkEntry agent.id entry = .ok agent

theorem mem_ofAgents {agents : List Agent} {entry : String × Agent}
    (h : entry ∈ (ofAgents agents).entries) : entry.2 ∈ agents ∧ entry.1 = entry.2.id := by
  obtain ⟨agent, hagent, rfl⟩ := List.mem_map.mp (Keyed.mem_of_mem_ofList h)
  exact ⟨hagent, rfl⟩

theorem isKeyed_ofAgents (agents : List Agent) : (ofAgents agents).IsKeyed :=
  ⟨Keyed.rising_ofList _, fun _ hentry => (mem_ofAgents hentry).2⟩

theorem ofAgents_ne_nil {agents : List Agent} (h : agents ≠ []) :
    (ofAgents agents).entries ≠ [] := by
  obtain ⟨agent, rest, rfl⟩ := List.exists_cons_of_ne_nil h
  intro hnil
  have hkey : agent.id ∈ (ofAgents (agent :: rest)).entries.keys :=
    (Keyed.mem_keys_ofList _ _).mpr (by simp)
  rw [hnil] at hkey
  cases hkey

/-- Every agent comes from an entry without issues, the key of which has its id as the text. -/
theorem exists_entry_of_ofNode {path : Path} {root : Node} {manifest : Manifest}
    (h : ofNode path root = .ok manifest) {agent : Agent} (hagent : agent ∈ manifest.agents) :
    ∃ entries entry, agentTable root = some entries ∧ entry ∈ entries ∧
      entry.1.text? = some agent.id ∧ checkEntry agent.id entry.2 = .ok agent := by
  obtain ⟨entries, htable, _, hissues, rfl⟩ := ofNode_ok h
  obtain ⟨stored, hstored, rfl⟩ := List.mem_map.mp hagent
  obtain ⟨entry, hentry, hsome⟩ := List.mem_filterMap.mp (mem_ofAgents hstored).1
  obtain ⟨id, agent', htext, hcheck, hagent'⟩ := agentOf_of_noIssues (hissues entry hentry)
  rw [hagent'] at hsome
  cases hsome
  obtain ⟨spec, _, _, _, hspec⟩ := checkEntry_ok hcheck
  have hid : stored.2.id = id := by rw [hspec]
  rw [← hid] at htext hcheck
  exact ⟨entries, entry, htable, hentry, htext, hcheck⟩

theorem accepted_of_ofNode {path : Path} {root : Node} {manifest : Manifest}
    (h : ofNode path root = .ok manifest) : manifest.Accepted := by
  have hchecked : ∀ agent ∈ manifest.agents, ∃ entry, checkEntry agent.id entry = .ok agent := by
    intro agent hagent
    obtain ⟨_, entry, _, _, _, hcheck⟩ := exists_entry_of_ofNode h hagent
    exact ⟨entry.2, hcheck⟩
  obtain ⟨entries, _, hne, hissues, rfl⟩ := ofNode_ok h
  refine ⟨Keyed.rising_ofList _, ofAgents_ne_nil ?_, fun entry hentry => (mem_ofAgents hentry).2,
    hchecked⟩
  obtain ⟨entry, rest, rfl⟩ := List.exists_cons_of_ne_nil hne
  obtain ⟨_, agent, _, _, hsome⟩ := agentOf_of_noIssues (hissues entry List.mem_cons_self)
  rw [List.filterMap_cons, hsome]
  exact List.cons_ne_nil _ _

end Manifest

theorem Manifest.accepted_of_parse {path : Path} {text : String} {manifest : Manifest}
    (h : parse path text = .ok manifest) : manifest.Accepted := by
  rw [parse] at h
  split at h
  · exact accepted_of_ofNode h
  · cases h

theorem Disk.loadManifest_accepted {d : Disk} {path : Path} {manifest : Manifest}
    (h : d.loadManifest path = .ok manifest) : manifest.Accepted := by
  rw [Disk.loadManifest] at h
  split at h
  · exact Manifest.accepted_of_parse h
  · cases h

namespace Manifest.IsKeyed

variable {manifest : Manifest}

theorem ids_eq (h : manifest.IsKeyed) : manifest.agents.map (·.id) = manifest.entries.keys := by
  rw [agents, Keyed.values, Keyed.keys, List.map_map]
  exact List.map_congr_left fun entry hentry => (h.keyed entry hentry).symm

theorem nodup_ids (h : manifest.IsKeyed) : (manifest.agents.map (·.id)).Nodup := by
  rw [h.ids_eq]
  exact h.rising.nodup_keys

theorem find?_eq_some_iff (h : manifest.IsKeyed) {id : String} {agent : Agent} :
    manifest.find? id = some agent ↔ agent ∈ manifest.agents ∧ agent.id = id := by
  rw [Manifest.find?, Keyed.find?_eq_some_iff h.rising]
  constructor
  · intro hentry
    exact ⟨List.mem_map.mpr ⟨_, hentry, rfl⟩, (h.keyed _ hentry).symm⟩
  · rintro ⟨hagent, rfl⟩
    obtain ⟨entry, hentry, rfl⟩ := List.mem_map.mp hagent
    rw [← h.keyed entry hentry]
    exact hentry

end Manifest.IsKeyed

namespace Manifest.Accepted

variable {manifest : Manifest}

theorem isKeyed (h : manifest.Accepted) : manifest.IsKeyed := ⟨h.rising, h.keyed⟩

theorem rising_ids (h : manifest.Accepted) :
    (manifest.agents.map (·.id)).Pairwise (· < ·) := by
  rw [h.isKeyed.ids_eq, Keyed.keys, List.pairwise_map]
  exact h.rising

theorem agents_ne_nil (h : manifest.Accepted) : manifest.agents ≠ [] := by
  rw [agents, Keyed.values, ne_eq, List.map_eq_nil_iff]
  exact h.nonempty

theorem validId (h : manifest.Accepted) {agent : Agent} (hagent : agent ∈ manifest.agents) :
    validAgentId agent.id = true := by
  obtain ⟨entry, hcheck⟩ := h.checked agent hagent
  obtain ⟨spec, _, hid, _, _⟩ := checkEntry_ok hcheck
  exact validAgentId_of_noIssues hid

theorem notReserved (h : manifest.Accepted) {agent : Agent} (hagent : agent ∈ manifest.agents) :
    agent.id ≠ wrapperKey := by
  intro hreserved
  obtain ⟨entry, hcheck⟩ := h.checked agent hagent
  obtain ⟨spec, _, hid, _, _⟩ := checkEntry_ok hcheck
  rw [idIssues, if_pos hreserved] at hid
  cases hid

end Manifest.Accepted

end Rulebook
