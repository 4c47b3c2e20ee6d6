import Rulebook.Proofs.Manifest.Written
import Rulebook.Proofs.Selector

/-!
# Issues of a manifest

The issues of a manifest are those that its entries have on their own, in the order of the entries. An entry
has none exactly if it is sound, and then it is an agent; otherwise each of its issues names the agent
that it is written for.
-/

namespace Rulebook.Manifest

set_option autoImplicit false

open Yaml (Node)

variable {path : Path} {entries : Entries} {entry : Node × Node} {id : String} {spec : EntrySpec}
  {issue : ManifestIssue}

/-! ## Every issue names its agent -/

theorem agent_of_mem_idIssues (h : issue ∈ idIssues id) : issue.agent = some id := by
  rw [idIssues] at h
  split at h
  · rw [List.mem_singleton.mp h]
  · split at h
    · cases h
    · rw [List.mem_singleton.mp h]

theorem agent_of_mem_nameIssues {name : String} (h : issue ∈ nameIssues id name) :
    issue.agent = some id := by
  rw [nameIssues] at h
  split at h
  · rw [List.mem_singleton.mp h]
  · cases h

theorem agent_of_mem_selectorIssues {spec : SelectorSpec} (h : issue ∈ selectorIssues id spec) :
    issue.agent = some id := by
  obtain ⟨problem, -, rfl⟩ := List.mem_map.mp h
  rfl

theorem agent_of_targetIssue {target : String × Nat} (h : targetIssue id target = some issue) :
    issue.agent = some id := by
  rw [targetIssue] at h
  split at h
  · cases h
    rfl
  · split at h
    · cases h
    · cases h
      rfl

theorem agent_of_mem_targetIssues {targets : List String} (h : issue ∈ targetIssues id targets) :
    issue.agent = some id := by
  rw [targetIssues, List.mem_append] at h
  rcases h with h | h
  · split at h
    · rw [List.mem_singleton.mp h]
    · cases h
  · obtain ⟨target, -, htarget⟩ := List.mem_filterMap.mp h
    exact agent_of_targetIssue htarget

theorem agent_of_mem_defaultIssues {value : Node} (h : issue ∈ defaultIssues id value) :
    issue.agent = some id := by
  rw [defaultIssues] at h
  split at h
  · cases h
  · obtain ⟨member, -, hmember⟩ := List.mem_filterMap.mp h
    dsimp only at hmember
    split at hmember
    · cases hmember
    · cases hmember
      rfl

theorem agent_of_mem_specIssues {value : Node} {spec : EntrySpec} (h : issue ∈ specIssues id value spec) :
    issue.agent = some id := by
  simp only [specIssues, List.mem_append] at h
  rcases h with ((h | h) | h) | h
  · exact agent_of_mem_nameIssues h
  · exact agent_of_mem_selectorIssues h
  · exact agent_of_mem_targetIssues h
  · exact agent_of_mem_defaultIssues h

theorem agent_of_checkEntry {value : Node} {issues : List ManifestIssue}
    (h : checkEntry id value = .error issues) (hissue : issue ∈ issues) : issue.agent = some id := by
  rw [checkEntry] at h
  split at h
  · cases h
    rcases List.mem_append.mp hissue with hissue | hissue
    · exact agent_of_mem_idIssues hissue
    · rw [List.mem_singleton.mp hissue]
  · dsimp only at h
    split at h
    · cases h
    · cases h
      rcases List.mem_append.mp hissue with hissue | hissue
      · exact agent_of_mem_idIssues hissue
      · exact agent_of_mem_specIssues hissue

/-- An issue of an entry names the agent that the entry is written for, if its key is a text at all. -/
theorem agent_of_mem_issuesOf (h : issue ∈ issuesOf entry) : issue.agent = entry.1.text? := by
  rw [issuesOf, checkKeyed] at h
  cases htext : entry.1.text? with
  | none =>
    rw [htext] at h
    rw [List.mem_singleton.mp h]
  | some id =>
    simp only [htext] at h
    cases hcheck : checkEntry id entry.2 with
    | ok agent => simp [hcheck] at h
    | error issues =>
      simp only [hcheck] at h
      exact agent_of_checkEntry hcheck h

theorem agent_of_mem_issuesIn (h : issue ∈ issuesIn entries) :
    issue.agent = none ∨ ∃ entry ∈ entries, issue.agent = entry.1.text? := by
  rw [issuesIn, List.mem_append] at h
  rcases h with h | h
  · split at h
    · rw [List.mem_singleton.mp h]
      exact .inl rfl
    · cases h
  · obtain ⟨entry, hentry, hissue⟩ := List.mem_flatMap.mp h
    exact .inr ⟨entry, hentry, agent_of_mem_issuesOf hissue⟩

/-! ## Entries that nothing is wrong with -/

/-- A pattern for files that an agent can have. -/
def IsTarget (target : String) : Prop := Text.trim target ≠ "" ∧ Glob.IsPattern target

/-- The entry is written for an agent with this id, it reads as `spec`, and nothing is wrong with it. -/
structure IsSoundAs (entry : Node × Node) (id : String) (spec : EntrySpec) : Prop where
  key : entry.1.text? = some id
  read : EntrySpec.decode entry.2 = .ok spec
  notReserved : id ≠ wrapperKey
  validId : validAgentId id = true
  named : Text.trim spec.name ≠ ""
  selector : spec.selector.IsSound
  targeted : spec.policy.targets ≠ []
  targets : ∀ target ∈ spec.policy.targets, IsTarget target
  defaults : ∀ member ∈ checkedDefaults entry.2, member.2.scalar?.isSome = true

def IsSound (entry : Node × Node) : Prop := ∃ id spec, IsSoundAs entry id spec

theorem idIssues_eq_nil_iff : idIssues id = [] ↔ id ≠ wrapperKey ∧ validAgentId id = true := by
  rw [idIssues]
  constructor
  · intro h
    split at h
    · cases h
    · rename_i hreserved
      exact ⟨hreserved, validAgentId_of_noIssues (by rw [idIssues, if_neg hreserved]; exact h)⟩
  · rintro ⟨hreserved, hvalid⟩
    rw [if_neg hreserved, if_pos hvalid]

theorem nameIssues_eq_nil_iff {name : String} : nameIssues id name = [] ↔ name ≠ "" := by
  rw [nameIssues]
  split
  · rename_i hempty
    simpa using hempty
  · rename_i hfilled
    simpa using hfilled

theorem selectorIssues_eq_nil_iff {spec : SelectorSpec} :
    selectorIssues id spec = [] ↔ spec.IsSound := by
  rw [selectorIssues, List.map_eq_nil_iff, Selector.problems_eq_nil_iff]

theorem targetIssue_eq_none_iff (target : String) (i : Nat) :
    targetIssue id (target, i) = none ↔ IsTarget target := by
  rw [targetIssue, IsTarget, Glob.IsPattern]
  dsimp only
  split
  · rename_i hempty
    rw [String.isEmpty_iff] at hempty
    simp [hempty]
  · rename_i hfilled
    rw [String.isEmpty_iff] at hfilled
    cases Glob.parse target with
    | ok pattern => simp [hfilled]
    | error e => simp

theorem targetIssues_eq_nil_iff {targets : List String} :
    targetIssues id targets = [] ↔ targets ≠ [] ∧ ∀ target ∈ targets, IsTarget target := by
  rw [targetIssues, List.append_eq_nil_iff, filterMap_zipIdx_eq_nil_iff targetIssue_eq_none_iff]
  apply and_congr_left
  intro _
  cases targets with
  | nil => simp
  | cons target rest => simp

theorem specIssues_eq_nil_iff {value : Node} :
    specIssues id value spec = [] ↔ Text.trim spec.name ≠ "" ∧ spec.selector.IsSound ∧
      (spec.policy.targets ≠ [] ∧ ∀ target ∈ spec.policy.targets, IsTarget target) ∧
      ∀ member ∈ checkedDefaults value, member.2.scalar?.isSome = true := by
  rw [specIssues, List.append_eq_nil_iff, List.append_eq_nil_iff, List.append_eq_nil_iff,
    nameIssues_eq_nil_iff, selectorIssues_eq_nil_iff, targetIssues_eq_nil_iff,
    defaultIssues_eq_nil_iff, and_assoc, and_assoc]

theorem issuesOf_eq_nil_iff : issuesOf entry = [] ↔ IsSound entry := by
  constructor
  · intro h
    obtain ⟨id, agent, hkey, hcheck, -⟩ := agentOf_of_noIssues h
    obtain ⟨spec, hspec, hid, hnone, -⟩ := checkEntry_ok hcheck
    obtain ⟨hreserved, hvalid⟩ := idIssues_eq_nil_iff.mp hid
    obtain ⟨hnamed, hselector, ⟨htargeted, htargets⟩, hdefaults⟩ := specIssues_eq_nil_iff.mp hnone
    exact ⟨id, spec, hkey, hspec, hreserved, hvalid, hnamed, hselector, htargeted, htargets, hdefaults⟩
  · rintro ⟨id, spec, h⟩
    have hid := idIssues_eq_nil_iff.mpr ⟨h.notReserved, h.validId⟩
    have hspec : specIssues id entry.2 spec = [] :=
      specIssues_eq_nil_iff.mpr ⟨h.named, h.selector, ⟨h.targeted, h.targets⟩, h.defaults⟩
    have hcheck : checkEntry id entry.2 =
        .ok ⟨id, Text.trim spec.name, ⟨Selector.matchersOf spec.selector⟩, spec.policy⟩ := by
      rw [checkEntry, h.read]
      dsimp only
      rw [hid, hspec]
      rfl
    rw [issuesOf, checkKeyed, h.key]
    dsimp only
    rw [hcheck]

theorem issuesIn_eq_nil_iff :
    issuesIn entries = [] ↔ entries ≠ [] ∧ ∀ entry ∈ entries, IsSound entry := by
  rw [issuesIn, List.append_eq_nil_iff, List.flatMap_eq_nil_iff]
  simp only [issuesOf_eq_nil_iff]
  apply and_congr_left
  intro _
  cases entries with
  | nil => simp
  | cons entry rest => simp

/-! ## Entries on their own and together -/

/-- An entry as it is read with nothing before it. -/
def Reading.alone (entry : Node × Node) : Reading := Reading.add ⟨[], []⟩ entry

theorem Reading.alone_eq (entry : Node × Node) :
    alone entry =
      ⟨issuesOf entry, (agentOf entry).elim [] fun agent => [(agent.id, agent)]⟩ := by
  rw [alone, add_eq]
  rfl

/-- The agent has all that an agent needs. -/
structure IsComplete (agent : Agent) : Prop where
  named : agent.name ≠ ""
  trimmed : Text.trim agent.name = agent.name
  matched : agent.selector.matchers ≠ []
  targeted : agent.policy.targets ≠ []
  targets : ∀ target ∈ agent.policy.targets, IsTarget target

/-- What an entry comes to on its own. -/
structure IsReadAlone (entry : Node × Node) : Prop where
  sound : (Reading.alone entry).issues = [] ↔ IsSound entry
  unkeyed : entry.1.text? = none →
    (Reading.alone entry).issues = [⟨none, "<key>", "agent ids must be strings"⟩]
  named : ∀ id, entry.1.text? = some id →
    ∀ issue ∈ (Reading.alone entry).issues, issue.agent = some id
  accepted : (Reading.alone entry).issues = [] → ∃ agent,
    (Reading.alone entry).agents = [(agent.id, agent)] ∧ Declares entry agent ∧ IsComplete agent
  refused : (Reading.alone entry).issues ≠ [] → (Reading.alone entry).agents = []

theorem isComplete_of_checkEntry {value : Node} {agent : Agent} (h : checkEntry id value = .ok agent) :
    IsComplete agent := by
  obtain ⟨spec, -, -, hnone, rfl⟩ := checkEntry_ok h
  obtain ⟨hnamed, hselector, ⟨htargeted, htargets⟩, -⟩ := specIssues_eq_nil_iff.mp hnone
  constructor
  · exact hnamed
  · exact Text.trim_trim spec.name
  · exact Selector.matchersOf_ne_nil hselector
  · exact htargeted
  · exact htargets

theorem agentOf_of_issues (h : issuesOf entry ≠ []) : agentOf entry = none := by
  rw [issuesOf] at h
  rw [agentOf]
  cases hcheck : checkKeyed entry with
  | ok agent => exact absurd (by rw [hcheck]) h
  | error issues => rfl

theorem isReadAlone (entry : Node × Node) : IsReadAlone entry := by
  constructor
  · rw [Reading.alone_eq]
    exact issuesOf_eq_nil_iff
  · intro hkey
    rw [Reading.alone_eq, issuesOf, checkKeyed, hkey]
  · intro id hkey issue hissue
    rw [Reading.alone_eq] at hissue
    rw [agent_of_mem_issuesOf hissue, hkey]
  · intro hnone
    rw [Reading.alone_eq] at hnone ⊢
    obtain ⟨id, agent, hkey, hcheck, hagent⟩ := agentOf_of_noIssues hnone
    rw [hagent]
    exact ⟨agent, rfl, declares_of_checkEntry hkey hcheck, isComplete_of_checkEntry hcheck⟩
  · intro hissues
    rw [Reading.alone_eq] at hissues ⊢
    rw [agentOf_of_issues hissues]
    rfl

theorem issuesIn_of_ne_nil (h : entries ≠ []) :
    issuesIn entries = entries.flatMap fun entry => (Reading.alone entry).issues := by
  obtain ⟨entry, rest, rfl⟩ := List.exists_cons_of_ne_nil h
  simp only [issuesIn, Reading.alone_eq, List.isEmpty_cons, Bool.false_eq_true, if_false, List.nil_append]

theorem ofAgents_eq_alone (entries : Entries) :
    ofAgents (entries.filterMap agentOf) =
      ⟨Keyed.ofList (entries.flatMap fun entry => (Reading.alone entry).agents)⟩ := by
  rw [ofAgents, List.map_filterMap, List.filterMap_eq_flatMap_toList]
  simp only [Reading.alone_eq]
  refine congrArg (fun pairs => Manifest.mk (Keyed.ofList pairs)) (List.flatMap_congr fun entry _ => ?_)
  cases agentOf entry with
  | none => rfl
  | some agent => rfl

theorem ofNode_of_noTable (path : Path) {root : Node} (h : agentTable root = none) :
    ofNode path root = .error (.invalid path
      [⟨none, "<document>", "expected a mapping of agent_id to agent entry"⟩]) := by
  rw [ofNode, h]

theorem ofNode_invalid_iff {root : Node} :
    (∃ issues, ofNode path root = .error (.invalid path issues)) ↔
      agentTable root = none ∨ agentTable root = some [] ∨
        ∃ entries, agentTable root = some entries ∧ ∃ entry ∈ entries, ¬ IsSound entry := by
  cases htable : agentTable root with
  | none => exact iff_of_true ⟨_, ofNode_of_noTable path htable⟩ (.inl rfl)
  | some entries =>
    have hrefused : (∃ issues, ofNode path root = .error (.invalid path issues)) ↔
        issuesIn entries ≠ [] := by
      rw [ofNode_of_table path htable]
      split
      · rename_i hnone
        exact iff_of_false (fun ⟨_, h⟩ => nomatch h) (not_not_intro hnone)
      · rename_i hissues
        exact iff_of_true ⟨_, rfl⟩ hissues
    rw [hrefused, ne_eq, issuesIn_eq_nil_iff, not_and_or, not_not]
    constructor
    · rintro (rfl | hunsound)
      · exact .inr (.inl rfl)
      · refine .inr (.inr ⟨entries, rfl, ?_⟩)
        simpa using hunsound
    · rintro (hmissing | hempty | ⟨others, hothers, entry, hentry, hunsound⟩)
      · cases hmissing
      · exact .inl (Option.some.inj hempty)
      · cases hothers
        exact .inr fun hsound => hunsound (hsound entry hentry)

theorem issues_of_ofNode {root : Node} {e : ManifestError} (h : ofNode path root = .error e) :
    ∃ issues, e = .invalid path issues ∧ issues ≠ [] ∧
      ∀ entries, agentTable root = some entries → entries ≠ [] →
        issues = entries.flatMap fun entry => (Reading.alone entry).issues := by
  cases htable : agentTable root with
  | none =>
    rw [ofNode_of_noTable path htable] at h
    cases h
    exact ⟨_, rfl, List.cons_ne_nil _ _, fun entries hentries => nomatch hentries⟩
  | some entries =>
    rw [ofNode_of_table path htable] at h
    split at h
    · cases h
    · rename_i hissues
      cases h
      refine ⟨_, rfl, hissues, ?_⟩
      rintro others ⟨⟩ hne
      exact issuesIn_of_ne_nil hne

theorem agents_of_ofNode {root : Node} {manifest : Manifest} (h : ofNode path root = .ok manifest) :
    ∃ entries, agentTable root = some entries ∧
      manifest.entries = Keyed.ofList (entries.flatMap fun entry => (Reading.alone entry).agents) := by
  obtain ⟨entries, htable, -, -, rfl⟩ := ofNode_ok h
  exact ⟨entries, htable, by rw [ofAgents_eq_alone]⟩

/-- A document that can be read is refused exactly if it is no table of agents, if the table is empty, or if
one of its entries is unsound. What stands before or after an entry makes no difference to it: the
issues of all entries are reported as each has them on its own, and so are their agents kept. -/
theorem parse_collects {text : String} {root : Node} (h : Node.parse text = .ok root) :
    ((∃ issues, parse path text = .error (.invalid path issues)) ↔
        agentTable root = none ∨ agentTable root = some [] ∨
          ∃ entries, agentTable root = some entries ∧ ∃ entry ∈ entries, ¬ IsSound entry) ∧
      (∀ e, parse path text = .error e → ∃ issues, e = .invalid path issues ∧ issues ≠ [] ∧
        ∀ entries, agentTable root = some entries → entries ≠ [] →
          issues = entries.flatMap fun entry => (Reading.alone entry).issues) ∧
      (∀ manifest, parse path text = .ok manifest → ∃ entries, agentTable root = some entries ∧
        manifest.entries = Keyed.ofList (entries.flatMap fun entry => (Reading.alone entry).agents)) ∧
      ∀ entry, IsReadAlone entry := by
  have hparse : parse path text = ofNode path root := by rw [parse, h]
  rw [hparse]
  refine ⟨ofNode_invalid_iff, ?_, ?_, isReadAlone⟩
  · intro e he
    exact issues_of_ofNode he
  · intro manifest hmanifest
    exact agents_of_ofNode hmanifest

/-- An agent in order, one with three faults, and an entry that is written for no agent. -/
def faulty : Entries :=
  [(.string "a", .mapping [(.string "name", .string "A"),
      (.string "rule_selector", .mapping [(.string "scopes", .sequence [.string "c"])]),
      (.string "policy", .mapping [(.string "targets", .sequence [.string "*"])])]),
    (.string "B", .mapping [(.string "name", .string " "),
      (.string "rule_selector", .mapping [(.string "scopes", .sequence [.string "c"])]),
      (.string "policy", .mapping [(.string "targets", .sequence [])])]),
    (.bool true, .string "x")]

def faultyText : String :=
  "a:\n  name: A\n  rule_selector:\n    scopes: [c]\n  policy:\n    targets: [\"*\"]\n" ++
  "B:\n  name: \" \"\n  rule_selector:\n    scopes: [c]\n  policy:\n    targets: []\ntrue: x\n"

theorem parse_collects_faulty :
    Node.parse faultyText = .ok (.mapping faulty) ∧ (∃ entry ∈ faulty, ¬ IsSound entry) ∧
      ∃ issues, parse ⟨"agents.yaml"⟩ faultyText = .error (.invalid ⟨"agents.yaml"⟩ issues) ∧
        issues = faulty.flatMap (fun entry => (Reading.alone entry).issues) ∧
        issues.map (fun issue => (issue.agent, issue.field)) =
          [(some "B", "agent_id"), (some "B", "name"), (some "B", "policy.targets"), (none, "<key>")] := by
  have hroot : Node.parse faultyText = .ok (.mapping faulty) :=
    Except.toOption_eq_some_iff.mp (by decide +kernel)
  have hunsound : ∃ entry ∈ faulty, ¬ IsSound entry := by
    refine ⟨(.bool true, .string "x"), by simp [faulty], ?_⟩
    rintro ⟨id, spec, h⟩
    cases h.key
  obtain ⟨hrefused, hissues, -, -⟩ := @parse_collects ⟨"agents.yaml"⟩ _ _ hroot
  obtain ⟨issues, hinvalid⟩ := hrefused.mpr (.inr (.inr ⟨faulty, rfl, hunsound⟩))
  obtain ⟨_, heq, -, hconcat⟩ := hissues _ hinvalid
  cases heq
  have hall := hconcat faulty rfl (List.cons_ne_nil _ _)
  refine ⟨hroot, hunsound, issues, hinvalid, hall, ?_⟩
  rw [hall]
  decide +kernel

end Rulebook.Manifest
