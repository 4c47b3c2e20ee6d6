import Rulebook.Proofs.Manifest.Issues
import Rulebook.Proofs.Yaml.Depth

/-!
# Wrapped manifests

A manifest may be wrapped in a mapping whose only key is `agents`. If it has no key `rule_selector`, it then
means what it means without the wrapper. The entry of an agent, which has that key, is not taken for a
manifest: the wrapper is the key of the entry, and refused as the id of an agent.
-/

namespace Rulebook.Manifest

set_option autoImplicit false

open Yaml (Node)

variable {path : Path} {content : Node} {entries : Entries}

/-! ## The wrapper -/

/-- A mapping whose only key is that of the wrapper. -/
def wrap (content : Node) : Node := .mapping [(.string wrapperKey, content)]

/-- What is wrong with an agent that is called like the wrapper. -/
def reserved : ManifestIssue :=
  ⟨some wrapperKey, "agent_id",
    "'agents' is reserved for the top-level wrapper; choose another agent_id"⟩

theorem agentTable_of_entries? (hentries : content.entries? = some entries)
    (hkey : Node.valueOf? wrapperKey entries = none) : agentTable content = some entries := by
  rw [agentTable, hentries]
  dsimp only
  rw [hkey, Option.bind_none, ite_self]

theorem agentTable_wrap (hentries : content.entries? = some entries) :
    agentTable (wrap content) =
      if (Node.valueOf? "rule_selector" entries).isSome then some [(.string wrapperKey, content)]
      else some entries := by
  have hinner : (Node.valueOf? wrapperKey [(Node.string wrapperKey, content)]).bind (·.entries?) =
      some entries := by
    rw [Node.valueOf?, if_pos rfl, Option.bind_some, hentries]
  have houter : (wrap content).entries? = some [(Node.string wrapperKey, content)] := rfl
  rw [agentTable, houter]
  dsimp only
  rw [List.length_singleton, if_pos rfl, hinner]

/-- The entry of an agent under the name of the wrapper: the name is refused first. -/
theorem issuesIn_wrapper {spec : EntrySpec} (h : EntrySpec.decode content = .ok spec) :
    issuesIn [(.string wrapperKey, content)] = reserved :: specIssues wrapperKey content spec := by
  have hid : idIssues wrapperKey = [reserved] := if_pos rfl
  have hentry : issuesIn [(Node.string wrapperKey, content)] =
      issuesOf (Node.string wrapperKey, content) := by
    rw [issuesIn, List.flatMap_singleton]
    rfl
  have hkeyed : checkKeyed (Node.string wrapperKey, content) = checkEntry wrapperKey content := rfl
  have hcheck : checkEntry wrapperKey content =
      .error (reserved :: specIssues wrapperKey content spec) := by
    rw [checkEntry, h, hid]
    dsimp only
    rw [List.singleton_append, List.isEmpty_cons, if_neg Bool.false_ne_true]
  rw [hentry, issuesOf, hkeyed, hcheck]

theorem ofNode_wrap (path : Path) (hentries : content.entries? = some entries)
    (hkey : Node.valueOf? wrapperKey entries = none)
    (hselector : Node.valueOf? "rule_selector" entries = none) :
    ofNode path (wrap content) = ofNode path content := by
  have hwrapped := agentTable_wrap hentries
  rw [hselector, Option.isSome_none, if_neg Bool.false_ne_true] at hwrapped
  rw [ofNode_of_table path (agentTable_of_entries? hentries hkey), ofNode_of_table path hwrapped]

theorem ofNode_wrap_entry (path : Path) {spec : EntrySpec} (hentries : content.entries? = some entries)
    (hselector : Node.valueOf? "rule_selector" entries ≠ none)
    (hspec : EntrySpec.decode content = .ok spec) :
    ofNode path (wrap content) =
      .error (.invalid path (reserved :: specIssues wrapperKey content spec)) := by
  have hwrapped := agentTable_wrap hentries
  rw [if_pos (Option.ne_none_iff_isSome.mp hselector)] at hwrapped
  rw [ofNode_of_table path hwrapped, issuesIn_wrapper hspec, if_neg (List.cons_ne_nil _ _)]

/-- Where no key reads as the wrapper's, no issue is about an agent of its name. -/
theorem ofNode_ne_reserved (path : Path) (hentries : content.entries? = some entries)
    (hkeys : ∀ entry ∈ entries, entry.1.text? ≠ some wrapperKey) (issues : List ManifestIssue) :
    ofNode path content ≠ .error (.invalid path (reserved :: issues)) := by
  have hkey : Node.valueOf? wrapperKey entries = none :=
    Yaml.Node.valueOf?_eq_none_iff.mpr fun value hmem => hkeys _ hmem rfl
  rw [ofNode_of_table path (agentTable_of_entries? hentries hkey)]
  split
  · nofun
  · intro heq
    have hissues : issuesIn entries = reserved :: issues :=
      (ManifestError.invalid.inj (Except.error.inj heq)).2
    have hmem : reserved ∈ issuesIn entries := hissues ▸ List.mem_cons_self
    rcases agent_of_mem_issuesIn hmem with hnone | ⟨entry, hentry, htext⟩
    · cases hnone
    · exact hkeys entry hentry htext.symm

/-- The entry of an agent has no key that reads as the wrapper's. -/
theorem text?_ne_wrapperKey {spec : EntrySpec} (hentries : content.entries? = some entries)
    (h : EntrySpec.decode content = .ok spec) : ∀ entry ∈ entries, entry.1.text? ≠ some wrapperKey := by
  have hnamed : Node.named wrapperKey content.members = [] :=
    Decode.Layout.named_of_strict rfl (by decide) h
  rw [Node.members, hentries, Option.getD_some, List.eq_nil_iff_forall_not_mem] at hnamed
  exact fun entry hentry htext => hnamed entry (Node.mem_named_iff.mpr ⟨hentry, htext⟩)

theorem ofNode_wrap_ne (path : Path) {spec : EntrySpec} (hentries : content.entries? = some entries)
    (hselector : Node.valueOf? "rule_selector" entries ≠ none)
    (hspec : EntrySpec.decode content = .ok spec) :
    ofNode path (wrap content) ≠ ofNode path content := by
  rw [ofNode_wrap_entry path hentries hselector hspec]
  exact (ofNode_ne_reserved path hentries (text?_ne_wrapperKey hentries hspec) _).symm

/-- A value that is as deep as can be read cannot be read in a wrapper. -/
theorem depth_lt_of_parse_wrap {text : String} (h : Node.parse text = .ok (wrap content)) :
    content.depth < Yaml.mostCollections := by
  have hdepth := Node.depth_parse h
  rw [wrap, Node.depth, Node.depthEntries, Node.depthEntries, Nat.max_zero] at hdepth
  exact hdepth

/-- A wrapped manifest that can be read has the same outcome as without its wrapper, if it has no key
`rule_selector`. The entry of an agent is refused in a wrapper for the name of the wrapper, ahead of all that
is wrong with its fields, and never has the outcome that it has without. -/
theorem parse_wrapped (path : Path) {bare : String} (hbare : Node.parse bare = .ok content)
    (hentries : content.entries? = some entries) (hkey : Node.valueOf? wrapperKey entries = none) :
    (Yaml.mostCollections ≤ content.depth → ∀ wrapped, Node.parse wrapped ≠ .ok (wrap content)) ∧
      ∀ wrapped, Node.parse wrapped = .ok (wrap content) →
        (Node.valueOf? "rule_selector" entries = none → parse path wrapped = parse path bare) ∧
          ∀ spec, EntrySpec.decode content = .ok spec → Node.valueOf? "rule_selector" entries ≠ none →
            parse path wrapped =
                .error (.invalid path (reserved :: specIssues wrapperKey content spec)) ∧
              parse path wrapped ≠ parse path bare := by
  constructor
  · intro hdeep wrapped hwrapped
    exact Nat.not_lt.mpr hdeep (depth_lt_of_parse_wrap hwrapped)
  · intro wrapped hwrapped
    have hparseBare : parse path bare = ofNode path content := by rw [parse, hbare]
    have hparseWrapped : parse path wrapped = ofNode path (wrap content) := by rw [parse, hwrapped]
    rw [hparseBare, hparseWrapped]
    constructor
    · exact ofNode_wrap path hentries hkey
    · intro spec hspec hselector
      exact ⟨ofNode_wrap_entry path hentries hselector hspec,
        ofNode_wrap_ne path hentries hselector hspec⟩

/-- The entry of an agent. -/
def lone : Entries :=
  [(.string "name", .string "A"),
    (.string "rule_selector", .mapping [(.string "scopes", .sequence [.string "c"])]),
    (.string "policy", .mapping [(.string "targets", .sequence [.string "*"])])]

def loneText : String := "name: A\nrule_selector:\n  scopes: [c]\npolicy:\n  targets: [\"*\"]\n"

def loneWrapped : String :=
  "agents:\n  name: A\n  rule_selector:\n    scopes: [c]\n  policy:\n    targets: [\"*\"]\n"

def webText : String :=
  "web:\n  name: A\n  rule_selector:\n    scopes: [c]\n  policy:\n    targets: [\"*\"]\n"

def webWrapped : String :=
  "agents:\n  web:\n    name: A\n    rule_selector:\n      scopes: [c]\n" ++
  "    policy:\n      targets: [\"*\"]\n"

theorem parse_lone : Node.parse loneText = .ok (.mapping lone) ∧
    Node.parse loneWrapped = .ok (wrap (.mapping lone)) :=
  ⟨Except.toOption_eq_some_iff.mp (by decide +kernel),
    Except.toOption_eq_some_iff.mp (by decide +kernel)⟩

theorem decode_lone : ∃ spec, EntrySpec.decode (.mapping lone) = .ok spec ∧
    specIssues wrapperKey (.mapping lone) spec = [] := by
  have hspec : (EntrySpec.decode (.mapping lone)).toOption.map
      (specIssues wrapperKey (.mapping lone)) = some [] := by decide +kernel
  obtain ⟨spec, hdecode, hnone⟩ := Option.map_eq_some_iff.mp hspec
  exact ⟨spec, Except.toOption_eq_some_iff.mp hdecode, hnone⟩

/-- A manifest of one agent is accepted in its wrapper, and the entry of the agent is not. -/
theorem parse_wrapped_web :
    (∃ manifest, parse ⟨"agents.yaml"⟩ webText = .ok manifest ∧ manifest.size = 1 ∧
        parse ⟨"agents.yaml"⟩ webWrapped = .ok manifest) ∧
      parse ⟨"agents.yaml"⟩ loneWrapped = .error (.invalid ⟨"agents.yaml"⟩ [reserved]) := by
  constructor
  · have hbare : Node.parse webText = .ok (.mapping [(.string "web", .mapping lone)]) :=
      Except.toOption_eq_some_iff.mp (by decide +kernel)
    have hwrapped : Node.parse webWrapped =
        .ok (wrap (.mapping [(.string "web", .mapping lone)])) :=
      Except.toOption_eq_some_iff.mp (by decide +kernel)
    have hsize : (parse ⟨"agents.yaml"⟩ webText).toOption.map (·.size) = some 1 := by decide +kernel
    obtain ⟨manifest, hmanifest, hone⟩ := Option.map_eq_some_iff.mp hsize
    have hparse := Except.toOption_eq_some_iff.mp hmanifest
    refine ⟨manifest, hparse, hone, ?_⟩
    rw [((parse_wrapped ⟨"agents.yaml"⟩ hbare rfl (by decide)).2 webWrapped hwrapped).1 (by decide),
      hparse]
  · obtain ⟨spec, hspec, hnone⟩ := decode_lone
    obtain ⟨-, houtcome⟩ := parse_wrapped ⟨"agents.yaml"⟩ parse_lone.1 rfl (by decide)
    have hrefused := ((houtcome loneWrapped parse_lone.2).2 spec hspec (by decide)).1
    rwa [hnone] at hrefused

/-- The entry of an agent is a mapping without a key `agents`, and the wrapper makes a difference to it. -/
theorem not_parse_wrap_eq :
    ¬ ∀ (path : Path) (bare wrapped : String) (content : Node) (entries : Entries),
      Node.parse bare = .ok content → Node.parse wrapped = .ok (wrap content) →
      content.entries? = some entries → Node.valueOf? wrapperKey entries = none →
      parse path wrapped = parse path bare := by
  intro hsame
  obtain ⟨spec, hspec, -⟩ := decode_lone
  have heq := hsame ⟨"agents.yaml"⟩ loneText loneWrapped _ lone parse_lone.1 parse_lone.2 rfl (by decide)
  rw [parse, parse, parse_lone.1, parse_lone.2] at heq
  exact ofNode_wrap_ne ⟨"agents.yaml"⟩ rfl (by decide) hspec heq

end Rulebook.Manifest
