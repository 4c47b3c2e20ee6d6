import Rulebook.Proofs.Decode.Wording
import Rulebook.Proofs.Manifest
import Rulebook.Proofs.Selector.Union
import Rulebook.Report.Causes

/-!
# Wording of issues

An issue of a manifest names its agent and the place in the entry, and says what is wrong, in fixed
wording, numbers, and texts of the entry that are repeated as they stand: the id, keys that are no fields,
patterns that cannot be read, and the names of defaults. Everything else in it is on one line.
-/

namespace Rulebook

set_option autoImplicit false

open Yaml (Node)
open Text (IsLine IsComposed isLine_append)

/-- The place and the message are put together from wording and from texts of a kind. -/
structure ManifestIssue.Tells (repeated : String → Prop) (issue : ManifestIssue) : Prop where
  place : IsComposed repeated issue.place
  message : IsComposed repeated issue.message

theorem ManifestIssue.Tells.mono {repeated others : String → Prop} {issue : ManifestIssue}
    (h : issue.Tells repeated) (hsub : ∀ s, repeated s → others s) : issue.Tells others :=
  ⟨h.place.mono hsub, h.message.mono hsub⟩

/-- The error is about a text, and what it says is put together from wording and from texts of a kind. -/
def ManifestError.Tells (repeated : String → Prop) : ManifestError → Prop
  | .parse _ reason => IsComposed repeated reason
  | .invalid _ issues => ∀ issue ∈ issues, issue.Tells repeated
  | .io .. | .emptyAgent .. => False

/-! ## Records -/

section

open Decode

variable {repeated : String → Prop} {n : Node}

theorem textList_failsOnly {α : Type} {make : List String → α} (n : Node) :
    FailsOnly (do return make (← list .yaml text n.toSource)) (·.Tells repeated) :=
  (list_failsOnly text_failsOnly n).bind fun _ _ => failsOnly_ok

theorem SelectorSpec.decode_failsOnly (h : ∀ name, n.HasKey name → repeated name) :
    FailsOnly (SelectorSpec.decode .yaml n.toSource) (·.Tells repeated) := by
  refine Layout.decode_failsOnly ⟨by decide, by decide⟩ n (fun spec entry _ name _ => ?_) h
  dsimp only [SelectorSpec.layout]
  split
  iterate 4 exact textList_failsOnly entry.2
  exact failsOnly_ok

theorem Policy.decode_failsOnly (h : ∀ name, n.HasKey name → repeated name) :
    FailsOnly (Policy.decode .yaml n.toSource) (·.Tells repeated) := by
  refine Layout.decode_failsOnly ⟨by decide, by decide⟩ n (fun policy entry _ name _ => ?_) h
  dsimp only [Policy.layout]
  split
  · exact textList_failsOnly entry.2
  · exact (keyed_failsOnly json_failsOnly entry.2).bind fun _ _ => failsOnly_ok
  · exact failsOnly_ok

/-- Keys are repeated of the entry and of its parts. -/
theorem EntrySpec.decode_failsOnly (h : ∀ name, n.HasKey name → repeated name)
    (hparts : ∀ part ∈ n.members, ∀ name, part.2.HasKey name → repeated name) :
    FailsOnly (EntrySpec.decode n) (·.Tells repeated) := by
  refine Layout.decode_failsOnly ⟨by decide, by decide⟩ n (fun spec part hpart name _ => ?_) h
  dsimp only [EntrySpec.layout]
  split
  · exact (text_failsOnly part.2).bind fun _ _ => failsOnly_ok
  · exact (SelectorSpec.decode_failsOnly (hparts part hpart)).bind fun _ _ => failsOnly_ok
  · exact (Policy.decode_failsOnly (hparts part hpart)).bind fun _ _ => failsOnly_ok
  · exact failsOnly_ok

end

/-! ## Patterns -/

theorem Glob.Error.isLine_message (e : Glob.Error) : IsLine e.message := by
  have hfault : IsLine e.fault.message := by
    cases e.fault <;> decide
  exact .append (.append (.append (by decide) (isLine_toString_nat e.position)) (by decide)) hfault

theorem Selector.isComposed_badGlob {repeated : String → Prop} {glob : String} (h : repeated glob)
    (e : Glob.Error) : IsComposed repeated (Selector.badGlob glob e) :=
  .append (.append (.append (.wording (by decide)) (.part h)) (.wording (by decide)))
    (.wording e.isLine_message)

namespace Manifest

variable {repeated : String → Prop} {root : Node} {entry : Node × Node} {entries : Entries} {id field : String}
  {message : String}

/-- The texts that the issues of an entry repeat as they stand. -/
inductive EntryEchoes (entry : Node × Node) : String → Prop
  | agent {id : String} (hid : entry.1.text? = some id) : EntryEchoes entry id
  | key {name : String} (hname : entry.2.HasKey name) : EntryEchoes entry name
  | partKey {part : Node × Node} {name : String} (hpart : part ∈ entry.2.members)
      (hname : part.2.HasKey name) : EntryEchoes entry name
  | scopeGlob {spec : EntrySpec} {glob : String} (hspec : EntrySpec.decode entry.2 = .ok spec)
      (hglob : glob ∈ spec.selector.scopeGlobs) : EntryEchoes entry (Text.trim glob)
  | target {spec : EntrySpec} {target : String} (hspec : EntrySpec.decode entry.2 = .ok spec)
      (htarget : target ∈ spec.policy.targets) : EntryEchoes entry target
  | defaultName {defaults : Node} {name : String}
      (hdefaults : (entry.2.member? "policy").bind (·.member? "defaults") = some defaults)
      (hname : defaults.HasKey name) : EntryEchoes entry name

/-- The texts that the issues of a manifest repeat as they stand. -/
def Echoes (root : Node) (s : String) : Prop :=
  ∃ entries, agentTable root = some entries ∧ ∃ entry ∈ entries, EntryEchoes entry s

theorem tells_of_agent (hid : repeated id) (hfield : IsComposed repeated field)
    (hmessage : IsComposed repeated message) :
    (⟨some id, field, message⟩ : ManifestIssue).Tells repeated :=
  ⟨.append (.append (.part hid) (.wording (by decide))) hfield, hmessage⟩

theorem tells_line (hid : repeated id) (hfield : IsLine field) (hmessage : IsLine message) :
    (⟨some id, field, message⟩ : ManifestIssue).Tells repeated :=
  tells_of_agent hid (.wording hfield) (.wording hmessage)

theorem isLine_item {front : String} (hfront : IsLine front) (i : Nat) :
    IsLine (front ++ "[" ++ toString i ++ "]") :=
  .append (.append (.append hfront (by decide)) (isLine_toString_nat i)) (by decide)

theorem idIssues_tells (hid : repeated id) : ∀ issue ∈ idIssues id, issue.Tells repeated := by
  rw [idIssues]
  split
  · exact List.forall_mem_singleton.mpr (tells_line hid (by decide) (by decide))
  · split
    · exact List.forall_mem_nil _
    · exact List.forall_mem_singleton.mpr (tells_line hid (by decide) (by decide))

theorem nameIssues_tells (hid : repeated id) (name : String) :
    ∀ issue ∈ nameIssues id name, issue.Tells repeated := by
  rw [nameIssues]
  split
  · exact List.forall_mem_singleton.mpr (tells_line hid (by decide) (by decide))
  · exact List.forall_mem_nil _

theorem selectorIssues_tells (hid : repeated id) {spec : SelectorSpec}
    (hglobs : ∀ glob ∈ spec.scopeGlobs, repeated (Text.trim glob)) :
    ∀ issue ∈ selectorIssues id spec, issue.Tells repeated := by
  have hplace {field : String} (h : IsLine field) : IsLine (selectorField field) := by
    rw [selectorField]
    split
    · exact h
    · exact .append (by decide) h
  have hfields : ∀ field ∈ spec.fields, IsLine field.1 := by
    simp only [SelectorSpec.fields, List.forall_mem_cons]
    exact ⟨by decide, by decide, by decide, by decide, List.forall_mem_nil _⟩
  intro issue hissue
  obtain ⟨problem, hproblem, rfl⟩ := List.mem_map.mp hissue
  rw [Selector.problems] at hproblem
  split at hproblem
  · rw [List.mem_singleton.mp hproblem]
    exact tells_line hid (by decide) (by decide)
  · cases Selector.mem_entryProblems.mp hproblem with
    | blank hfield hentry hblank =>
      have hempty : IsLine "must not be empty" := by decide
      exact tells_line hid (hplace (isLine_item (hfields _ hfield) _)) hempty
    | badGlob hentry hbad =>
      exact tells_of_agent hid (.wording (hplace (isLine_item (by decide) _)))
        (Selector.isComposed_badGlob (hglobs _ (List.mem_of_getElem? hentry)) _)

theorem targetIssues_tells (hid : repeated id) {targets : List String}
    (htargets : ∀ target ∈ targets, repeated target) :
    ∀ issue ∈ targetIssues id targets, issue.Tells repeated := by
  refine List.forall_mem_append.mpr ⟨?_, fun issue hissue => ?_⟩
  · split
    · exact List.forall_mem_singleton.mpr (tells_line hid (by decide) (by decide))
    · exact List.forall_mem_nil _
  · obtain ⟨⟨target, i⟩, htarget, hsome⟩ := List.mem_filterMap.mp hissue
    rw [targetIssue] at hsome
    dsimp only at hsome
    have hfield : IsLine ("policy.targets[" ++ toString i ++ "]") :=
      .append (.append (by decide) (isLine_toString_nat i)) (by decide)
    split at hsome
    · cases hsome
      exact tells_line hid hfield (by decide)
    · split at hsome
      · cases hsome
      · cases hsome
        exact tells_of_agent hid (.wording hfield)
          (Selector.isComposed_badGlob (htargets target (List.fst_mem_of_mem_zipIdx htarget)) _)

theorem defaultIssues_tells (hid : repeated id) {value : Node}
    (hdefaults : ∀ defaults name, (value.member? "policy").bind (·.member? "defaults") = some defaults →
      defaults.HasKey name → repeated name) :
    ∀ issue ∈ defaultIssues id value, issue.Tells repeated := by
  rw [defaultIssues]
  split
  · exact List.forall_mem_nil _
  · rename_i rows hrows
    obtain ⟨defaults, hvalue, hentries⟩ := Option.bind_eq_some_iff.mp hrows
    intro issue hissue
    obtain ⟨row, hrow, hsome⟩ := List.mem_filterMap.mp hissue
    dsimp only at hsome
    split at hsome
    · cases hsome
    · cases hsome
      -- a key that is no text is shown as an empty name
      have hname : IsComposed repeated (row.1.text?.getD "") := by
        cases hkey : row.1.text? with
        | none => exact .wording (by decide)
        | some name => exact .part (hdefaults defaults name hvalue ⟨row, by rwa [Node.members, hentries], hkey⟩)
      exact tells_of_agent hid (.append (.wording (by decide)) hname) (.wording (by decide))

theorem issuesOf_tells (entry : Node × Node) :
    ∀ issue ∈ issuesOf entry, issue.Tells (EntryEchoes entry) := by
  rw [issuesOf, checkKeyed]
  cases hid : entry.1.text? with
  | none => exact List.forall_mem_singleton.mpr ⟨.wording (by decide), .wording (by decide)⟩
  | some id =>
    have hagent : EntryEchoes entry id := .agent hid
    dsimp only
    rw [checkEntry]
    cases hspec : EntrySpec.decode entry.2 with
    | error e =>
      have hdecode : FailsOnly (EntrySpec.decode entry.2) (·.Tells (EntryEchoes entry)) :=
        EntrySpec.decode_failsOnly (fun name hname => .key hname)
          fun part hpart name hname => .partKey hpart hname
      refine List.forall_mem_append.mpr ⟨idIssues_tells hagent, List.forall_mem_singleton.mpr ?_⟩
      exact tells_of_agent hagent (.wording (by decide)) (hdecode e hspec)
    | ok spec =>
      have hall : ∀ issue ∈ idIssues id ++ specIssues id entry.2 spec, issue.Tells (EntryEchoes entry) := by
        simp only [specIssues, List.forall_mem_append]
        refine ⟨idIssues_tells hagent, ⟨⟨nameIssues_tells hagent _, ?_⟩, ?_⟩, ?_⟩
        · exact selectorIssues_tells hagent fun glob hglob => .scopeGlob hspec hglob
        · exact targetIssues_tells hagent fun target htarget => .target hspec htarget
        · exact defaultIssues_tells hagent fun defaults name hvalue hname => .defaultName hvalue hname
      dsimp only
      cases (idIssues id ++ specIssues id entry.2 spec).isEmpty with
      | true => exact List.forall_mem_nil _
      | false => exact hall

theorem ofNode_failsOnly (path : Path) (root : Node) :
    FailsOnly (ofNode path root) (·.Tells (Echoes root)) := by
  cases htable : agentTable root with
  | none =>
    rw [ofNode, htable]
    exact failsOnly_error (List.forall_mem_singleton.mpr ⟨.wording (by decide), .wording (by decide)⟩)
  | some entries =>
    rw [ofNode_of_table path htable]
    split
    · exact failsOnly_ok
    · refine failsOnly_error (List.forall_mem_append.mpr ⟨?_, fun issue hissue => ?_⟩)
      · split
        · exact List.forall_mem_singleton.mpr ⟨.wording (by decide), .wording (by decide)⟩
        · exact List.forall_mem_nil _
      · obtain ⟨entry, hentry, hissue⟩ := List.mem_flatMap.mp hissue
        exact (issuesOf_tells entry issue hissue).mono fun s hs => ⟨entries, htable, entry, hentry, hs⟩

/-- The text is the id of an entry, and no id for an agent. -/
def Rejects (root : Node) (s : String) : Prop :=
  ∃ entries, agentTable root = some entries ∧
    ∃ entry ∈ entries, entry.1.text? = some s ∧ validAgentId s = false

theorem mem_issuesOf_of_invalid (hid : entry.1.text? = some id) (hwrong : validAgentId id = false) :
    ∃ issue ∈ issuesOf entry, issue.place = id ++ "." ++ "agent_id" := by
  have hne : id ≠ wrapperKey := by
    rintro rfl
    exact absurd hwrong (by decide)
  obtain ⟨issue, hissue, hplace⟩ : ∃ issue ∈ idIssues id, issue.place = id ++ "." ++ "agent_id" := by
    rw [idIssues, if_neg hne, hwrong]
    exact ⟨_, List.mem_singleton_self _, rfl⟩
  refine ⟨issue, ?_, hplace⟩
  rw [issuesOf, checkKeyed, hid]
  dsimp only
  rw [checkEntry]
  cases EntrySpec.decode entry.2 with
  | error e => exact List.mem_append_left _ hissue
  | ok spec =>
    have hall := List.mem_append_left (specIssues id entry.2 spec) hissue
    have hsome : (idIssues id ++ specIssues id entry.2 spec).isEmpty = false :=
      List.isEmpty_eq_false_iff.mpr (List.ne_nil_of_mem hall)
    dsimp only
    rw [hsome]
    exact hall

theorem exists_issue_of_rejects {s : String} (path : Path) (h : Rejects root s) :
    ∃ issues, ofNode path root = .error (.invalid path issues) ∧
      ∃ issue ∈ issues, s.toList <:+: issue.place.toList := by
  obtain ⟨entries, htable, entry, hentry, hid, hwrong⟩ := h
  obtain ⟨issue, hissue, hplace⟩ := mem_issuesOf_of_invalid hid hwrong
  have hmem : issue ∈ issuesIn entries :=
    List.mem_append_right _ (List.mem_flatMap.mpr ⟨entry, hentry, hissue⟩)
  refine ⟨issuesIn entries, ?_, issue, hmem, ?_⟩
  · rw [ofNode_of_table path htable, if_neg (List.ne_nil_of_mem hmem)]
  · rw [hplace, String.append_assoc]
    exact Text.infix_between "" s _

theorem parse_failsOnly (path : Path) (text : String) :
    FailsOnly (parse path text) (·.Tells (Yaml.TextEchoes Echoes text)) := by
  cases hparse : Node.parse text with
  | ok root =>
    rw [parse, hparse, Yaml.textEchoes_of_ok hparse]
    exact ofNode_failsOnly path root
  | error e =>
    rw [parse, hparse, Yaml.textEchoes_of_error hparse]
    exact failsOnly_error e.isComposed_message

end Manifest

end Rulebook
