import Rulebook.Proofs.Decode.Origin
import Rulebook.Proofs.Manifest.Entries

/-!
# Defaults as they are written

The defaults of an agent are decoded by the texts of keys and checked by looking keys up. Both ways lead
to the same values only if neither the key of the policy nor that of the defaults carries a tag; then all
defaults are scalars. Otherwise the check finds no defaults, and whatever can be read as JSON is accepted.
-/

namespace Rulebook

set_option autoImplicit false

open Yaml (Node)
open Decode.Layout (part_of_decode)

/-- A truth value, a text or a number. -/
def Json.isScalar : Json → Bool
  | .bool _ | .string _ | .number _ => true
  | _ => false

/-- What decodes to a scalar is that scalar, and what decodes to anything else is none. -/
theorem Yaml.Node.scalar?_of_json {n : Node} {value : Json} (h : Decode.json n.toSource = .ok value) :
    n.scalar? = if value.isScalar then some value else none := by
  cases n with
  | sequence items =>
    rw [toSource, Decode.json] at h
    obtain ⟨values, -, h⟩ := Except.bind_ok h
    rw [Decode.endOf_ok h]
    rfl
  | mapping entries =>
    rw [toSource, Decode.json] at h
    obtain ⟨table, -, h⟩ := Except.bind_ok h
    rw [Decode.endOf_ok h]
    rfl
  | tagged tag content =>
    rw [toSource, Decode.json] at h
    cases h
  | _ =>
    rw [toSource, Decode.json] at h
    cases h
    rfl

theorem Policy.isField_defaults :
    (layout .yaml).IsField "defaults" (·.defaults) (Decode.keyed .yaml Decode.json) where
  mem := by decide
  put := by
    intro policy source policy' h
    obtain ⟨defaults, hdefaults, h⟩ := Except.bind_ok h
    cases h
    exact hdefaults
  other := by
    intro policy name source policy' hne h
    simp only [layout] at h
    split at h
    · obtain ⟨targets, -, h⟩ := Except.bind_ok h
      cases h
      rfl
    · exact absurd rfl hne
    · cases h
      rfl

theorem EntrySpec.isField_policy :
    (layout .yaml).IsField "policy" (·.policy) (Policy.decode .yaml) where
  mem := by decide
  put := by
    intro spec source spec' h
    obtain ⟨policy, hpolicy, h⟩ := Except.bind_ok h
    cases h
    exact hpolicy
  other := by
    intro spec name source spec' hne h
    simp only [layout] at h
    split at h
    · obtain ⟨name, -, h⟩ := Except.bind_ok h
      cases h
      rfl
    · obtain ⟨selector, -, h⟩ := Except.bind_ok h
      cases h
      rfl
    · exact absurd rfl hne
    · cases h
      rfl

namespace Manifest

variable {entry : Node} {spec : EntrySpec} {id : String}

/-- The defaults as they stand in an entry. -/
def writtenDefaults (entry : Node) : Entries :=
  ((Node.named "policy" entry.members).flatMap fun policy =>
    Node.named "defaults" policy.2.members).flatMap (·.2.members)

/-- The defaults that are checked. -/
def checkedDefaults (entry : Node) : Entries :=
  (((entry.member? "policy").bind (·.member? "defaults")).bind (·.entries?)).getD []

/-- Neither the key of the policy nor that of its defaults carries a tag. -/
def isDirect (entry : Node) : Bool :=
  (Node.named "policy" entry.members).all fun policy =>
    !policy.1.isTagged && (Node.named "defaults" policy.2.members).all (!·.1.isTagged)

theorem defaultIssues_eq_nil_iff :
    defaultIssues id entry = [] ↔
      ∀ member ∈ checkedDefaults entry, member.2.scalar?.isSome = true := by
  rw [defaultIssues, checkedDefaults]
  cases ((entry.member? "policy").bind (·.member? "defaults")).bind (·.entries?) with
  | none => simp
  | some defaults =>
    rw [List.filterMap_eq_nil_iff, Option.getD_some]
    refine forall₂_congr fun member _ => ?_
    dsimp only
    cases member.2.scalar? <;> simp

/-- The check sees the defaults that are used, or none. -/
theorem checkedDefaults_eq (h : EntrySpec.decode entry = .ok spec) :
    checkedDefaults entry = if isDirect entry then writtenDefaults entry else [] := by
  rw [checkedDefaults, isDirect, writtenDefaults]
  rcases part_of_decode EntrySpec.isField_policy h with ⟨hpolicy, -⟩ | ⟨policy, hpolicy, hread⟩
  · rw [Node.member?_of_named_nil hpolicy, hpolicy]
    rfl
  rw [Node.member?_of_named hpolicy, hpolicy, List.all_cons, List.all_nil, Bool.and_true,
    List.flatMap_singleton]
  cases policy.1.isTagged with
  | true => rfl
  | false =>
    rw [if_neg Bool.false_ne_true, Option.bind_some, Bool.not_false, Bool.true_and]
    rcases part_of_decode Policy.isField_defaults hread with
      ⟨hdefaults, -⟩ | ⟨defaults, hdefaults, -⟩
    · rw [Node.member?_of_named_nil hdefaults, hdefaults]
      rfl
    rw [Node.member?_of_named hdefaults, hdefaults, List.all_cons, List.all_nil, Bool.and_true,
      List.flatMap_singleton]
    cases defaults.1.isTagged with
    | true => rfl
    | false => rfl

/-- The defaults are those that are written, the last one under each key. -/
structure Keeps (written : Entries) (defaults : Keyed Json) : Prop where
  keys : ∀ key, key ∈ defaults.keys ↔ ∃ member ∈ written, member.1.text? = some key
  /-- A default is what is written if that is a scalar, and otherwise what JSON has for it. -/
  values : ∀ key value, defaults.find? key = some value → ∃ member,
    (Node.named key written).getLast? = some member ∧ Decode.json member.2.toSource = .ok value ∧
      member.2.scalar? = if value.isScalar then some value else none

theorem keeps_of_find? {written : Entries} {defaults : Keyed Json}
    (h : ∀ key, (defaults.find? key).map Except.ok =
      (Node.named key written).getLast?.map fun member => Decode.json member.2.toSource) :
    Keeps written defaults := by
  constructor
  · intro key
    have hsome := congrArg Option.isSome (h key)
    rw [Option.isSome_map, Option.isSome_map] at hsome
    rw [← Keyed.find?_isSome_iff, hsome, List.getLast?_isSome, ne_eq,
      List.eq_nil_iff_forall_not_mem, not_forall_not]
    exact exists_congr fun member => Node.mem_named_iff
  · intro key value hvalue
    have hmember := h key
    rw [hvalue, Option.map_some] at hmember
    obtain ⟨member, hlast, hjson⟩ := Option.map_eq_some_iff.mp hmember.symm
    exact ⟨member, hlast, hjson, Node.scalar?_of_json hjson⟩

theorem keeps_of_decode (h : EntrySpec.decode entry = .ok spec) :
    Keeps (writtenDefaults entry) spec.policy.defaults := by
  have hblank : Keeps [] [] := keeps_of_find? fun _ => rfl
  rw [writtenDefaults]
  rcases part_of_decode EntrySpec.isField_policy h with ⟨hpolicy, hspec⟩ | ⟨policy, hpolicy, hread⟩
  · rw [hpolicy, hspec]
    exact hblank
  rw [hpolicy, List.flatMap_singleton]
  rcases part_of_decode Policy.isField_defaults hread with
    ⟨hdefaults, hblankDefaults⟩ | ⟨defaults, hdefaults, hkeyed⟩
  · rw [hdefaults, hblankDefaults]
    exact hblank
  rw [hdefaults, List.flatMap_singleton]
  exact keeps_of_find? (Decode.find?_of_keyed hkeyed)

/-- Every agent of an accepted manifest has the defaults that stand in its entry. They are scalars if
neither of the keys that lead to them is tagged; otherwise nothing is ever said against them. -/
theorem parse_keeps_defaults {path : Path} {text : String} {manifest : Manifest} {agent : Agent}
    (h : parse path text = .ok manifest) (hagent : agent ∈ manifest.agents) :
    ∃ root entries entry, Node.parse text = .ok root ∧ agentTable root = some entries ∧
      entry ∈ entries ∧ Declares entry agent ∧
      Keeps (writtenDefaults entry.2) agent.policy.defaults ∧
      (isDirect entry.2 = true →
        ∀ key value, agent.policy.defaults.find? key = some value → value.isScalar = true) ∧
      (isDirect entry.2 = false → ∀ id, defaultIssues id entry.2 = []) := by
  rw [parse] at h
  cases hparse : Node.parse text with
  | error e =>
    rw [hparse] at h
    cases h
  | ok root =>
    rw [hparse] at h
    obtain ⟨entries, entry, htable, hentry, htext, hcheck⟩ := exists_entry_of_ofNode h hagent
    obtain ⟨spec, hspec, -, hnone, hdeclared⟩ := checkEntry_ok hcheck
    have hpolicy : agent.policy = spec.policy := by rw [hdeclared]
    have hkeeps := keeps_of_decode hspec
    have hchecked := checkedDefaults_eq hspec
    rw [← hpolicy] at hkeeps
    have hdeclares := declares_of_checkEntry htext hcheck
    refine ⟨root, entries, entry, rfl, htable, hentry, hdeclares, hkeeps, ?_, ?_⟩
    · intro hdirect key value hvalue
      obtain ⟨member, hlast, -, hscalar⟩ := hkeeps.values key value hvalue
      have hmember := (Node.mem_named_iff.mp (List.mem_of_getLast? hlast)).1
      rw [hdirect, if_pos rfl] at hchecked
      rw [specIssues, List.append_eq_nil_iff, defaultIssues_eq_nil_iff, hchecked] at hnone
      have hsome := hnone.2 member hmember
      rw [hscalar] at hsome
      by_contra hother
      rw [if_neg hother] at hsome
      cases hsome
    · intro hindirect id
      rw [hindirect, if_neg Bool.false_ne_true] at hchecked
      rw [defaultIssues_eq_nil_iff, hchecked]
      exact List.forall_mem_nil _

/-- Defaults that no check finds, since the key of the policy carries a tag. -/
def hidden : String :=
  "a:\n  name: A\n  rule_selector:\n    scopes: [c]\n  !x policy:\n    targets: [\"*\"]\n" ++
  "    defaults:\n      nested: [true]\n      nothing: null\n      ratio: .nan\n"

theorem parse_keeps_defaults_hidden :
    ∃ manifest agent, parse ⟨"agents.yaml"⟩ hidden = .ok manifest ∧ agent ∈ manifest.agents ∧
      agent.policy.defaults =
        [("nested", .array [.bool true]), ("nothing", .null), ("ratio", .null)] ∧
      ∃ root entries entry, Node.parse hidden = .ok root ∧ agentTable root = some entries ∧
        entry ∈ entries ∧ Declares entry agent ∧ isDirect entry.2 = false := by
  have hdefaults : (parse ⟨"agents.yaml"⟩ hidden).toOption.map (·.agents.map (·.policy.defaults)) =
      some [[("nested", .array [.bool true]), ("nothing", .null), ("ratio", .null)]] := by
    decide +kernel
  obtain ⟨manifest, hmanifest, hagents⟩ := Option.map_eq_some_iff.mp hdefaults
  obtain ⟨agent, hagent, hdefaults⟩ :=
    List.mem_map.mp (hagents ▸ List.mem_cons_self : _ ∈ manifest.agents.map (·.policy.defaults))
  have hparse := Except.toOption_eq_some_iff.mp hmanifest
  obtain ⟨root, entries, entry, hroot, htable, hentry, hdeclares, -, hscalars, -⟩ :=
    parse_keeps_defaults hparse hagent
  refine ⟨manifest, agent, hparse, hagent, hdefaults, root, entries, entry, hroot, htable, hentry,
    hdeclares, ?_⟩
  rw [← Bool.not_eq_true]
  intro hdirect
  have hnull := hscalars hdirect "nothing" .null (by rw [hdefaults]; rfl)
  cases hnull

end Manifest

end Rulebook
