import Rulebook.Card.Text
import Rulebook.Proofs.Decode.Record

/-!
# Cards from their JSON form

A card whose tables are in order is decoded from its own JSON form, which is no deeper than its lists
of lists unless the defaults are.
-/

namespace Rulebook

set_option autoImplicit false

open Decode

namespace Card

/-- The tables of a card are in order. -/
structure IsOrdered (card : Card) : Prop where
  detect : card.detect.Rising
  refs : card.refs.Rising
  defaults : card.defaults.Rising
  values : ∀ entry ∈ card.defaults, entry.2.IsOrdered

theorem list_textsJson (dialect : Dialect) (texts : List String) :
    list dialect text (.ofJson (textsJson texts)) = .ok texts :=
  list_ofJson dialect fun _ _ => rfl

theorem keyed_listsJson (dialect : Dialect) {table : Keyed (List String)} (h : table.Rising) :
    keyed dialect (list dialect text) (.ofJson (listsJson table)) = .ok table :=
  keyed_ofJson dialect h fun entry _ => list_textsJson dialect entry.2

theorem keyed_json (dialect : Dialect) {table : Keyed Json} (h : table.Rising)
    (hvalues : ∀ entry ∈ table, entry.2.IsOrdered) :
    keyed dialect json (.ofJson (.object table)) = .ok table := by
  have hsame : table.mapValues (fun v => v) = table := List.map_id table
  have hkeyed : keyed dialect json (.ofJson (.object (table.mapValues fun v => v))) = .ok table :=
    keyed_ofJson dialect h fun entry hentry => json_ofJson entry.2 (hvalues entry hentry)
  rwa [hsame] at hkeyed

theorem alternative_severity (dialect : Dialect) (severity : Severity) :
    alternative dialect Severity.names Severity.parse (.ofJson (.string severity.name)) =
      .ok severity := by
  simp only [alternative, Source.ofJson, Source.bare, Severity.parse_name]

theorem decode_verify (dialect : Dialect) (tests : List String) :
    (verifyLayout dialect).decode dialect (.ofJson (.object [("tests", textsJson tests)])) =
      .ok tests := by
  have hput : (verifyLayout dialect).put [] "tests" (.ofJson (textsJson tests)) = .ok tests :=
    list_textsJson dialect tests
  refine Layout.decode_object (by simp [verifyLayout, verifyFields]) (List.Sublist.refl _)
    (fun name hname => .inl hname) ?_
  rw [List.foldlM_cons]
  exact congrArg (· >>= pure) hput

theorem decode_toJson (dialect : Dialect) {card : Card} (h : card.IsOrdered) :
    decode dialect (.ofJson card.toJson) = .ok card := by
  have hnames : (if card.disabled then [("disabled", Json.bool true)] else []).map (·.1) =
      if card.disabled then ["disabled"] else [] := by split <;> rfl
  have hdefaults : (if card.defaults.isEmpty then []
      else [("defaults", Json.object card.defaults)]).map (·.1) =
      if card.defaults.isEmpty then [] else ["defaults"] := by split <;> rfl
  rw [decode, toJson]
  refine Layout.decode_object ?_ ?_ ?_ ?_
  · simp only [layout]
    decide
  · simp only [layout, List.map_append, List.map_cons, List.map_nil, hnames, hdefaults]
    cases card.disabled <;> cases card.defaults.isEmpty <;> decide
  · simp only [layout, List.map_append, List.map_cons, List.map_nil, hnames, hdefaults]
    cases card.disabled <;> cases card.defaults.isEmpty <;> decide
  · have hfields : (List.foldlM (fun value member =>
        (layout dialect).put value member.1 (.ofJson member.2)) default [
          ("id", .string card.id), ("title", .string card.title),
          ("severity", .string card.severity.name), ("scope", .string card.scope),
          ("requirement", .string card.requirement), ("do", textsJson card.dos),
          ("dont", textsJson card.donts), ("detect", listsJson card.detect),
          ("verify", .object [("tests", textsJson card.tests)]), ("refs", listsJson card.refs)]) =
        .ok { card with disabled := false, defaults := [] } := by
      simp only [List.foldlM_cons, List.foldlM_nil, layout, list_textsJson,
        keyed_listsJson _ h.detect, keyed_listsJson _ h.refs, alternative_severity, decode_verify,
        text_ofJson, bind, Except.bind, pure, Except.pure]
      rfl
    have hjson := keyed_json dialect h.defaults h.values
    rw [List.foldlM_append, List.foldlM_append]
    change ((List.foldlM _ default _ >>= _) >>= _) = _
    rw [hfields]
    obtain ⟨id, title, severity, scope, requirement, dos, donts, detect, tests, refs, disabled,
      defaults⟩ := card
    cases disabled <;> cases defaults <;>
      simp only [layout, List.foldlM_cons, List.foldlM_nil, flag_ofJson, hjson, bind, Except.bind,
        pure, Except.pure, List.isEmpty_nil, List.isEmpty_cons, if_true, if_false,
        Bool.false_eq_true]

/-! ## Shape -/

@[simp] theorem isIntegral_textsJson (texts : List String) : (textsJson texts).isIntegral = true := by
  rw [textsJson, Json.isIntegral, Json.areIntegral_iff]
  intro v hv
  obtain ⟨s, _, rfl⟩ := List.mem_map.mp hv
  rfl

@[simp] theorem isIntegral_listsJson (table : Keyed (List String)) :
    (listsJson table).isIntegral = true := by
  rw [listsJson, Json.isIntegral, Json.membersIntegral_iff]
  intro member hmember
  obtain ⟨entry, _, rfl⟩ := List.mem_map.mp hmember
  exact isIntegral_textsJson entry.2

theorem depth_textsJson (texts : List String) : (textsJson texts).depth ≤ 1 := by
  rw [textsJson, Json.depth, Nat.succ_le_succ_iff, Json.depthItems_le_iff]
  intro v hv
  obtain ⟨s, _, rfl⟩ := List.mem_map.mp hv
  exact Nat.le_refl 0

theorem depth_listsJson (table : Keyed (List String)) : (listsJson table).depth ≤ 2 := by
  rw [listsJson, Json.depth, Nat.succ_le_succ_iff, Json.depthMembers_le_iff]
  intro member hmember
  obtain ⟨entry, _, rfl⟩ := List.mem_map.mp hmember
  exact depth_textsJson entry.2

theorem isIntegral_toJson {card : Card} (h : Json.membersIntegral card.defaults = true) :
    card.toJson.isIntegral = true := by
  rw [toJson, Json.isIntegral, Json.membersIntegral_append, Json.membersIntegral_append]
  cases card.disabled <;> cases card.defaults.isEmpty <;>
    simp [Json.membersIntegral, Json.isIntegral, h]

theorem depth_toJson {card : Card} {n : Nat} (h : Json.depthMembers card.defaults ≤ n) :
    card.toJson.depth ≤ max 3 (n + 2) := by
  have hdos := depth_textsJson card.dos
  have hdonts := depth_textsJson card.donts
  have htests := depth_textsJson card.tests
  have hdetect := depth_listsJson card.detect
  have hrefs := depth_listsJson card.refs
  rw [toJson, Json.depth, Json.depthMembers_append, Json.depthMembers_append]
  cases card.disabled <;> cases card.defaults.isEmpty <;>
    simp [Json.depthMembers, Json.depth] <;> omega

end Card

end Rulebook
