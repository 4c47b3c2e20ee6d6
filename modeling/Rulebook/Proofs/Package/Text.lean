import Rulebook.Package.Load
import Rulebook.Proofs.Card.Text
import Rulebook.Proofs.Json.Pretty

/-!
# Packages are read back from their text

A package whose tables are in order, whose defaults hold no doubles and do not lie too deep is read
back from its own bytes.
-/

namespace Rulebook

set_option autoImplicit false

open Decode

namespace Policy

/-- The defaults are in order. -/
structure IsOrdered (policy : Policy) : Prop where
  defaults : policy.defaults.Rising
  values : ∀ entry ∈ policy.defaults, entry.2.IsOrdered

theorem decode_toJson (dialect : Dialect) {policy : Policy} (h : policy.IsOrdered) :
    decode dialect (.ofJson policy.toJson) = .ok policy := by
  have hjson := Card.keyed_json dialect h.defaults h.values
  rw [decode, toJson]
  refine Layout.decode_object ?_ ?_ ?_ ?_
  · simp only [layout]
    decide
  · exact .refl _
  · exact fun name hname => .inl hname
  · simp only [List.foldlM_cons, List.foldlM_nil, layout, Card.list_textsJson, hjson, bind,
      Except.bind, pure, Except.pure]

end Policy

namespace Package

/-- The tables of a package are in order. -/
structure IsOrdered (p : Package) : Prop where
  policy : p.policy.IsOrdered
  cards : ∀ card ∈ p.rulesDetail, card.IsOrdered
  hooks : p.validationHooks.Rising

theorem decode_toJson (dialect : Dialect) {p : Package} (h : p.IsOrdered) :
    decode dialect (.ofJson p.toJson) = .ok p := by
  have hcards : list dialect (Card.decode dialect)
      (.ofJson (.array (p.rulesDetail.map Card.toJson))) = .ok p.rulesDetail :=
    list_ofJson dialect fun card hcard => Card.decode_toJson dialect (h.cards card hcard)
  rw [decode, toJson]
  refine Layout.decode_object ?_ ?_ ?_ ?_
  · simp only [layout]
    decide
  · exact .refl _
  · exact fun name hname => .inl hname
  · simp only [List.foldlM_cons, List.foldlM_nil, layout, text_ofJson,
      Policy.decode_toJson dialect h.policy, Card.list_textsJson, hcards,
      Card.keyed_listsJson dialect h.hooks, bind, Except.bind, pure, Except.pure]

/-! ## Shape -/

variable {p : Package}

theorem isIntegral_toJson (hpolicy : Json.membersIntegral p.policy.defaults = true)
    (hcards : ∀ card ∈ p.rulesDetail, Json.membersIntegral card.defaults = true) :
    p.toJson.isIntegral = true := by
  have hdetail : Json.areIntegral (p.rulesDetail.map Card.toJson) = true := by
    rw [Json.areIntegral_iff]
    intro v hv
    obtain ⟨card, hcard, rfl⟩ := List.mem_map.mp hv
    exact Card.isIntegral_toJson (hcards card hcard)
  simp [toJson, Policy.toJson, Json.membersIntegral, Json.isIntegral, hpolicy, hdetail]

/-- The defaults of the policy lie three containers down in a package, those of a card four. -/
theorem depth_toJson {n m : Nat} (hpolicy : Json.depthMembers p.policy.defaults ≤ n)
    (hcards : ∀ card ∈ p.rulesDetail, Json.depthMembers card.defaults ≤ m) :
    p.toJson.depth ≤ max 5 (max (n + 3) (m + 4)) := by
  have hdetail : Json.depthItems (p.rulesDetail.map Card.toJson) ≤ max 3 (m + 2) := by
    rw [Json.depthItems_le_iff]
    intro v hv
    obtain ⟨card, hcard, rfl⟩ := List.mem_map.mp hv
    exact Card.depth_toJson (hcards card hcard)
  have htargets := Card.depth_textsJson p.policy.targets
  have hrules := Card.depth_textsJson p.rules
  have hhooks := Card.depth_listsJson p.validationHooks
  simp [toJson, Policy.toJson, Json.depthMembers, Json.depth]
  omega

/-! ## Reading back -/

theorem parse_text (h : p.IsOrdered) (hintegral : p.toJson.isIntegral = true)
    (hdepth : p.toJson.depth ≤ Json.mostContainers) : parse p.text = .ok p := by
  rw [parse, text, Json.read_pretty hintegral hdepth]
  simp only [decode_toJson .jsonText h, endOf, bind, Except.bind]

theorem ofBytes_bytes : Text.ofBytes p.bytes = p.text := by
  have hvalid : p.text.toUTF8.IsValidUTF8 := p.text.isValidUTF8
  rw [Text.ofBytes, bytes, String.fromUTF8?, dif_pos hvalid]
  rfl

end Package

theorem Disk.loadPackage_of_read {d : Disk} {path : Path} {p : Package}
    (hread : d.read path = .ok p.bytes) (h : p.IsOrdered) (hintegral : p.toJson.isIntegral = true)
    (hdepth : p.toJson.depth ≤ Json.mostContainers) : d.loadPackage path = .ok p := by
  rw [Disk.loadPackage, hread]
  simp only [Package.ofBytes_bytes, Package.read, Package.parse_text h hintegral hdepth]

namespace Package

/-- A package is read back from its bytes, from any file that holds them. The defaults must hold no
doubles and must not lie deeper than the reader goes, which no text, truth value or number does. -/
theorem read_of_bytes {p : Package} (h : p.IsOrdered)
    (hpolicy : ∀ entry ∈ p.policy.defaults,
      entry.2.isIntegral = true ∧ entry.2.depth + 3 ≤ Json.mostContainers)
    (hcards : ∀ card ∈ p.rulesDetail, ∀ entry ∈ card.defaults,
      entry.2.isIntegral = true ∧ entry.2.depth + 4 ≤ Json.mostContainers) :
    read (Text.ofBytes p.bytes) = .ok p ∧
      ∀ (d : Disk) (path : Path), d.read path = .ok p.bytes → d.loadPackage path = .ok p := by
  have hintegral : p.toJson.isIntegral = true := by
    refine isIntegral_toJson ?_ fun card hcard => ?_
    · exact Json.membersIntegral_iff.mpr fun entry hentry => (hpolicy entry hentry).1
    · exact Json.membersIntegral_iff.mpr fun entry hentry => (hcards card hcard entry hentry).1
  have hdepth : p.toJson.depth ≤ Json.mostContainers := by
    refine Nat.le_trans (depth_toJson (n := Json.mostContainers - 3) (m := Json.mostContainers - 4)
      ?_ fun card hcard => ?_) (by decide)
    · exact Json.depthMembers_le_iff.mpr fun entry hentry => by
        have := (hpolicy entry hentry).2
        omega
    · exact Json.depthMembers_le_iff.mpr fun entry hentry => by
        have := (hcards card hcard entry hentry).2
        omega
  refine ⟨?_, fun d path hread => Disk.loadPackage_of_read hread h hintegral hdepth⟩
  rw [read, ofBytes_bytes, parse_text h hintegral hdepth]

/-- Defaults with the ends of the whole numbers. -/
def extremeDefaults : Keyed Json :=
  [("", .string "\u001f"), ("\"", .bool false),
    ("max", .number (.whole ⟨0xffffffffffffffff, by decide, by decide⟩)),
    ("min", .number (.whole ⟨-0x8000000000000000, by decide, by decide⟩))]

/-- A package with empty texts and lists, escapes, and two disabled cards, one with defaults. -/
def extremes : Package :=
  let card : Card := ⟨"", "\x00\"\\", .critical, "é\n", "\u2028", [], [""], [], [],
    [("", []), ("\t", ["", ""])], true, []⟩
  ⟨"🔑", "", "1.0", "", "", "/", ⟨[], extremeDefaults⟩, [],
    [card, { card with defaults := extremeDefaults }], [("x", []), ("y", ["\r"])]⟩

theorem read_of_bytes_extremes :
    extremes.IsOrdered ∧ read (Text.ofBytes extremes.bytes) = .ok extremes := by
  have hdefaults : ∀ entry ∈ extremeDefaults, entry.2.IsOrdered := fun entry hentry =>
    Json.isOrdered_of_depth ((by decide : ∀ entry ∈ extremeDefaults, entry.2.depth = 0) entry hentry)
  have hcards : ∀ card ∈ extremes.rulesDetail, card.detect.Rising ∧ card.refs.Rising ∧
      card.defaults.Rising ∧ ∀ entry ∈ card.defaults, entry ∈ extremeDefaults := by decide
  have hordered : extremes.IsOrdered := by
    refine ⟨⟨by decide, hdefaults⟩, fun card hcard => ?_, by decide⟩
    obtain ⟨hdetect, hrefs, hrising, hmem⟩ := hcards card hcard
    exact ⟨hdetect, hrefs, hrising, fun entry hentry => hdefaults entry (hmem entry hentry)⟩
  exact ⟨hordered, (read_of_bytes hordered (by decide) (by decide)).1⟩

end Package

end Rulebook
