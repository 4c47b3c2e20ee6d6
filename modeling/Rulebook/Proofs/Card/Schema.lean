import Rulebook.Proofs.Card.Checks
import Rulebook.Proofs.Card.Text

/-!
# Cards that pass the schema

The tables of a card that was read are in order, and its defaults are scalars.
-/

namespace Rulebook

set_option autoImplicit false

open Yaml (Node)

/-- A scalar is stored as it is. -/
theorem Yaml.Node.scalar?_flat {n : Node} {v : Json} (h : n.scalar? = some v) :
    v.IsOrdered ∧ v.depth = 0 := by
  cases n <;> cases h <;> exact ⟨trivial, rfl⟩

namespace Card

variable {entries : Entries} {key : String}

/-- The tables are in order, and the defaults are scalars. -/
structure IsFlat (card : Card) : Prop extends card.IsOrdered where
  flat : ∀ entry ∈ card.defaults, entry.2.depth = 0

theorem rising_of_hasLists {table : Keyed (List String)}
    (h : FieldMayHave entries key (table = []) (HasLists · table)) : table.Rising := by
  rw [FieldMayHave] at h
  split at h
  · rw [h]
    exact .nil
  · obtain ⟨_, pairs, -, -, -, rfl⟩ := h
    exact Keyed.rising_ofList pairs

/-- Defaults as they are stored. -/
def FlatTable (table : Keyed Json) : Prop :=
  table.Rising ∧ ∀ entry ∈ table, entry.2.IsOrdered ∧ entry.2.depth = 0

theorem flatTable_of_hasDefaults {table : Keyed Json}
    (h : FieldMayHave entries key (table = []) (HasDefaults · table)) : FlatTable table := by
  rw [FieldMayHave] at h
  split at h
  · rw [h]
    exact ⟨.nil, fun _ hmem => absurd hmem List.not_mem_nil⟩
  · obtain ⟨defaults, pairs, -, hpairs, rfl⟩ := h
    refine ⟨Keyed.rising_ofList pairs, fun entry hentry => ?_⟩
    obtain ⟨source, -, hsource⟩ := exists_of_mem_right hpairs (Keyed.mem_of_mem_ofList hentry)
    exact Node.scalar?_flat hsource.2.2

theorem HasFields.isFlat {card : Card} (h : HasFields entries card) : card.IsFlat := by
  obtain ⟨hdefaults, hvalues⟩ := flatTable_of_hasDefaults h.defaults
  exact ⟨⟨rising_of_hasLists h.detect, rising_of_hasLists h.refs, hdefaults,
    fun entry hentry => (hvalues entry hentry).1⟩, fun entry hentry => (hvalues entry hentry).2⟩

theorem ofYaml_flat {text : String} {card : Card} (h : ofYaml text = .ok card) : card.IsFlat := by
  rw [ofYaml] at h
  split at h
  · obtain ⟨entries, -, -, hfields⟩ := validate_eq_ok_iff.mp h
    exact hfields.isFlat
  · cases h

end Card

end Rulebook
