import Rulebook.Proofs.Decode.Origin
import Rulebook.Proofs.Text.Printed

/-!
# Wording of YAML errors

The message about a YAML text that cannot be read is on one line, unless it repeats the keys that lead to
a mapping with a key that it has already.
-/

namespace Rulebook.Yaml

set_option autoImplicit false

open Text (IsLine IsComposed isLine_append)

/-- One of the keys of the value has this text. -/
def Node.HasKey (n : Node) (name : String) : Prop := ∃ entry ∈ n.members, entry.1.text? = some name

/-- The keys on the way to a place. -/
def Place.keys : Place → List String
  | .root => []
  | .member parent key => parent.keys ++ [key]
  | .item parent _ | .unnamed parent => parent.keys

/-- The texts that the message about an error repeats as they stand. -/
def Error.Echoes : Error → String → Prop
  | .duplicateKey place _, s => s ∈ place.keys
  | _, _ => False

theorem Place.isComposed_text (place : Place) : IsComposed (· ∈ place.keys) place.text := by
  have hkey (parent : Place) (key : String) : IsComposed (· ∈ parent.keys ++ [key]) key :=
    .part (List.mem_append_right _ (List.mem_singleton_self key))
  induction place with
  | root => exact .wording (by decide)
  | member parent key ih =>
    cases parent with
    -- a key at the top is shown alone, with no dot in front
    | root => exact hkey .root key
    | member | item | unnamed =>
      exact .append (.append (ih.mono fun _ h => List.mem_append_left _ h) (.wording (by decide))) (hkey _ key)
  | item parent index ih =>
    exact .append (.append (.append ih (.wording (by decide))) (.wording (isLine_toString_nat index)))
      (.wording (by decide))
  | unnamed parent ih =>
    cases parent with
    | root => exact .wording (by decide)
    | member | item | unnamed => exact .append ih (.wording (by decide))

theorem isLine_keyText (key : Node) : IsLine (keyText key) := by
  cases key with
  | null | notANumber => decide
  | sequence | mapping | tagged =>
    show IsLine "in YAML map"
    decide
  | bool negative | infinity negative => cases negative <;> decide
  | number n =>
    cases n with
    | whole n => exact isLine_append.mpr ⟨by decide, isLine_toString_int n.val⟩
    | real d => exact isLine_append.mpr ⟨by decide, RealStyle.isLine_render d⟩
  | string s => exact isLine_append.mpr ⟨by decide, Text.isLine_quoted s⟩

theorem Error.isComposed_message (e : Error) : IsComposed e.Echoes e.message := by
  cases e with
  | malformed | severalDocuments => exact .wording (by decide)
  | duplicateKey place key =>
    refine .append (.append ?_ (.wording (by decide))) (.wording (isLine_keyText key))
    cases place with
    | root => exact .wording (by decide)
    | member | item | unnamed => exact .append (Place.isComposed_text _) (.wording (by decide))

/-- The texts that an error about a text repeats as they stand, for values that have texts of this kind. -/
def TextEchoes (echoes : Node → String → Prop) (text s : String) : Prop :=
  match Node.parse text with
  | .ok root => echoes root s
  | .error e => e.Echoes s

variable {echoes : Node → String → Prop} {text : String}

theorem textEchoes_of_ok {root : Node} (h : Node.parse text = .ok root) :
    TextEchoes echoes text = echoes root := by
  funext s
  rw [TextEchoes, h]

theorem textEchoes_of_error {e : Error} (h : Node.parse text = .error e) :
    TextEchoes echoes text = e.Echoes := by
  funext s
  rw [TextEchoes, h]

end Rulebook.Yaml
