import Mathlib.Data.List.Induction
import Rulebook.Proofs.Decode.Shape
import Rulebook.Proofs.Yaml.Tree

/-!
# Where decoded values come from

A decoder finds the members of a mapping by the texts of their keys, whether or not these carry tags. A
field of a record is read from the only member of its name, and a table has under each key what is written
last under it.
-/

namespace Rulebook

set_option autoImplicit false

open Yaml (Node)

namespace Yaml.Node

/-- The entries of a mapping, and none of any other value. -/
def members (n : Node) : List (Node × Node) := n.entries?.getD []

/-- The entries whose key has that text, tagged or not. -/
def named (name : String) (entries : List (Node × Node)) : List (Node × Node) :=
  entries.filter (·.1.text? == some name)

variable {n : Node} {name : String} {entry : Node × Node} {entries : List (Node × Node)}

theorem mem_named_iff : entry ∈ named name entries ↔ entry ∈ entries ∧ entry.1.text? = some name := by
  rw [named, List.mem_filter, beq_iff_eq]

theorem named_cons (hname : entry.1.text? = some name) :
    named name (entry :: entries) = entry :: named name entries :=
  List.filter_cons_of_pos (by rw [hname, beq_self_eq_true])

theorem named_cons_of_ne (hname : entry.1.text? ≠ some name) :
    named name (entry :: entries) = named name entries :=
  List.filter_cons_of_neg (by rw [beq_iff_eq]; exact hname)

/-- A look-up sees the entries of its name only. -/
theorem valueOf?_named (name : String) (entries : List (Node × Node)) :
    valueOf? name (named name entries) = valueOf? name entries := by
  induction entries with
  | nil => rfl
  | cons entry rest ih =>
    obtain ⟨k, value⟩ := entry
    by_cases hname : k.text? = some name
    · rw [named_cons hname]
      cases k with
      | string s =>
        rw [valueOf?, valueOf?, ih]
      | _ => exact ih
    · rw [named_cons_of_ne hname, ih]
      cases k with
      | string s =>
        have hne : s ≠ name := fun heq => hname (by rw [heq]; rfl)
        rw [valueOf?, if_neg hne]
      | _ => rfl

theorem member?_eq (n : Node) (name : String) :
    n.member? name = valueOf? name (named name n.members) := by
  rw [valueOf?_named, member?, members]
  cases n.entries? <;> rfl

theorem member?_of_named_nil (h : named name n.members = []) : n.member? name = none := by
  rw [member?_eq, h, valueOf?]

/-- The only entry of a name is found if its key carries no tag. -/
theorem member?_of_named (h : named name n.members = [entry]) :
    n.member? name = if entry.1.isTagged then none else some entry.2 := by
  obtain ⟨key, value⟩ := entry
  have htext : key.text? = some name := (mem_named_iff.mp (h ▸ List.mem_cons_self)).2
  rw [member?_eq, h]
  cases htagged : key.isTagged with
  | false => rw [eq_string_of_text? htext htagged, valueOf?, if_pos rfl, if_neg Bool.false_ne_true]
  | true =>
    cases key with
    | tagged tag content => rfl
    | _ => cases htagged

theorem bare_toSource (n : Node) : n.toSource.bare = n.bare.toSource := by
  fun_induction bare n with
  | case1 tag content ih => rw [toSource, Source.bare, ih]
  | case2 n hother =>
    cases n with
    | tagged tag content => exact absurd rfl (hother tag content)
    | _ => rfl

theorem text_toSource_iff : Decode.text n.toSource = .ok name ↔ n.text? = some name := by
  rw [Decode.text, bare_toSource, text?]
  cases hbare : n.bare with
  | tagged tag content => simp [toSource]
  | _ => simp [toSource]

theorem entrySources_eq (entries : List (Node × Node)) :
    entrySources entries = entries.map fun entry => (entry.1.toSource, entry.2.toSource) := by
  induction entries with
  | nil => rfl
  | cons entry rest ih => rw [entrySources, ih, List.map_cons]

end Yaml.Node

namespace Decode

variable {α β : Type} {n : Node} {name : String} {entry : Node × Node} {entries : List (Node × Node)}

/-! ## Fields of records -/

namespace Layout

/-- The part of a record that a decoder reads from the field of that name. -/
structure IsField (layout : Layout α) (name : String) (part : α → β) (d : Decoder β) : Prop where
  mem : name ∈ layout.fields
  put : ∀ value source value', layout.put value name source = .ok value' → d source = .ok (part value')
  other : ∀ value other source value', other ≠ name → layout.put value other source = .ok value' →
    part value' = part value

variable {layout : Layout α} {part : α → β} {d : Decoder β} {progress progress' : α × List String}
  {value : α}

/-- A member of this name is an error: its field has been read already, or it is no field. -/
def Refuses (layout : Layout α) (seen : List String) (name : String) : Prop :=
  name ∈ layout.fields ∧ name ∈ seen ∨ name ∉ layout.fields ∧ layout.strict = true

theorem named_of_refuses (hrefuses : layout.Refuses progress.2 name)
    (h : (Node.entrySources entries).foldlM layout.step progress = .ok progress') :
    Node.named name entries = [] := by
  induction entries generalizing progress with
  | nil => rfl
  | cons entry rest ih =>
    obtain ⟨key, value⟩ := entry
    rw [Node.entrySources, List.foldlM_cons] at h
    obtain ⟨next, hnext, h⟩ := Except.bind_ok h
    obtain ⟨other, htext, ⟨hfield, hnew, hseen, -⟩ | ⟨hnone, hloose, hskip⟩⟩ := step_cases hnext
    · have hne : other ≠ name := by
        rintro rfl
        exact hrefuses.elim (fun hold => hnew hold.2) fun hstrict => hstrict.1 hfield
      rw [Node.text_toSource_iff] at htext
      rw [Node.named_cons_of_ne fun heq => hne (Option.some.inj (htext.symm.trans heq))]
      refine ih (hrefuses.imp_left fun hold => ⟨hold.1, ?_⟩) h
      rw [hseen]
      exact List.mem_cons_of_mem _ hold.2
    · have hne : other ≠ name := by
        rintro rfl
        rcases hrefuses with ⟨hfield, -⟩ | ⟨-, hstrict⟩
        · exact hnone hfield
        · rw [hloose] at hstrict
          cases hstrict
      rw [Node.text_toSource_iff] at htext
      rw [Node.named_cons_of_ne fun heq => hne (Option.some.inj (htext.symm.trans heq))]
      rw [hskip] at h
      exact ih hrefuses h

/-- The field is as it was, or it is read from the only entry of its name. -/
theorem part_of_foldlM (hfield : layout.IsField name part d)
    (h : (Node.entrySources entries).foldlM layout.step progress = .ok progress') :
    (Node.named name entries = [] ∧ part progress'.1 = part progress.1) ∨
      ∃ entry, Node.named name entries = [entry] ∧ d entry.2.toSource = .ok (part progress'.1) := by
  induction entries generalizing progress with
  | nil =>
    cases h
    exact .inl ⟨rfl, rfl⟩
  | cons entry rest ih =>
    obtain ⟨key, value⟩ := entry
    rw [Node.entrySources, List.foldlM_cons] at h
    obtain ⟨next, hnext, h⟩ := Except.bind_ok h
    obtain ⟨other, htext, hread⟩ := step_cases hnext
    rw [Node.text_toSource_iff] at htext
    by_cases hother : other = name
    · subst hother
      rcases hread with ⟨-, -, hseen, hput⟩ | ⟨hnone, -⟩
      · have hrest := named_of_refuses (.inl ⟨hfield.mem, hseen ▸ List.mem_cons_self⟩) h
        rcases ih h with ⟨-, hpart⟩ | ⟨again, hagain, -⟩
        · rw [Node.named_cons htext, hrest, hpart]
          exact .inr ⟨_, rfl, hfield.put _ _ _ hput⟩
        · cases hrest.symm.trans hagain
      · exact absurd hfield.mem hnone
    · rw [Node.named_cons_of_ne fun heq => hother (Option.some.inj (htext.symm.trans heq))]
      have hpart : part next.1 = part progress.1 := by
        rcases hread with ⟨-, -, -, hput⟩ | ⟨-, -, rfl⟩
        · exact hfield.other _ _ _ _ hother hput
        · rfl
      rw [← hpart]
      exact ih h

/-- A record is decoded member by member. -/
theorem foldlM_of_decode (h : layout.decode .yaml n.toSource = .ok value) :
    ∃ seen, (Node.entrySources n.members).foldlM layout.step (layout.blank, []) = .ok (value, seen) := by
  have hmembers {sources : List (Source × Source)} (h : layout.ofMembers sources none = .ok value) :
      ∃ seen, sources.foldlM layout.step (layout.blank, []) = .ok (value, seen) := by
    rw [ofMembers] at h
    obtain ⟨progress, hfold, h⟩ := Except.bind_ok h
    obtain ⟨⟨last, seen⟩, hend, h⟩ := Except.bind_ok h
    rw [← endOf_ok hend] at hfold
    dsimp only at h
    split at h
    · cases h
    · cases h
      exact ⟨seen, hfold⟩
  rw [decode, Node.bare_toSource] at h
  rw [Node.members, Node.entries?]
  cases hbare : n.bare with
  | null | mapping =>
    rw [hbare] at h
    exact hmembers h
  | _ =>
    rw [hbare] at h
    cases h

/-- A field of a decoded record is blank, or it is read from the only member of its name. -/
theorem part_of_decode (hfield : layout.IsField name part d)
    (h : layout.decode .yaml n.toSource = .ok value) :
    (Node.named name n.members = [] ∧ part value = part layout.blank) ∨
      ∃ entry, Node.named name n.members = [entry] ∧ d entry.2.toSource = .ok (part value) := by
  obtain ⟨seen, hfold⟩ := foldlM_of_decode h
  exact part_of_foldlM hfield hfold

/-- A strict record has no members but its fields. -/
theorem named_of_strict (hstrict : layout.strict = true) (hname : name ∉ layout.fields)
    (h : layout.decode .yaml n.toSource = .ok value) : Node.named name n.members = [] := by
  obtain ⟨seen, hfold⟩ := foldlM_of_decode h
  exact named_of_refuses (.inr ⟨hname, hstrict⟩) hfold

end Layout

/-! ## Tables -/

/-- A table has under each key what is read from the last entry of that name. -/
theorem find?_of_foldlM {item : Decoder α} {table : Keyed α}
    (h : (Node.entrySources entries).foldlM (keyedMember item) [] = .ok table) (key : String) :
    (table.find? key).map Except.ok =
      (Node.named key entries).getLast?.map fun entry => item entry.2.toSource := by
  -- from the end, since each member replaces those before it
  induction entries using List.reverseRecOn generalizing table with
  | nil =>
    cases h
    rfl
  | append_singleton entries entry ih =>
    rw [Node.entrySources_eq, List.map_append, ← Node.entrySources_eq, List.foldlM_append] at h
    obtain ⟨start, hstart, h⟩ := Except.bind_ok h
    obtain ⟨last, hlast, h⟩ := Except.bind_ok h
    cases h
    obtain ⟨name, hname, hlast⟩ := Except.bind_ok hlast
    obtain ⟨value, hvalue, hlast⟩ := Except.bind_ok hlast
    cases hlast
    rw [Node.text_toSource_iff] at hname
    rw [Keyed.find?_insert, Node.named, List.filter_append, ← Node.named]
    by_cases hkey : name = key
    · simp [hname, hkey, inside_ok hvalue]
    · simp [hname, hkey, ih hstart]

theorem find?_of_keyed {item : Decoder α} {table : Keyed α}
    (h : keyed .yaml item n.toSource = .ok table) (key : String) :
    (table.find? key).map Except.ok =
      (Node.named key n.members).getLast?.map fun entry => item entry.2.toSource := by
  rw [keyed, Node.bare_toSource] at h
  rw [Node.members, Node.entries?]
  cases hbare : n.bare with
  | null =>
    rw [hbare] at h
    cases h
    rfl
  | mapping entries =>
    rw [hbare] at h
    obtain ⟨table', hfold, h⟩ := Except.bind_ok h
    rw [endOf_ok h]
    exact find?_of_foldlM hfold key
  | _ =>
    rw [hbare] at h
    cases h

end Decode

end Rulebook
