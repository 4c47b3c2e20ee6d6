import Mathlib.Data.List.Basic
import Rulebook.Report.Basic

/-!
# Lines of a text

A text is cut into lines at its line breaks, and it is a line of its own exactly if it has none. Where a
text is put together from fixed wording and from texts that are repeated as they stand, it has a line
break exactly if one of the repeated texts in it has one.
-/

namespace Rulebook.Text

set_option autoImplicit false

/-- The text has no line break. -/
def IsLine (s : String) : Prop := '\n' ∉ s.toList

instance (s : String) : Decidable (IsLine s) := inferInstanceAs (Decidable ('\n' ∉ s.toList))

/-- What stands between the line breaks of a text. -/
def lines (s : String) : List String := (s.toList.splitOn '\n').map String.ofList

variable {s t : String}

@[simp] theorem isLine_append : IsLine (s ++ t) ↔ IsLine s ∧ IsLine t := by
  simp [IsLine, not_or]

theorem IsLine.append (hs : IsLine s) (ht : IsLine t) : IsLine (s ++ t) := isLine_append.mpr ⟨hs, ht⟩

theorem isLine_ofList {cs : List Char} : IsLine (.ofList cs) ↔ '\n' ∉ cs := by
  rw [IsLine, String.toList_ofList]

theorem IsLine.of_isInfix (ht : IsLine t) (h : s.toList <:+: t.toList) : IsLine s :=
  fun hmem => ht (h.subset hmem)

theorem IsLine.intercalate {separator : String} {parts : List String} (hseparator : IsLine separator)
    (hparts : ∀ part ∈ parts, IsLine part) : IsLine (separator.intercalate parts) := by
  induction parts with
  | nil => exact List.not_mem_nil
  | cons part rest ih =>
    obtain ⟨hpart, hrest⟩ := List.forall_mem_cons.mp hparts
    cases rest with
    | nil => rwa [String.intercalate_singleton]
    | cons next others =>
      rw [String.intercalate_cons_cons, isLine_append, isLine_append]
      exact ⟨⟨hpart, hseparator⟩, ih hrest⟩

/-! ## Cutting texts -/

theorem not_mem_of_mem_splitOn {a : Char} {cs piece : List Char} (h : piece ∈ cs.splitOn a) :
    a ∉ piece := by
  induction cs generalizing piece with
  | nil =>
    rw [List.splitOn_nil, List.mem_singleton] at h
    rw [h]
    exact List.not_mem_nil
  | cons c rest ih =>
    obtain ⟨first, others, hrest⟩ := List.exists_cons_of_ne_nil (List.splitOn_ne_nil a rest)
    rw [List.splitOn_cons_eq_if_modifyHead, hrest] at h
    rw [hrest] at ih
    split at h
    -- a break begins a new piece, anything else goes in front of the first one
    · rcases List.mem_cons.mp h with rfl | hpiece
      · exact List.not_mem_nil
      · exact ih hpiece
    · rename_i hother
      rcases List.mem_cons.mp h with rfl | hpiece
      · rw [List.mem_cons, not_or]
        exact ⟨fun hsame => hother (beq_iff_eq.mpr hsame.symm), ih List.mem_cons_self⟩
      · exact ih (List.mem_cons_of_mem _ hpiece)

theorem isLine_of_mem_lines (h : t ∈ lines s) : IsLine t := by
  obtain ⟨piece, hpiece, rfl⟩ := List.mem_map.mp h
  rw [isLine_ofList]
  exact not_mem_of_mem_splitOn hpiece

theorem lines_of_isLine (h : IsLine s) : lines s = [s] := by
  rw [lines, List.splitOn_eq_singleton h, List.map_singleton, String.ofList_toList]

theorem lines_eq_singleton_iff : lines s = [s] ↔ IsLine s := by
  refine ⟨fun h => isLine_of_mem_lines (s := s) ?_, lines_of_isLine⟩
  rw [h]
  exact List.mem_singleton_self s

/-- Texts are cut into nothing but themselves exactly if each of them is a line. -/
theorem flatMap_lines_eq_self_iff {ts : List String} : ts.flatMap lines = ts ↔ ∀ t ∈ ts, IsLine t := by
  constructor
  · intro h t ht
    rw [← h] at ht
    obtain ⟨s, -, hs⟩ := List.mem_flatMap.mp ht
    exact isLine_of_mem_lines hs
  · intro h
    rw [List.flatMap_congr fun t ht => lines_of_isLine (h t ht), List.flatMap_singleton']

theorem lines_append_break (s t : String) : lines (s ++ "\n" ++ t) = lines s ++ lines t := by
  have htext : (s ++ "\n" ++ t).toList = s.toList ++ '\n' :: t.toList := by
    simp
  rw [lines, htext, List.splitOn_append_cons_self, List.map_append]
  rfl

theorem lines_join (ts : List String) :
    lines (String.join (ts.map (· ++ "\n"))) = ts.flatMap lines ++ [""] := by
  induction ts with
  | nil => decide
  | cons t rest ih =>
    rw [List.map_cons, String.join_cons, lines_append_break, ih, List.flatMap_cons, List.append_assoc]

/-! ## Texts put together -/

theorem infix_left (h : s.toList <:+: t.toList) (back : String) : s.toList <:+: (t ++ back).toList := by
  rw [String.toList_append]
  exact h.trans (List.prefix_append _ _).isInfix

theorem infix_right (h : s.toList <:+: t.toList) (front : String) : s.toList <:+: (front ++ t).toList := by
  rw [String.toList_append]
  exact h.trans (List.suffix_append _ _).isInfix

theorem infix_between (front s back : String) : s.toList <:+: (front ++ s ++ back).toList :=
  infix_left (infix_right List.infix_rfl front) back

/-- The text is put together from wording without line breaks and from texts of a kind as they stand. -/
inductive IsComposed (repeated : String → Prop) : String → Prop
  | wording {s : String} (h : IsLine s) : IsComposed repeated s
  | part {s : String} (h : repeated s) : IsComposed repeated s
  | append {s t : String} (hs : IsComposed repeated s) (ht : IsComposed repeated t) :
      IsComposed repeated (s ++ t)

namespace IsComposed

variable {repeated others : String → Prop}

theorem mono (h : IsComposed repeated s) (hsub : ∀ t, repeated t → others t) : IsComposed others s := by
  induction h with
  | wording h => exact .wording h
  | part h => exact .part (hsub _ h)
  | append _ _ ihs iht => exact .append ihs iht

/-- The repeated texts that are in the text decide whether it is a line. -/
theorem isLine_iff (h : IsComposed repeated s) :
    IsLine s ↔ ∀ t, repeated t → t.toList <:+: s.toList → IsLine t := by
  refine ⟨fun hs t _ ht => hs.of_isInfix ht, fun hparts => ?_⟩
  induction h with
  | wording h => exact h
  | part h => exact hparts _ h List.infix_rfl
  | append _ _ ihs iht =>
    refine isLine_append.mpr ⟨ihs fun u hu hin => ?_, iht fun u hu hin => ?_⟩
    · exact hparts u hu (infix_left hin _)
    · exact hparts u hu (infix_right hin _)

end IsComposed

end Rulebook.Text
