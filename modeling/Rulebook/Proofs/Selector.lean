import Rulebook.Proofs.Basic
import Rulebook.Selector

/-!
# Selectors without problems

A selector has no problems exactly if it has an entry at all, none of its entries is blank, and its
patterns can be read. It then has a matcher.
-/

namespace Rulebook

set_option autoImplicit false

/-- The text is a pattern. -/
def Glob.IsPattern (text : String) : Prop := ∃ pattern, Glob.parse text = .ok pattern

/-- All entries of a selector, of whatever field. -/
def SelectorSpec.values (spec : SelectorSpec) : List String :=
  spec.scopes ++ spec.scopeStarts ++ spec.scopeGlobs ++ spec.categories

structure SelectorSpec.IsSound (spec : SelectorSpec) : Prop where
  nonempty : spec.values ≠ []
  filled : ∀ value ∈ spec.values, Text.trim value ≠ ""
  patterns : ∀ value ∈ spec.scopeGlobs, Glob.IsPattern (Text.trim value)

namespace Selector

variable {spec : SelectorSpec} {field : String} {values : List String}

theorem mem_numbered {value : String} {i : Nat} (h : (value, i) ∈ numbered values) :
    ∃ raw ∈ values, Text.trim raw = value :=
  List.mem_map.mp (List.fst_mem_of_mem_zipIdx h)

theorem exists_numbered {raw : String} (h : raw ∈ values) : ∃ i, (Text.trim raw, i) ∈ numbered values := by
  have hmem : Text.trim raw ∈ (numbered values).map Prod.fst := by
    rw [numbered, List.zipIdx_map_fst]
    exact List.mem_map_of_mem h
  obtain ⟨⟨_, i⟩, hentry, rfl⟩ := List.mem_map.mp hmem
  exact ⟨i, hentry⟩

theorem blankProblems_eq_nil_iff :
    blankProblems field values = [] ↔ ∀ value ∈ values, Text.trim value ≠ "" := by
  rw [blankProblems, numbered, @filterMap_zipIdx_eq_nil_iff _ _ _ fun value => value ≠ "",
    List.forall_mem_map]
  intro value i
  by_cases hempty : value = "" <;> simp [hempty]

theorem filled_eq_nil_iff : filled values = [] ↔ ∀ value ∈ values, Text.trim value = "" := by
  rw [filled, List.filter_eq_nil_iff]
  constructor
  · intro h value hvalue
    obtain ⟨i, hentry⟩ := exists_numbered hvalue
    simpa using h _ hentry
  · rintro h ⟨value, i⟩ hentry
    obtain ⟨raw, hraw, rfl⟩ := mem_numbered hentry
    simp [h raw hraw]

theorem filled_eq_numbered (hfilled : ∀ value ∈ values, Text.trim value ≠ "") :
    filled values = numbered values := by
  rw [filled, List.filter_eq_self]
  rintro ⟨value, i⟩ hentry
  obtain ⟨raw, hraw, rfl⟩ := mem_numbered hentry
  simp [hfilled raw hraw]

theorem globProblems_eq_nil_iff (hfilled : ∀ value ∈ values, Text.trim value ≠ "") :
    globProblems values = [] ↔ ∀ value ∈ values, Glob.IsPattern (Text.trim value) := by
  rw [globProblems, filled_eq_numbered hfilled, numbered, @filterMap_zipIdx_eq_nil_iff _ _ _ Glob.IsPattern,
    List.forall_mem_map]
  intro value i
  dsimp only [Glob.IsPattern]
  cases Glob.parse value with
  | ok pattern => simp
  | error e => simp

theorem entryProblems_eq_nil_iff :
    entryProblems spec = [] ↔ (∀ value ∈ spec.values, Text.trim value ≠ "") ∧
      ∀ value ∈ spec.scopeGlobs, Glob.IsPattern (Text.trim value) := by
  simp only [entryProblems, List.append_eq_nil_iff, blankProblems_eq_nil_iff, SelectorSpec.values,
    List.forall_mem_append]
  constructor
  · rintro ⟨⟨⟨⟨hscopes, hstarts⟩, hglobs⟩, hpatterns⟩, hcategories⟩
    exact ⟨⟨⟨⟨hscopes, hstarts⟩, hglobs⟩, hcategories⟩, (globProblems_eq_nil_iff hglobs).mp hpatterns⟩
  · rintro ⟨⟨⟨⟨hscopes, hstarts⟩, hglobs⟩, hcategories⟩, hpatterns⟩
    exact ⟨⟨⟨⟨hscopes, hstarts⟩, hglobs⟩, (globProblems_eq_nil_iff hglobs).mpr hpatterns⟩, hcategories⟩

theorem exactMatchers_eq_nil_iff {build : String → Matcher}
    (hfilled : ∀ value ∈ values, Text.trim value ≠ "") :
    exactMatchers build values = [] ↔ values = [] := by
  rw [exactMatchers, List.map_eq_nil_iff, filled_eq_nil_iff, List.eq_nil_iff_forall_not_mem]
  exact forall₂_congr fun value hvalue => iff_false_intro (hfilled value hvalue)

theorem globMatchers_eq_nil_iff (hfilled : ∀ value ∈ values, Text.trim value ≠ "")
    (hpatterns : ∀ value ∈ values, Glob.IsPattern (Text.trim value)) :
    globMatchers values = [] ↔ values = [] := by
  constructor
  · intro h
    rw [List.eq_nil_iff_forall_not_mem]
    intro raw hraw
    obtain ⟨i, hentry⟩ := exists_numbered hraw
    obtain ⟨pattern, hpattern⟩ := hpatterns raw hraw
    have hkept : (Text.trim raw, i) ∈ filled values :=
      List.mem_filter.mpr ⟨hentry, by simp [hfilled raw hraw]⟩
    have hnone := List.filterMap_eq_nil_iff.mp h _ hkept
    simp [hpattern] at hnone
  · rintro rfl
    rfl

/-- Entries without problems are as many matchers. -/
theorem matchersOf_eq_nil_iff (h : entryProblems spec = []) :
    matchersOf spec = [] ↔ spec.values = [] := by
  obtain ⟨hfilled, hpatterns⟩ := entryProblems_eq_nil_iff.mp h
  simp only [SelectorSpec.values, List.forall_mem_append] at hfilled
  obtain ⟨⟨⟨hscopes, hstarts⟩, hglobs⟩, hcategories⟩ := hfilled
  simp only [matchersOf, SelectorSpec.values, List.append_eq_nil_iff,
    exactMatchers_eq_nil_iff hscopes, exactMatchers_eq_nil_iff hstarts,
    exactMatchers_eq_nil_iff hcategories, globMatchers_eq_nil_iff hglobs hpatterns]

theorem problems_eq_nil_iff : problems spec = [] ↔ spec.IsSound := by
  rw [problems]
  constructor
  · intro h
    split at h
    · cases h
    · rename_i hnot
      obtain ⟨hfilled, hpatterns⟩ := entryProblems_eq_nil_iff.mp h
      refine ⟨?_, hfilled, hpatterns⟩
      intro hnil
      exact hnot (by rw [(matchersOf_eq_nil_iff h).mpr hnil, h]; rfl)
  · rintro ⟨hnonempty, hfilled, hpatterns⟩
    have hnone := entryProblems_eq_nil_iff.mpr ⟨hfilled, hpatterns⟩
    have hmatchers : matchersOf spec ≠ [] := fun hnil => hnonempty ((matchersOf_eq_nil_iff hnone).mp hnil)
    rw [if_neg, hnone]
    rw [Bool.and_eq_true, List.isEmpty_iff, List.isEmpty_iff]
    exact fun hboth => hmatchers hboth.2

theorem matchersOf_ne_nil (h : spec.IsSound) : matchersOf spec ≠ [] := by
  have hnone := entryProblems_eq_nil_iff.mpr ⟨h.filled, h.patterns⟩
  exact fun hnil => h.nonempty ((matchersOf_eq_nil_iff hnone).mp hnil)

end Selector

end Rulebook
