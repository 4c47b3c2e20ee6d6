import Mathlib.Data.List.Nodup
import Rulebook.Proofs.Card.Id
import Rulebook.Proofs.Glob
import Rulebook.Proofs.Selector

/-!
# Selectors are unions of their entries

The entries of all fields are taken together: a selector without faults picks a card if one of them
does, and one with faults names each faulty entry once, by its place in the list it was written in.
Blank entries are dropped before the patterns are read, so the places have to come through that.
-/

namespace Rulebook

set_option autoImplicit false

namespace SelectorSpec

def fields (spec : SelectorSpec) : List (String × List String) :=
  [("scopes", spec.scopes), ("scope_prefixes", spec.scopeStarts), ("scope_globs", spec.scopeGlobs),
    ("categories", spec.categories)]

/-- An entry of the selector picks the card. -/
def Selects (spec : SelectorSpec) (card : Card) : Prop :=
  (∃ scope ∈ spec.scopes, Text.trim scope = card.scope) ∨
  (∃ start ∈ spec.scopeStarts, (Text.trim start).toList <+: card.scope.toList) ∨
  (∃ glob ∈ spec.scopeGlobs, ∃ pattern, Glob.parse (Text.trim glob) = .ok pattern ∧
    pattern.accepts card.scope = true) ∨
  ∃ category ∈ spec.categories, (Text.trim category).toList = card.id.toList.takeWhile (· != '-')

/-- The fault of an entry, at its place. -/
inductive HasFault (spec : SelectorSpec) : Selector.Problem → Prop
  | blank {field values i raw} (hfield : (field, values) ∈ spec.fields) (hentry : values[i]? = some raw)
      (hblank : Text.trim raw = "") : HasFault spec ⟨Selector.itemName field i, "must not be empty"⟩
  | badGlob {i raw e} (hentry : spec.scopeGlobs[i]? = some raw)
      (hbad : Glob.parse (Text.trim raw) = .error e) :
      HasFault spec ⟨Selector.itemName "scope_globs" i, Selector.badGlob (Text.trim raw) e⟩

end SelectorSpec

namespace Selector

variable {spec : SelectorSpec} {selector : Selector} {field : String} {values : List String} {card : Card}

/-! ## What a sound selector picks -/

theorem exactMatchers_eq {build : String → Matcher} (hfilled : ∀ value ∈ values, Text.trim value ≠ "") :
    exactMatchers build values = values.map fun raw => build (Text.trim raw) := by
  have hdrop : (numbered values).map (fun entry => build entry.1) =
      ((numbered values).map Prod.fst).map build := by rw [List.map_map]; rfl
  rw [exactMatchers, filled_eq_numbered hfilled, hdrop, numbered, List.zipIdx_map_fst, List.map_map]
  rfl

theorem mem_globMatchers {m : Matcher} (hfilled : ∀ value ∈ values, Text.trim value ≠ "") :
    m ∈ globMatchers values ↔
      ∃ raw ∈ values, ∃ pattern, Glob.parse (Text.trim raw) = .ok pattern ∧ .scopeLike pattern = m := by
  rw [globMatchers, filled_eq_numbered hfilled, List.mem_filterMap]
  constructor
  · rintro ⟨⟨value, i⟩, hentry, hvalue⟩
    obtain ⟨raw, hraw, rfl⟩ := mem_numbered hentry
    cases hparse : Glob.parse (Text.trim raw) with
    | ok pattern => exact ⟨raw, hraw, pattern, hparse, by simpa [hparse] using hvalue⟩
    | error e => simp [hparse] at hvalue
  · rintro ⟨raw, hraw, pattern, hparse, rfl⟩
    obtain ⟨i, hentry⟩ := exists_numbered hraw
    exact ⟨_, hentry, by simp [hparse]⟩

theorem compile_eq_ok_iff : compile spec = .ok selector ↔ spec.IsSound ∧ selector = ⟨matchersOf spec⟩ := by
  rw [← problems_eq_nil_iff, compile]
  cases problems spec <;> simp [eq_comm]

theorem compile_eq_error_iff {wrong : List Problem} :
    compile spec = .error wrong ↔ ¬ spec.IsSound ∧ wrong = problems spec := by
  rw [← problems_eq_nil_iff, compile]
  cases problems spec <;> simp [eq_comm]

theorem accepts_iff_selects (h : spec.IsSound) :
    accepts ⟨matchersOf spec⟩ card = true ↔ spec.Selects card := by
  have hfilled := h.filled
  simp only [SelectorSpec.values, List.forall_mem_append] at hfilled
  obtain ⟨⟨⟨hscopes, hstarts⟩, hglobs⟩, hcategories⟩ := hfilled
  have hcategory (category : String) : card.category = category ↔
      category.toList = card.id.toList.takeWhile (· != '-') := by
    rw [Card.category, ← String.toList_inj, RuleId.toList_category, eq_comm]
  simp only [accepts, matchersOf, exactMatchers_eq hscopes, exactMatchers_eq hstarts,
    exactMatchers_eq hcategories, List.any_append, Bool.or_eq_true, SelectorSpec.Selects, or_assoc]
  refine or_congr ?_ (or_congr ?_ (or_congr ?_ ?_))
  · simp [Matcher.accepts, eq_comm (b := card.scope)]
  · simp [Matcher.accepts]
  · rw [List.any_eq_true]
    constructor
    · rintro ⟨m, hm, haccepts⟩
      obtain ⟨raw, hraw, pattern, hparse, rfl⟩ := (mem_globMatchers hglobs).mp hm
      exact ⟨raw, hraw, pattern, hparse, haccepts⟩
    · rintro ⟨raw, hraw, pattern, hparse, haccepts⟩
      exact ⟨_, (mem_globMatchers hglobs).mpr ⟨raw, hraw, pattern, hparse, rfl⟩, haccepts⟩
  · simp [Matcher.accepts, hcategory]

/-! ## The faults of a selector -/

theorem itemName_inj {other : String} {i j : Nat} (hfield : '[' ∉ field.toList) (hother : '[' ∉ other.toList)
    (h : itemName field i = itemName other j) : field = other ∧ i = j := by
  have hlists : field.toList ++ '[' :: (Nat.toDigits 10 i ++ [']']) =
      other.toList ++ '[' :: (Nat.toDigits 10 j ++ [']']) := by
    simpa [itemName, Nat.toString_eq_ofList_toDigits] using congrArg String.toList h
  obtain ⟨hfields, hindices⟩ := append_separator_inj hfield hother hlists
  have hdigits := List.append_cancel_right hindices
  refine ⟨String.toList_inj.mp hfields, ?_⟩
  rw [← Nat.ofDigitChars_ten_toDigits (n := i), hdigits, Nat.ofDigitChars_ten_toDigits]

theorem mem_numbered_iff {value : String} {i : Nat} :
    (value, i) ∈ numbered values ↔ ∃ raw, values[i]? = some raw ∧ Text.trim raw = value := by
  rw [numbered, List.mem_zipIdx_iff_getElem?, List.getElem?_map, Option.map_eq_some_iff]

theorem mem_blankProblems {problem : Problem} : problem ∈ blankProblems field values ↔
    ∃ i raw, values[i]? = some raw ∧ Text.trim raw = "" ∧
      problem = ⟨itemName field i, "must not be empty"⟩ := by
  rw [blankProblems, List.mem_filterMap]
  constructor
  · rintro ⟨⟨value, i⟩, hentry, hvalue⟩
    obtain ⟨raw, hraw, rfl⟩ := mem_numbered_iff.mp hentry
    rw [Option.ite_none_right_eq_some, String.isEmpty_iff] at hvalue
    obtain ⟨hblank, hproblem⟩ := hvalue
    exact ⟨i, raw, hraw, hblank, (Option.some.inj hproblem).symm⟩
  · rintro ⟨i, raw, hraw, hblank, rfl⟩
    exact ⟨_, mem_numbered_iff.mpr ⟨raw, hraw, rfl⟩, by simp [hblank]⟩

theorem mem_globProblems {problem : Problem} : problem ∈ globProblems values ↔
    ∃ i raw e, values[i]? = some raw ∧ Glob.parse (Text.trim raw) = .error e ∧
      problem = ⟨itemName "scope_globs" i, badGlob (Text.trim raw) e⟩ := by
  rw [globProblems, List.mem_filterMap]
  constructor
  · rintro ⟨⟨value, i⟩, hentry, hvalue⟩
    obtain ⟨raw, hraw, rfl⟩ := mem_numbered_iff.mp (List.mem_filter.mp hentry).1
    cases hparse : Glob.parse (Text.trim raw) with
    | ok pattern => simp [hparse] at hvalue
    | error e => exact ⟨i, raw, e, hraw, hparse, by simpa [hparse, eq_comm] using hvalue⟩
  · rintro ⟨i, raw, e, hraw, hparse, rfl⟩
    -- the empty text is a pattern, so an entry with a bad one is not blank
    have hfilled : Text.trim raw ≠ "" := by
      intro hblank
      rw [hblank] at hparse
      cases hparse
    refine ⟨_, List.mem_filter.mpr ⟨mem_numbered_iff.mpr ⟨raw, hraw, rfl⟩, ?_⟩, by simp [hparse]⟩
    simpa using hfilled

theorem mem_entryProblems {problem : Problem} : problem ∈ entryProblems spec ↔ spec.HasFault problem := by
  have hblank {field : String} {values : List String} (hfield : (field, values) ∈ spec.fields)
      (hproblem : problem ∈ blankProblems field values) : spec.HasFault problem := by
    obtain ⟨i, raw, hentry, hraw, rfl⟩ := mem_blankProblems.mp hproblem
    exact .blank hfield hentry hraw
  simp only [entryProblems, List.mem_append]
  constructor
  · rintro ((((hscopes | hstarts) | hglobs) | hbad) | hcategories)
    · exact hblank (by simp [SelectorSpec.fields]) hscopes
    · exact hblank (by simp [SelectorSpec.fields]) hstarts
    · exact hblank (by simp [SelectorSpec.fields]) hglobs
    · obtain ⟨i, raw, e, hentry, hparse, rfl⟩ := mem_globProblems.mp hbad
      exact .badGlob hentry hparse
    · exact hblank (by simp [SelectorSpec.fields]) hcategories
  · rintro (⟨hfield, hentry, hraw⟩ | ⟨hentry, hparse⟩)
    · rename_i field values i raw
      have hproblem : _ ∈ blankProblems field values := mem_blankProblems.mpr ⟨i, raw, hentry, hraw, rfl⟩
      simp only [SelectorSpec.fields, List.mem_cons, List.not_mem_nil, or_false, Prod.mk.injEq] at hfield
      rcases hfield with ⟨rfl, rfl⟩ | ⟨rfl, rfl⟩ | ⟨rfl, rfl⟩ | ⟨rfl, rfl⟩
      · exact .inl (.inl (.inl (.inl hproblem)))
      · exact .inl (.inl (.inl (.inr hproblem)))
      · exact .inl (.inl (.inr hproblem))
      · exact .inr hproblem
    · exact .inl (.inr (mem_globProblems.mpr ⟨_, _, _, hentry, hparse, rfl⟩))

/-! ### One fault for an entry -/

theorem nodup_itemNames (hplain : '[' ∉ field.toList) :
    ((numbered values).map fun entry => itemName field entry.2).Nodup := by
  have hplaces : (numbered values).map (fun entry => itemName field entry.2) =
      ((numbered values).map Prod.snd).map (itemName field) := by rw [List.map_map]; rfl
  rw [hplaces, numbered, List.zipIdx_map_snd]
  exact List.Nodup.map (fun i j h => (itemName_inj hplain hplain h).2) List.nodup_range'

theorem nodup_blankProblems (hplain : '[' ∉ field.toList) :
    ((blankProblems field values).map (·.field)).Nodup := by
  refine (sublist_of_filterMap (fun entry problem hproblem => ?_) _).nodup (nodup_itemNames hplain)
  rw [Option.ite_none_right_eq_some] at hproblem
  rw [← Option.some.inj hproblem.2]

theorem nodup_globProblems : ((globProblems values).map (·.field)).Nodup := by
  have hsublist : ((globProblems values).map (·.field)).Sublist
      ((filled values).map fun entry => itemName "scope_globs" entry.2) := by
    refine sublist_of_filterMap (fun entry problem hproblem => ?_) _
    cases hparse : Glob.parse entry.1 with
    | ok pattern => simp [hparse] at hproblem
    | error e =>
      simp only [hparse] at hproblem
      rw [← Option.some.inj hproblem]
  exact (hsublist.trans (List.filter_sublist.map _)).nodup (nodup_itemNames (by decide))

/-- The problems of the entries by their fields. -/
def problemsByField (spec : SelectorSpec) : List (String × List Problem) :=
  [("scopes", blankProblems "scopes" spec.scopes),
    ("scope_prefixes", blankProblems "scope_prefixes" spec.scopeStarts),
    ("scope_globs", blankProblems "scope_globs" spec.scopeGlobs ++ globProblems spec.scopeGlobs),
    ("categories", blankProblems "categories" spec.categories)]

theorem entryProblems_eq_flatMap : entryProblems spec = (problemsByField spec).flatMap (·.2) := by
  simp [entryProblems, problemsByField]

theorem named_of_mem_problemsByField {wrong : List Problem} {problem : Problem}
    (h : (field, wrong) ∈ problemsByField spec) (hproblem : problem ∈ wrong) :
    ∃ i, problem.field = itemName field i := by
  have hblank {field : String} {values : List String} (h : problem ∈ blankProblems field values) :
      ∃ i, problem.field = itemName field i := by
    obtain ⟨i, -, -, -, rfl⟩ := mem_blankProblems.mp h
    exact ⟨i, rfl⟩
  simp only [problemsByField, List.mem_cons, List.not_mem_nil, or_false, Prod.mk.injEq] at h
  rcases h with ⟨rfl, rfl⟩ | ⟨rfl, rfl⟩ | ⟨rfl, rfl⟩ | ⟨rfl, rfl⟩
  · exact hblank hproblem
  · exact hblank hproblem
  · rcases List.mem_append.mp hproblem with hproblem | hproblem
    · exact hblank hproblem
    · obtain ⟨i, -, -, -, -, rfl⟩ := mem_globProblems.mp hproblem
      exact ⟨i, rfl⟩
  · exact hblank hproblem

theorem nodup_allGlobProblems :
    ((blankProblems "scope_globs" values ++ globProblems values).map (·.field)).Nodup := by
  rw [List.map_append, List.nodup_append]
  refine ⟨nodup_blankProblems (by decide), nodup_globProblems, ?_⟩
  simp only [List.mem_map]
  rintro _ ⟨blank, hblank, rfl⟩ _ ⟨bad, hbad, rfl⟩ hsame
  obtain ⟨i, raw, hentry, hraw, rfl⟩ := mem_blankProblems.mp hblank
  obtain ⟨j, raw', e, hentry', hparse, rfl⟩ := mem_globProblems.mp hbad
  obtain ⟨-, rfl⟩ := itemName_inj (by decide) (by decide) hsame
  cases hentry.symm.trans hentry'
  rw [hraw] at hparse
  cases hparse

theorem nodup_entryProblems : ((entryProblems spec).map (·.field)).Nodup := by
  have hplain : ∀ entry ∈ problemsByField spec, '[' ∉ entry.1.toList := by
    simp [problemsByField]
  have hapart : (problemsByField spec).Pairwise fun entry other => entry.1 ≠ other.1 := by
    simp [problemsByField]
  rw [entryProblems_eq_flatMap, List.map_flatMap, List.nodup_flatMap]
  constructor
  · simp only [problemsByField, List.forall_mem_cons, List.not_mem_nil, false_implies, implies_true, and_true]
    exact ⟨nodup_blankProblems (by decide), nodup_blankProblems (by decide), nodup_allGlobProblems,
      nodup_blankProblems (by decide)⟩
  · refine hapart.imp_of_mem ?_
    intro entry other hentry hother hne name hname hname'
    obtain ⟨problem, hproblem, rfl⟩ := List.mem_map.mp hname
    obtain ⟨problem', hproblem', hsame⟩ := List.mem_map.mp hname'
    obtain ⟨i, hi⟩ := named_of_mem_problemsByField hentry hproblem
    obtain ⟨j, hj⟩ := named_of_mem_problemsByField hother hproblem'
    exact hne (itemName_inj (hplain _ hentry) (hplain _ hother) (hi.symm.trans (hsame.symm.trans hj))).1

theorem problems_of_values (h : spec.values ≠ []) : problems spec = entryProblems spec := by
  rw [problems]
  split
  · rename_i hnone
    rw [Bool.and_eq_true, List.isEmpty_iff, List.isEmpty_iff] at hnone
    exact absurd ((matchersOf_eq_nil_iff hnone.1).mp hnone.2) h
  · rfl

theorem compile_of_no_values (h : spec.values = []) : compile spec = .error [noMatchers] := by
  obtain ⟨scopes, starts, globs, categories⟩ := spec
  simp only [SelectorSpec.values, List.append_eq_nil_iff] at h
  obtain ⟨⟨⟨rfl, rfl⟩, rfl⟩, rfl⟩ := h
  rfl

/-- A selector is the union of its entries, or it says what is wrong with each. -/
theorem compile_union (spec : SelectorSpec) :
    ((∃ selector, compile spec = .ok selector) ↔ spec.IsSound) ∧
    (∀ selector, compile spec = .ok selector →
      ∀ card, selector.accepts card = true ↔ spec.Selects card) ∧
    (spec.values = [] → compile spec = .error [noMatchers]) ∧
    (spec.values ≠ [] → ∀ problems, compile spec = .error problems →
      (problems.map (·.field)).Nodup ∧ ∀ problem, problem ∈ problems ↔ spec.HasFault problem) ∧
    ∀ text, (Glob.IsPattern text ↔ ∃ pieces, Glob.Spells none text.toList pieces) ∧
      ∀ pattern pieces, Glob.parse text = .ok pattern → Glob.Spells none text.toList pieces →
        ∀ s, pattern.accepts s = true ↔ Glob.Matches pieces s.toList := by
  refine ⟨?_, ?_, compile_of_no_values, ?_, ?_⟩
  · constructor
    · rintro ⟨selector, hcompile⟩
      exact (compile_eq_ok_iff.mp hcompile).1
    · intro hsound
      exact ⟨_, compile_eq_ok_iff.mpr ⟨hsound, rfl⟩⟩
  · intro selector hcompile card
    obtain ⟨hsound, rfl⟩ := compile_eq_ok_iff.mp hcompile
    exact accepts_iff_selects hsound
  · intro hvalues wrong hcompile
    have hwrong : wrong = entryProblems spec := by
      rw [← problems_of_values hvalues]
      exact (compile_eq_error_iff.mp hcompile).2
    rw [hwrong]
    exact ⟨nodup_entryProblems, fun problem => mem_entryProblems⟩
  · intro text
    exact ⟨Glob.parses_iff_spells, fun pattern pieces => Glob.accepts_iff_matches⟩

def patchy : SelectorSpec := ⟨[" ", "core"], [], ["**a", "", "docs/**"], []⟩

def patches : List Problem :=
  [⟨"scopes[0]", "must not be empty"⟩, ⟨"scope_globs[1]", "must not be empty"⟩,
    ⟨"scope_globs[0]", badGlob "**a" ⟨2, .notAWholePiece⟩⟩]

def tidy : SelectorSpec := ⟨[" core"], [], ["docs/**"], []⟩

def page : Card := { (default : Card) with scope := "docs/web/a" }

theorem compile_union_patchy :
    compile patchy = .error patches ∧ (∀ problem, problem ∈ patches ↔ patchy.HasFault problem) ∧
      ∃ selector, compile tidy = .ok selector ∧ selector.accepts page = true ∧ tidy.Selects page := by
  have hpatchy : compile patchy = .error patches := rfl
  have htidy : compile tidy = .ok ⟨matchersOf tidy⟩ := rfl
  have hpage : (⟨matchersOf tidy⟩ : Selector).accepts page = true := by decide
  obtain ⟨-, -, -, hfaults, -⟩ := compile_union patchy
  obtain ⟨-, hselects, -⟩ := compile_union tidy
  have hvalues : patchy.values ≠ [] := by decide
  refine ⟨hpatchy, (hfaults hvalues patches hpatchy).2, _, htidy, hpage, ?_⟩
  exact (hselects _ htidy page).mp hpage

end Selector

end Rulebook
