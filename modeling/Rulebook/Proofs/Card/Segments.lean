import Rulebook.Card.Basic

/-!
# The segments of rule ids

The id check accepts exactly the grammar of rule ids: two words and three digits, joined by hyphens. An id
is made of such segments in one way only, and the category of a card is the first of them.
-/

namespace Rulebook

set_option autoImplicit false

/-- Cutting a text at a separator is the library's splitting of a list. -/
theorem pieces_eq_splitOn (separator : Char) (cs : List Char) :
    pieces separator cs = cs.splitOn separator := by
  induction cs with
  | nil => rfl
  | cons c rest ih =>
    rw [pieces, ih, List.splitOn_cons_eq_if_modifyHead]
    by_cases hsame : c = separator
    · rw [if_pos hsame, if_pos (beq_iff_eq.mpr hsame)]
    · rw [if_neg hsame, if_neg (fun h => hsame (beq_iff_eq.mp h))]
      cases hrest : rest.splitOn separator with
      | nil => exact absurd hrest (List.splitOn_ne_nil _ _)
      | cons front others => rfl

namespace RuleId

/-! ## The grammar -/

/-- A capital letter from A to Z. -/
def IsCapital (c : Char) : Prop := 'A' ≤ c ∧ c ≤ 'Z'

/-- A digit from 0 to 9. -/
def IsNumeral (c : Char) : Prop := '0' ≤ c ∧ c ≤ '9'

/-- A capital letter, and then any number of capital letters and digits. -/
def Word (s : String) : Prop :=
  ∃ first rest, s.toList = first :: rest ∧ IsCapital first ∧ ∀ c ∈ rest, IsCapital c ∨ IsNumeral c

/-- Exactly three digits. -/
def ThreeDigits (s : String) : Prop := s.toList.length = 3 ∧ ∀ c ∈ s.toList, IsNumeral c

/-- The id is made of these segments. -/
structure Spells (id category subcategory number : String) : Prop where
  text : id = category ++ "-" ++ subcategory ++ "-" ++ number
  category : Word category
  subcategory : Word subcategory
  number : ThreeDigits number

variable {c : Char} {id s a b n a' b' n' : String}

theorem isUpper_iff : c.isUpper = true ↔ IsCapital c := by
  refine decide_eq_true_iff.trans ?_
  rw [IsCapital, Char.le_def, Char.le_def]

theorem isDigit_iff : c.isDigit = true ↔ IsNumeral c := by
  rw [Char.isDigit, Bool.and_eq_true, decide_eq_true_iff, decide_eq_true_iff, IsNumeral, Char.le_def,
    Char.le_def]

theorem isWord_iff : isWord s.toList = true ↔ Word s := by
  rw [Word]
  cases s.toList with
  | nil => simp [isWord]
  | cons first rest =>
    simp only [isWord, isWordTail, Bool.and_eq_true, List.all_eq_true, Bool.or_eq_true, isUpper_iff, isDigit_iff]
    constructor
    · rintro ⟨hfirst, hrest⟩
      exact ⟨first, rest, rfl, hfirst, hrest⟩
    · rintro ⟨_, _, heq, hfirst, hrest⟩
      cases heq
      exact ⟨hfirst, hrest⟩

theorem isNumber_iff : isNumber s.toList = true ↔ ThreeDigits s := by
  simp only [isNumber, ThreeDigits, Bool.and_eq_true, beq_iff_eq, List.all_eq_true, isDigit_iff]

/-! ## No hyphen is in a segment -/

theorem not_isCapital_hyphen : ¬ IsCapital '-' := fun h => absurd h.1 (by decide)

theorem not_isNumeral_hyphen : ¬ IsNumeral '-' := fun h => absurd h.1 (by decide)

theorem Word.hyphen_not_mem (h : Word s) : '-' ∉ s.toList := by
  obtain ⟨first, rest, heq, hfirst, hrest⟩ := h
  rw [heq, List.mem_cons]
  rintro (rfl | hmem)
  · exact not_isCapital_hyphen hfirst
  · exact (hrest _ hmem).elim not_isCapital_hyphen not_isNumeral_hyphen

theorem ThreeDigits.hyphen_not_mem (h : ThreeDigits s) : '-' ∉ s.toList :=
  fun hmem => not_isNumeral_hyphen (h.2 _ hmem)

/-! ## Segments and pieces -/

theorem toList_segments (a b n : String) :
    (a ++ "-" ++ b ++ "-" ++ n).toList = ['-'].intercalate [a.toList, b.toList, n.toList] := by
  simp [List.intercalate]

theorem Spells.pieces_eq (h : Spells id a b n) :
    pieces '-' id.toList = [a.toList, b.toList, n.toList] := by
  have hnone : ∀ piece ∈ [a.toList, b.toList, n.toList], '-' ∉ piece := by
    simp only [List.forall_mem_cons]
    exact ⟨h.category.hyphen_not_mem, h.subcategory.hyphen_not_mem, h.number.hyphen_not_mem, List.forall_mem_nil _⟩
  rw [pieces_eq_splitOn, h.text, toList_segments]
  exact List.splitOn_intercalate '-' hnone (List.cons_ne_nil _ _)

theorem Spells.valid (h : Spells id a b n) : valid id = true := by
  rw [RuleId.valid, h.pieces_eq]
  dsimp only
  rw [isWord_iff.mpr h.category, isWord_iff.mpr h.subcategory, isNumber_iff.mpr h.number]
  rfl

theorem exists_spells (h : RuleId.valid id = true) : ∃ a b n, Spells id a b n := by
  rw [RuleId.valid] at h
  split at h
  · rename_i a b n hpieces
    -- the pieces joined again are the id
    have hjoined : ['-'].intercalate [a, b, n] = id.toList := by
      rw [← hpieces, pieces_eq_splitOn]
      exact List.intercalate_splitOn '-'
    rw [Bool.and_eq_true, Bool.and_eq_true] at h
    refine ⟨.ofList a, .ofList b, .ofList n, ?_, isWord_iff.mp ?_, isWord_iff.mp ?_, isNumber_iff.mp ?_⟩
    · apply String.toList_inj.mp
      rw [toList_segments, String.toList_ofList, String.toList_ofList, String.toList_ofList, hjoined]
    · rw [String.toList_ofList]
      exact h.1.1
    · rw [String.toList_ofList]
      exact h.1.2
    · rw [String.toList_ofList]
      exact h.2
  · cases h

/-- The pieces of an id are its segments, so they are the same however it is taken apart. -/
theorem Spells.unique (h : Spells id a b n) (h' : Spells id a' b' n') : a = a' ∧ b = b' ∧ n = n' := by
  have hpieces := h.pieces_eq.symm.trans h'.pieces_eq
  simp only [List.cons.injEq, and_true, String.toList_inj] at hpieces
  exact hpieces

theorem Spells.category_eq (h : Spells id a b n) : RuleId.category id = a := by
  rw [RuleId.category, h.pieces_eq]
  exact String.ofList_toList

/-- The id check accepts exactly the ids that are made of two words and three digits. They are so in one way
only, the first word is the category, and so ids share their category exactly if they share it. -/
theorem valid_iff_spells :
    (∀ id, valid id = true ↔ ∃ a b n, Spells id a b n) ∧
    (∀ id a b n a' b' n', Spells id a b n → Spells id a' b' n' → a = a' ∧ b = b' ∧ n = n') ∧
    (∀ card : Card, ∀ a b n, Spells card.id a b n → card.category = a) ∧
    ∀ card card' : Card, ∀ a b n a' b' n', Spells card.id a b n → Spells card'.id a' b' n' →
      (card.category = card'.category ↔ a = a') := by
  have hcategory (card : Card) (a b n : String) (h : Spells card.id a b n) : card.category = a :=
    h.category_eq
  refine ⟨fun id => ⟨exists_spells, ?_⟩, ?_, hcategory, ?_⟩
  · rintro ⟨a, b, n, h⟩
    exact h.valid
  · intro id a b n a' b' n' h h'
    exact h.unique h'
  · intro card card' a b n a' b' n' h h'
    rw [hcategory card a b n h, hcategory card' a' b' n' h']

theorem spells_network : Spells "K8S-NET-120" "K8S" "NET" "120" := by
  refine ⟨rfl, isWord_iff.mp ?_, isWord_iff.mp ?_, isNumber_iff.mp ?_⟩ <;> decide

theorem spells_volume : Spells "K8S-V2-007" "K8S" "V2" "007" := by
  refine ⟨rfl, isWord_iff.mp ?_, isWord_iff.mp ?_, isNumber_iff.mp ?_⟩ <;> decide

/-- Two ids of one category, and what is no id for a line break, a foreign digit or a hyphen too many. -/
theorem valid_iff_spells_cluster :
    valid "K8S-NET-120" = true ∧
    Card.category { (default : Card) with id := "K8S-NET-120" } = "K8S" ∧
    Card.category { (default : Card) with id := "K8S-NET-120" } =
      Card.category { (default : Card) with id := "K8S-V2-007" } ∧
    (∀ a b n, Spells "K8S-NET-120" a b n → a = "K8S" ∧ b = "NET" ∧ n = "120") ∧
    ∀ id ∈ ["K8S-NET-120\n", "K8S-NET-12\u0663", "K8S-NET--120"], ¬ ∃ a b n, Spells id a b n := by
  obtain ⟨hvalid, hunique, hcategory, hshared⟩ := valid_iff_spells
  refine ⟨(hvalid _).mpr ⟨_, _, _, spells_network⟩, hcategory _ _ _ _ spells_network, ?_, ?_, ?_⟩
  · exact (hshared _ _ _ _ _ _ _ _ spells_network spells_volume).mpr rfl
  · intro a b n h
    exact hunique _ _ _ _ _ _ _ h spells_network
  · intro id hid hspells
    have hrefused : ∀ id ∈ ["K8S-NET-120\n", "K8S-NET-12\u0663", "K8S-NET--120"], valid id = false := by
      decide
    have haccepted := (hvalid id).mpr hspells
    rw [hrefused id hid] at haccepted
    cases haccepted

end RuleId

end Rulebook
