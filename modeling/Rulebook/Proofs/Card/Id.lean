import Rulebook.Card.Id

/-!
# The characters of rule ids

A well-formed rule id is spelled with capital letters, digits and hyphens only. The category of any
id is what comes before its first hyphen.
-/

namespace Rulebook

set_option autoImplicit false

variable {separator c : Char} {cs piece : List Char}

theorem mem_pieces_of_mem (h : c ∈ cs) : c = separator ∨ ∃ piece ∈ pieces separator cs, c ∈ piece := by
  induction cs with
  | nil => cases h
  | cons first rest ih =>
    rw [pieces]
    split
    · rename_i heq
      rcases List.mem_cons.mp h with rfl | hrest
      · exact .inl heq
      · refine (ih hrest).imp_right ?_
        rintro ⟨piece, hpiece, hc⟩
        exact ⟨piece, List.mem_cons_of_mem _ hpiece, hc⟩
    · rcases List.mem_cons.mp h with rfl | hrest
      · right
        split
        · exact ⟨_, List.mem_cons_self, List.mem_cons_self⟩
        · exact ⟨_, List.mem_cons_self, List.mem_cons_self⟩
      · refine (ih hrest).imp_right ?_
        rintro ⟨piece, hpiece, hc⟩
        split
        · rename_i hnone
          rw [hnone] at hpiece
          cases hpiece
        · rename_i front others hpieces
          rw [hpieces] at hpiece
          rcases List.mem_cons.mp hpiece with rfl | hpiece
          · exact ⟨_, List.mem_cons_self, List.mem_cons_of_mem _ hc⟩
          · exact ⟨piece, List.mem_cons_of_mem _ hpiece, hc⟩

theorem headD_pieces (separator : Char) (cs : List Char) :
    (pieces separator cs).headD [] = cs.takeWhile (· != separator) := by
  induction cs with
  | nil => rfl
  | cons c rest ih =>
    rw [pieces]
    split
    · rename_i hsame
      simp [hsame]
    · rename_i hother
      rw [List.takeWhile_cons_of_pos (by simpa using hother), ← ih]
      cases pieces separator rest <;> rfl

namespace RuleId

variable {id : String}

theorem isWordTail_of_isWord (h : isWord piece = true) (hc : c ∈ piece) : isWordTail c = true := by
  cases piece with
  | nil => cases hc
  | cons first rest =>
    rw [isWord, Bool.and_eq_true, List.all_eq_true] at h
    rcases List.mem_cons.mp hc with rfl | hc
    · rw [isWordTail, h.1, Bool.true_or]
    · exact h.2 c hc

theorem isWordTail_of_isNumber (h : isNumber piece = true) (hc : c ∈ piece) : isWordTail c = true := by
  rw [isNumber, Bool.and_eq_true, List.all_eq_true] at h
  rw [isWordTail, h.2 c hc, Bool.or_true]

theorem mem_of_valid (h : valid id = true) (hc : c ∈ id.toList) : c = '-' ∨ isWordTail c = true := by
  refine (mem_pieces_of_mem hc).imp_right ?_
  rintro ⟨piece, hpiece, hmem⟩
  rw [valid] at h
  split at h
  · rename_i category subcategory number hpieces
    simp only [Bool.and_eq_true] at h
    obtain ⟨⟨hcategory, hsubcategory⟩, hnumber⟩ := h
    rw [hpieces] at hpiece
    simp only [List.mem_cons, List.not_mem_nil, or_false] at hpiece
    rcases hpiece with rfl | rfl | rfl
    · exact isWordTail_of_isWord hcategory hmem
    · exact isWordTail_of_isWord hsubcategory hmem
    · exact isWordTail_of_isNumber hnumber hmem
  · cases h

theorem toList_category (id : String) : (category id).toList = id.toList.takeWhile (· != '-') := by
  rw [category, String.toList_ofList, headD_pieces]

end RuleId

end Rulebook
