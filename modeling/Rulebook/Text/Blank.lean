/-!
# Blank characters

The characters of the Unicode property White_Space, and trimming by them.
`trimmed` removes the blanks at both ends and nothing else.
-/

namespace Rulebook.Text

set_option autoImplicit false

def isBlank (c : Char) : Bool :=
  let n := c.toNat
  (0x9 ≤ n && n ≤ 0xd) || n == 0x20 || n == 0x85 || n == 0xa0 || n == 0x1680 ||
    (0x2000 ≤ n && n ≤ 0x200a) || n == 0x2028 || n == 0x2029 || n == 0x202f ||
    n == 0x205f || n == 0x3000

def trimLeft (cs : List Char) : List Char := cs.dropWhile isBlank

def trimRight (cs : List Char) : List Char := (cs.reverse.dropWhile isBlank).reverse

def trim (s : String) : String := String.ofList (trimRight (trimLeft s.toList))

def isBlankText (s : String) : Bool := s.toList.all isBlank

theorem isBlank_of_isWhitespace (c : Char) (h : c.isWhitespace = true) : isBlank c = true := by
  simp only [Char.isWhitespace, Bool.or_eq_true, decide_eq_true_eq] at h
  rcases h with ((rfl | rfl) | rfl) | rfl <;> decide

theorem trimRight_append_self (cs : List Char) :
    ∃ blanks, cs = trimRight cs ++ blanks ∧ blanks.all isBlank = true := by
  refine ⟨(cs.reverse.takeWhile isBlank).reverse, ?_, ?_⟩
  · rw [trimRight, ← List.reverse_append, List.takeWhile_append_dropWhile, List.reverse_reverse]
  · simp [List.all_reverse]

theorem trimLeft_trimLeft (cs : List Char) : trimLeft (trimLeft cs) = trimLeft cs := by
  induction cs with
  | nil => rfl
  | cons c rest ih =>
    cases hc : isBlank c with
    | true =>
      have hrest : trimLeft (c :: rest) = trimLeft rest := List.dropWhile_cons_of_pos hc
      rw [hrest, ih]
    | false =>
      have hself : trimLeft (c :: rest) = c :: rest :=
        List.dropWhile_cons_of_neg (by rw [hc]; exact Bool.false_ne_true)
      rw [hself, hself]

theorem trimRight_trimRight (cs : List Char) : trimRight (trimRight cs) = trimRight cs := by
  have htwice : trimLeft (trimLeft cs.reverse) = trimLeft cs.reverse := trimLeft_trimLeft _
  rw [trimRight, trimRight, List.reverse_reverse]
  exact congrArg List.reverse htwice

/-- What has no blank in front has none there without the blanks behind it. -/
theorem trimLeft_trimRight {cs : List Char} (h : trimLeft cs = cs) :
    trimLeft (trimRight cs) = trimRight cs := by
  obtain ⟨blanks, hcs, -⟩ := trimRight_append_self cs
  cases hright : trimRight cs with
  | nil => rfl
  | cons c rest =>
    rw [hright] at hcs
    cases hc : isBlank c with
    | false => exact List.dropWhile_cons_of_neg (by rw [hc]; exact Bool.false_ne_true)
    | true =>
      have hlength := congrArg List.length h
      rw [hcs, List.cons_append, trimLeft, List.dropWhile_cons_of_pos hc, List.length_cons] at hlength
      have hshort := (List.dropWhile_sublist isBlank (l := rest ++ blanks)).length_le
      omega

theorem trim_trim (s : String) : trim (trim s) = trim s := by
  rw [trim, trim, String.toList_ofList, trimLeft_trimRight (trimLeft_trimLeft _), trimRight_trimRight]

end Rulebook.Text
