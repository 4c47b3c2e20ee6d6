import Rulebook.Proofs.Json.Form

/-!
# Every text has pieces

A text that the reader takes to its end is put together from tokens, lists, tables and blanks.
-/

namespace Rulebook.Json.Form

set_option autoImplicit false

theorem exists_blanks (cs : List Char) :
    ∃ blanks, cs = blanks ++ skipBlank cs ∧ ∀ c ∈ blanks, isBlank c = true :=
  ⟨cs.takeWhile isBlank, List.takeWhile_append_dropWhile.symm, fun _ hc => List.mem_takeWhile_imp hc⟩

/-- Blanks and the end of an empty list, or items up to the end of the list. -/
def ItemsIn (cs : List Char) (first : Bool) (rest : List Char) : Prop :=
  (first = true ∧ ∃ gap, (∀ c ∈ gap, isBlank c = true) ∧ cs = gap ++ ']' :: rest) ∨
    ∃ f items, AreSound (f :: items) ∧ cs = separated [','] (pieces (f :: items)) ++ ']' :: rest

def MembersIn (cs : List Char) (first : Bool) (rest : List Char) : Prop :=
  (first = true ∧ ∃ gap, (∀ c ∈ gap, isBlank c = true) ∧ cs = gap ++ closeBrace :: rest) ∨
    ∃ member members, MembersSound (member :: members) ∧
      cs = separated [','] (memberPieces (member :: members)) ++ closeBrace :: rest

theorem exists_name {cs quoted behind text : List Char} {s : Source}
    (hquote : skipBlank cs = '"' :: quoted) (hname : readString quoted = (s, .ok behind))
    (hcolon : skipBlank behind = ':' :: text) :
    ∃ name : Name, name.IsSound ∧ cs = name.chars ++ ':' :: text := by
  obtain ⟨left, hleft, hleftBlank⟩ := exists_blanks cs
  obtain ⟨right, hright, hrightBlank⟩ := exists_blanks behind
  obtain ⟨-, taken, rfl, hmore⟩ := readString_split hname
  obtain ⟨s', hwhole, -⟩ := hmore []
  rw [List.append_nil] at hwhole
  refine ⟨⟨left, '"' :: taken, right⟩, ⟨hleftBlank, ⟨by simp [isBlank], ?_⟩, rfl, hrightBlank⟩, ?_⟩
  · exact congrArg Prod.snd hwhole
  · rw [hleft, hquote, Name.chars]
    conv_lhs => rw [hright, hcolon]
    simp

mutual

theorem exists_form (fuel depth : Nat) (cs rest : List Char) (s : Source)
    (h : readValue fuel depth cs = (s, .ok rest)) : ∃ f : Form, f.IsSound ∧ cs = f.chars ++ rest := by
  cases fuel with
  | zero => cases h
  | succ fuel =>
    -- the blanks in front are found first, whatever the value turns out to be
    obtain ⟨blanks, hblanks, hblank⟩ := exists_blanks cs
    obtain ⟨c, text, htext, -⟩ := readValue_start h
    have hpadded {f : Form} (hf : f.IsSound) (hchars : c :: text = f.chars ++ rest) :
        ∃ f : Form, f.IsSound ∧ cs = f.chars ++ rest := by
      refine ⟨.padded blanks f [], ⟨hblank, hf, by simp⟩, ?_⟩
      rw [hblanks, htext, hchars, chars, List.append_nil, List.append_assoc]
    rw [readValue_at htext] at h
    by_cases hlist : c = '['
    · subst hlist
      have hitems : readItems fuel (depth + 1) true text =
          ((readItems fuel (depth + 1) true text).1, .ok rest) := by
        rw [readValue, skipBlank_cons (by decide)] at h
        exact Prod.ext rfl (Prod.mk.inj h).2
      rcases exists_items fuel (depth + 1) true text rest _ hitems with
        ⟨-, gap, hgap, rfl⟩ | ⟨f, items, hf, rfl⟩
      · exact hpadded (f := .list gap []) ⟨hgap, trivial⟩ (by simp [chars, pieces, separated])
      · exact hpadded (f := .list [] (f :: items)) ⟨by simp, hf⟩ (by simp [chars])
    · by_cases htable : c = openBrace
      · subst htable
        have hmembers : readMembers fuel (depth + 1) true text =
            ((readMembers fuel (depth + 1) true text).1, .ok rest) := by
          have hskip : skipBlank (openBrace :: text) = openBrace :: text := skipBlank_cons (by decide) _
          rw [readValue, hskip] at h
          exact Prod.ext rfl (Prod.mk.inj h).2
        rcases exists_members fuel (depth + 1) true text rest _ hmembers with
          ⟨-, gap, hgap, rfl⟩ | ⟨member, members, hf, rfl⟩
        · exact hpadded (f := .table gap []) ⟨hgap, trivial⟩ (by simp [chars, memberPieces, separated])
        · exact hpadded (f := .table [] (member :: members)) ⟨by simp, hf⟩ (by simp [chars])
      · have hnotBlank := isBlank_of_skipBlank htext
        obtain ⟨-, taken, rfl, hreads⟩ := readValue_split hlist htable hnotBlank h
        exact hpadded (f := .token (c :: taken)) (hreads.isToken hnotBlank).1 rfl
termination_by fuel

theorem exists_items (fuel depth : Nat) (first : Bool) (cs rest : List Char) (sources : List Source)
    (h : readItems fuel depth first cs = (sources, .ok rest)) : ItemsIn cs first rest := by
  cases fuel with
  | zero => cases h
  | succ fuel =>
    obtain ⟨blanks, hblanks, hblank⟩ := exists_blanks cs
    rw [readItems] at h
    split at h
    · cases h
    · rename_i text htext
      cases first with
      | false => cases h
      | true =>
        cases h
        exact .inl ⟨rfl, blanks, hblank, by rw [hblanks, htext]⟩
    · split at h
      · cases h
      · rename_i v after hv
        obtain ⟨f, hf, hchars⟩ := exists_form fuel depth _ after v hv
        obtain ⟨right, hright, hrightBlank⟩ := exists_blanks after
        -- blanks on both sides go with the item, so that only commas are left between items
        have hsound : (Form.padded blanks f right).IsSound := ⟨hblank, hf, hrightBlank⟩
        have hcs : cs = (Form.padded blanks f right).chars ++ skipBlank after := by
          rw [hblanks, hchars, chars]
          conv_lhs => rw [hright]
          simp
        split at h
        · rename_i next hnext
          cases hmore : readItems fuel depth false next with
          | mk items after' =>
            rw [hmore] at h
            cases h
            rcases exists_items fuel depth false next rest items hmore with
              ⟨hfirst, -⟩ | ⟨g, others, hothers, rfl⟩
            · cases hfirst
            · refine .inr ⟨_, g :: others, ⟨hsound, hothers⟩, ?_⟩
              rw [hcs, hnext]
              simp [pieces, separated]
        · rename_i hend
          cases h
          exact .inr ⟨_, [], ⟨hsound, trivial⟩, by rw [hcs, hend]; rfl⟩
        · cases h
termination_by fuel

theorem exists_members (fuel depth : Nat) (first : Bool) (cs rest : List Char)
    (sources : List (Source × Source)) (h : readMembers fuel depth first cs = (sources, .ok rest)) :
    MembersIn cs first rest := by
  cases fuel with
  | zero => cases h
  | succ fuel =>
    obtain ⟨blanks, hblanks, hblank⟩ := exists_blanks cs
    rw [readMembers] at h
    split at h
    · cases h
    · rename_i text htext
      cases first with
      | false => cases h
      | true =>
        cases h
        exact .inl ⟨rfl, blanks, hblank, by rw [hblanks, htext]; rfl⟩
    · rename_i quoted hquote
      split at h
      · cases h
      · rename_i key behind hname
        split at h
        · rename_i text hcolon
          obtain ⟨name, hsound, hcs⟩ := exists_name hquote hname hcolon
          split at h
          · cases h
          · rename_i v after hv
            obtain ⟨f, hf, rfl⟩ := exists_form fuel depth text after v hv
            obtain ⟨right, hright, hrightBlank⟩ := exists_blanks after
            -- those in front of the name went with the name
            have hpadded : (Form.padded [] f right).IsSound := ⟨by simp, hf, hrightBlank⟩
            have hmember : cs =
                (name.chars ++ ':' :: (Form.padded [] f right).chars) ++ skipBlank after := by
              rw [hcs, chars]
              conv_lhs => rw [hright]
              simp
            split at h
            · rename_i next hnext
              cases hmore : readMembers fuel depth false next with
              | mk members after' =>
                rw [hmore] at h
                cases h
                rcases exists_members fuel depth false next rest members hmore with
                  ⟨hfirst, -⟩ | ⟨other, others, hothers, rfl⟩
                · cases hfirst
                · refine .inr ⟨(name, _), other :: others, ⟨hsound, hpadded, hothers⟩, ?_⟩
                  obtain ⟨name', g⟩ := other
                  rw [hmember, hnext]
                  simp [memberPieces, separated]
            · rename_i hend
              cases h
              refine .inr ⟨(name, _), [], ⟨hsound, hpadded, trivial⟩, ?_⟩
              rw [hmember, hend]
              simp [memberPieces, separated, closeBrace]
            · cases h
        · cases h
    · cases h
termination_by fuel

end

/-- What is read to its end is the text of a form. -/
theorem exists_of_read {text : String} (h : (read text).flaw = none) :
    ∃ f : Form, f.IsSound ∧ f.text = text := by
  rw [read] at h
  split at h
  · cases h
  · rename_i s tail hread
    split at h
    · rename_i hend
      obtain ⟨f, hf, hchars⟩ := exists_form _ _ _ _ _ hread
      obtain ⟨right, hright, hrightBlank⟩ := exists_blanks tail
      refine ⟨.padded [] f right, ⟨by simp, hf, hrightBlank⟩, ?_⟩
      rw [hend, List.append_nil] at hright
      rw [Form.text, chars, List.nil_append, ← hright, ← hchars, String.ofList_toList]
    · cases h

end Rulebook.Json.Form
