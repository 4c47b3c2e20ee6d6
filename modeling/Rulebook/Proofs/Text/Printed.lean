import Rulebook.Decode.Error
import Rulebook.Disk.Error
import Rulebook.Json.Text
import Rulebook.Proofs.Text.Lines

/-!
# What is printed on one line

Numbers, quoted texts and compact JSON have no line breaks, whatever they show: line breaks in the texts
of a JSON value and in quoted texts are written as escapes.
-/

namespace Rulebook

set_option autoImplicit false

/-! ## Numbers -/

theorem break_not_mem_toDigits {base : Nat} (hbase : 1 < base) (n : Nat) :
    '\n' ∉ Nat.toDigits base n := by
  have hdigit (d : Nat) : '\n' ∉ [Nat.digitChar d] := fun h =>
    Nat.digitChar_ne '\n' (by decide) (List.mem_singleton.mp h).symm
  induction n using Nat.strongRecOn with
  | ind n ih =>
    rw [Nat.toDigits_eq_if hbase]
    split
    · exact hdigit n
    · rename_i hlarge
      -- the last digit stands behind those of the quotient
      have hless : n / base < n := Nat.div_lt_self (by omega) hbase
      rw [List.mem_append, not_or]
      exact ⟨ih _ hless, hdigit _⟩

open Text (IsLine isLine_append isLine_ofList)

theorem isLine_toString_nat (n : Nat) : IsLine (toString n) := by
  rw [Nat.toString_eq_ofList_toDigits, isLine_ofList]
  exact break_not_mem_toDigits (by decide) n

theorem isLine_toString_int (n : Int) : IsLine (toString n) := by
  cases n with
  | ofNat n => exact isLine_toString_nat n
  | negSucc n =>
    show IsLine ("-" ++ toString (n + 1))
    exact isLine_append.mpr ⟨by decide, isLine_toString_nat _⟩

namespace RealStyle

variable {style : RealStyle}

theorem break_not_mem_exponentText (e : Int) : '\n' ∉ style.exponentText e := by
  have hdigits : '\n' ∉ Nat.toDigits 10 e.natAbs := break_not_mem_toDigits (by decide) _
  rw [exponentText]
  split
  · simpa using hdigits
  · split <;> simpa using hdigits

theorem break_not_mem_layout {digits : List Char} (h : '\n' ∉ digits) (point : Int) :
    '\n' ∉ style.layout digits point := by
  have htake (n : Nat) : '\n' ∉ digits.take n := fun hmem => h (List.mem_of_mem_take hmem)
  have hdrop (n : Nat) : '\n' ∉ digits.drop n := fun hmem => h (List.mem_of_mem_drop hmem)
  unfold layout
  dsimp only
  split
  · split
    · simp [h]
    · split
      · simp [htake, hdrop]
      · split <;> simp [h]
  · cases digits with
    | nil => exact List.not_mem_nil
    | cons d rest =>
      have hexponent : '\n' ∉ style.exponentText (point - 1) := break_not_mem_exponentText _
      simp only [List.mem_cons, not_or] at h
      split <;> simp_all

theorem isLine_render (d : Double) : IsLine (style.render d) := by
  rw [render, isLine_ofList, List.mem_append, not_or]
  constructor
  · split <;> simp
  · split
    · split <;> simp
    · refine break_not_mem_layout (fun hmem => ?_) _
      rw [withoutTrailingZeros, List.mem_reverse] at hmem
      have hdigits := (List.dropWhile_sublist _).subset hmem
      rw [List.mem_reverse] at hdigits
      exact break_not_mem_toDigits (by decide) _ hdigits

end RealStyle

/-! ## Texts and JSON -/

namespace Text

theorem break_not_mem_shownChar (c : Char) : '\n' ∉ shownChar c := by
  unfold shownChar
  split
  iterate 6 decide
  rename_i hbreak _ _ _
  split
  · have hbraces : '\n' ≠ Char.ofNat 0x7b ∧ '\n' ≠ Char.ofNat 0x7d := by decide
    simp [break_not_mem_toDigits, hbraces]
  · exact fun h => hbreak (List.mem_singleton.mp h).symm

theorem isLine_quoted (s : String) : IsLine (quoted s) := by
  rw [quoted, isLine_ofList]
  simp [break_not_mem_shownChar]

end Text

namespace Json

theorem break_not_mem_hexDigits (width n : Nat) : '\n' ∉ Digest.hexDigits width n := by
  induction width generalizing n with
  | zero => exact List.not_mem_nil
  | succ width ih =>
    rw [Digest.hexDigits, List.mem_append, not_or, List.mem_singleton]
    exact ⟨ih _, (Nat.digitChar_ne '\n' (by decide)).symm⟩

theorem break_not_mem_escapeChar (c : Char) : '\n' ∉ escapeChar c := by
  unfold escapeChar
  split
  iterate 7 decide
  rename_i hbreak _ _
  split
  · simp [break_not_mem_hexDigits]
  · exact fun h => hbreak (List.mem_singleton.mp h).symm

theorem break_not_mem_written (s : String) : '\n' ∉ written s := by
  simp [written, break_not_mem_escapeChar]

theorem break_not_mem_separated {separator : List Char} {parts : List (List Char)}
    (hseparator : '\n' ∉ separator) (hparts : ∀ part ∈ parts, '\n' ∉ part) :
    '\n' ∉ separated separator parts := by
  induction parts with
  | nil => exact List.not_mem_nil
  | cons part rest ih =>
    obtain ⟨hpart, hrest⟩ := List.forall_mem_cons.mp hparts
    cases rest with
    | nil => exact hpart
    | cons next others =>
      rw [separated, List.mem_append, List.mem_append, not_or, not_or]
      exact ⟨⟨hpart, hseparator⟩, ih hrest⟩

mutual

theorem break_not_mem_compactChars : ∀ v : Json, '\n' ∉ compactChars v
  | .null => by decide
  | .bool b => by cases b <;> decide
  | .number (.whole n) => by
    have hdigits : '\n' ∉ Nat.toDigits 10 n.val.natAbs := break_not_mem_toDigits (by decide) _
    rw [compactChars, numberText, wholeText, List.mem_append, not_or]
    refine ⟨?_, hdigits⟩
    split <;> decide
  | .number (.real d) => RealStyle.isLine_render d
  | .string s => break_not_mem_written s
  | .array items => by
    have hitems : '\n' ∉ separated [','] (compactItems items) :=
      break_not_mem_separated (by decide) (break_not_mem_compactItems items)
    simpa [compactChars] using hitems
  | .object members => by
    have hmembers : '\n' ∉ separated [','] (compactMembers members) :=
      break_not_mem_separated (by decide) (break_not_mem_compactMembers members)
    have hbraces : openBrace ≠ '\n' ∧ closeBrace ≠ '\n' := by decide
    simpa [compactChars, hbraces.1.symm, hbraces.2.symm] using hmembers

theorem break_not_mem_compactItems : ∀ items : List Json, ∀ part ∈ compactItems items, '\n' ∉ part
  | [] => List.forall_mem_nil _
  | v :: rest => List.forall_mem_cons.mpr ⟨break_not_mem_compactChars v, break_not_mem_compactItems rest⟩

theorem break_not_mem_compactMembers :
    ∀ members : List (String × Json), ∀ part ∈ compactMembers members, '\n' ∉ part
  | [] => List.forall_mem_nil _
  | (k, v) :: rest => by
    have hmember : '\n' ∉ written k ++ ':' :: compactChars v := by
      simp [break_not_mem_written, break_not_mem_compactChars v]
    exact List.forall_mem_cons.mpr ⟨hmember, break_not_mem_compactMembers rest⟩

end

theorem isLine_compact (v : Json) : IsLine v.compact :=
  isLine_ofList.mpr (break_not_mem_compactChars v)

theorem Fault.isLine_message (fault : Fault) : IsLine fault.message := by
  cases fault <;> decide

end Json

theorem DiskError.isLine_message (e : DiskError) : IsLine e.message := by
  cases e <;> decide

end Rulebook
