import Mathlib.Algebra.Order.Field.Basic
import Mathlib.Algebra.Order.Field.Rat
import Mathlib.Data.Char
import Mathlib.Data.Nat.Cast.Order.Ring
import Mathlib.Tactic.FieldSimp
import Mathlib.Tactic.Linarith
import Mathlib.Tactic.Positivity
import Rulebook.Calendar.Timestamp

/-!
# Numbers in digits

Digits are read as the number they were written for, and only one row of digits of a length has a number.
The order of texts compares rows of digits as decimal fractions, and a row with its own beginning by length.
-/

namespace Rulebook.Calendar

set_option autoImplicit false

def AreDigits (cs : List Char) : Prop := ∀ c ∈ cs, c.isDigit = true

instance : DecidablePred AreDigits := fun cs => List.decidableBAll (fun c : Char => c.isDigit = true) cs

variable {as bs cs : List Char}

theorem areDigits_cons {c : Char} : AreDigits (c :: cs) ↔ c.isDigit = true ∧ AreDigits cs :=
  List.forall_mem_cons

theorem areDigits_append : AreDigits (as ++ bs) ↔ AreDigits as ∧ AreDigits bs :=
  List.forall_mem_append

/-! ## Numbers -/

theorem number_eq (cs : List Char) : number cs = Nat.ofDigitChars 10 cs 0 := by
  have hfold (start : Nat) : cs.foldl (fun n c => n * 10 + (c.toNat - '0'.toNat)) start =
      Nat.ofDigitChars 10 cs start := by
    induction cs generalizing start with
    | nil => rfl
    | cons c cs ih => rw [List.foldl_cons, ih, Nat.ofDigitChars_cons, Nat.mul_comm]
  exact hfold 0

theorem number_append (as bs : List Char) :
    number (as ++ bs) = number as * 10 ^ bs.length + number bs := by
  rw [number_eq, number_eq, number_eq, Nat.ofDigitChars_append, Nat.ofDigitChars_eq_ofDigitChars_zero,
    Nat.mul_comm]

theorem number_cons (c : Char) (cs : List Char) :
    number (c :: cs) = (c.toNat - '0'.toNat) * 10 ^ cs.length + number cs := by
  have hone : number [c] = c.toNat - '0'.toNat := Nat.zero_add _
  rw [← List.singleton_append, number_append, hone]

theorem digit_bounds {c : Char} (h : c.isDigit = true) : 48 ≤ c.toNat ∧ c.toNat ≤ 57 :=
  Char.isDigit_iff_toNat.mp h

theorem number_lt (h : AreDigits cs) : number cs < 10 ^ cs.length := by
  induction cs with
  | nil => decide
  | cons c cs ih =>
    obtain ⟨hc, hcs⟩ := areDigits_cons.mp h
    have hdigit : c.toNat - '0'.toNat ≤ 9 := by
      have hbounds := digit_bounds hc
      change c.toNat - 48 ≤ 9
      omega
    have hmul := Nat.mul_le_mul_right (10 ^ cs.length) hdigit
    have hrest := ih hcs
    rw [number_cons, List.length_cons, Nat.pow_succ]
    omega

/-! ## The order of texts -/

/-- The digits as those behind a decimal point. -/
def fraction : List Char → ℚ
  | [] => 0
  | c :: cs => ((c.toNat - '0'.toNat : Nat) + fraction cs) / 10

theorem fraction_eq (cs : List Char) : fraction cs = number cs / 10 ^ cs.length := by
  induction cs with
  | nil => simp [fraction, number]
  | cons c cs ih =>
    rw [fraction, ih, number_cons, List.length_cons, pow_succ]
    push_cast
    field_simp

theorem fraction_nonneg (cs : List Char) : 0 ≤ fraction cs := by
  rw [fraction_eq]
  positivity

theorem fraction_lt_one (h : AreDigits cs) : fraction cs < 1 := by
  rw [fraction_eq, div_lt_one (by positivity)]
  exact_mod_cast number_lt h

theorem fraction_lt_of_number_lt (hlength : as.length = bs.length) (h : number as < number bs) :
    fraction as < fraction bs := by
  rw [fraction_eq, fraction_eq, hlength]
  exact div_lt_div_of_pos_right (by exact_mod_cast h) (by positivity)

theorem lt_iff_fraction_lt (has : AreDigits as) (hbs : AreDigits bs) :
    as < bs ↔ fraction as < fraction bs ∨ fraction as = fraction bs ∧ as.length < bs.length := by
  induction as generalizing bs with
  | nil =>
    cases bs with
    | nil => simp
    | cons b bs => simpa [fraction.eq_1] using lt_or_eq_of_le (fraction_nonneg (b :: bs))
  | cons a as ih =>
    cases bs with
    | nil => simpa [fraction.eq_1] using fraction_nonneg (a :: as)
    | cons b bs =>
      obtain ⟨ha, harest⟩ := areDigits_cons.mp has
      obtain ⟨hb, hbrest⟩ := areDigits_cons.mp hbs
      have hapart {c d : Char} {cs : List Char} (ds : List Char) (hc : c.isDigit = true)
          (hcs : AreDigits cs) (hlt : c < d) : fraction (c :: cs) < fraction (d :: ds) := by
        have hdigits : c.toNat - '0'.toNat + 1 ≤ d.toNat - '0'.toNat := by
          have hbounds := digit_bounds hc
          have hnat : c.toNat < d.toNat := hlt
          change c.toNat - 48 + 1 ≤ d.toNat - 48
          omega
        have hcast : ((c.toNat - '0'.toNat : Nat) : ℚ) + 1 ≤ (d.toNat - '0'.toNat : Nat) := by
          exact_mod_cast hdigits
        have hlow := fraction_nonneg ds
        have hhigh := fraction_lt_one hcs
        rw [fraction, fraction]
        linarith
      rw [List.cons_lt_cons_iff]
      rcases lt_trichotomy a b with hlt | rfl | hlt
      · exact iff_of_true (.inl hlt) (.inl (hapart bs ha harest hlt))
      · have hsame : fraction (a :: as) < fraction (a :: bs) ↔ fraction as < fraction bs := by
          rw [fraction, fraction, div_lt_div_iff_of_pos_right (by norm_num), add_lt_add_iff_left]
        have hsame' : fraction (a :: as) = fraction (a :: bs) ↔ fraction as = fraction bs := by
          rw [fraction, fraction, div_left_inj' (by norm_num), add_right_inj]
        rw [hsame, hsame', ih harest hbrest, List.length_cons, List.length_cons, Nat.succ_lt_succ_iff]
        simp
      · have hgt := hapart as hb hbrest hlt
        refine iff_of_false ?_ ?_
        · rintro (h | ⟨rfl, -⟩)
          · exact lt_asymm h hlt
          · exact lt_irrefl _ hlt
        · rintro (h | ⟨h, -⟩) <;> linarith

theorem eq_of_number_eq (has : AreDigits as) (hbs : AreDigits bs) (hlength : as.length = bs.length)
    (h : number as = number bs) : as = bs := by
  have hfraction : fraction as = fraction bs := by rw [fraction_eq, fraction_eq, h, hlength]
  apply List.le_antisymm
  · intro hlt
    rw [lt_iff_fraction_lt hbs has, hfraction, hlength] at hlt
    simp at hlt
  · intro hlt
    rw [lt_iff_fraction_lt has hbs, hfraction, hlength] at hlt
    simp at hlt

/-! ## Padded numbers -/

theorem areDigits_padded (width n : Nat) : AreDigits (padded width n) := by
  rw [padded]
  apply areDigits_append.mpr
  constructor
  · intro c hc
    rw [List.eq_of_mem_replicate hc]
    decide
  · exact fun c hc => Nat.isDigit_of_mem_toDigits (by decide) (by decide) hc

theorem number_padded (width n : Nat) : number (padded width n) = n := by
  have hzeros (k : Nat) : number (List.replicate k '0') = 0 := by
    induction k with
    | zero => rfl
    | succ k ih =>
      rw [List.replicate_succ, number_cons, ih, Nat.sub_self, Nat.zero_mul]
  rw [padded, number_append, hzeros, Nat.zero_mul, Nat.zero_add, number_eq,
    Nat.ofDigitChars_ten_toDigits]

theorem length_padded {width n : Nat} (hwidth : 0 < width) (h : n < 10 ^ width) :
    (padded width n).length = width := by
  have hle := (Nat.length_toDigits_le_iff (b := 10) (by decide) hwidth).mpr h
  rw [padded]
  simp only [List.length_append, List.length_replicate]
  omega

theorem length_padded_mono (width : Nat) {m n : Nat} (h : m ≤ n) :
    (padded width m).length ≤ (padded width n).length := by
  have hpos : 0 < (Nat.toDigits 10 n).length := List.length_pos_iff.mpr Nat.toDigits_ne_nil
  have hlt := (Nat.length_toDigits_le_iff (b := 10) (by decide) hpos).mp (Nat.le_refl _)
  have hle := (Nat.length_toDigits_le_iff (b := 10) (by decide) hpos).mpr (Nat.lt_of_le_of_lt h hlt)
  rw [padded, padded]
  simp only [List.length_append, List.length_replicate]
  omega

theorem yearText_of_fourDigits {year : Int} (hlow : 0 ≤ year) (hhigh : year ≤ 9999) :
    yearText year = padded 4 year.natAbs := by
  rw [yearText, if_neg (Int.not_lt.mpr hlow), if_neg (Int.not_lt.mpr hhigh)]

theorem eq_padded (h : AreDigits cs) (hcs : cs ≠ []) : cs = padded cs.length (number cs) := by
  have hlength := length_padded (List.length_pos_iff.mpr hcs) (number_lt h)
  exact eq_of_number_eq h (areDigits_padded _ _) hlength.symm (number_padded _ _).symm

end Rulebook.Calendar
