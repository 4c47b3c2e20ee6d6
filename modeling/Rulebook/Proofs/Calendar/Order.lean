import Rulebook.Proofs.Calendar.Date
import Rulebook.Proofs.Calendar.Digits

/-!
# The order of written times

No two times have the same digits. Up to the year 9999 the digits are in the order of time. The signs come
before all digits, and the plus before the minus, so a later year moves to the front once it is written with
a sign; between two years of one sign the digits are compared like decimal fractions.
-/

namespace Rulebook.Calendar

set_option autoImplicit false

namespace DateTime

def sign (t : DateTime) : List Char :=
  if t.date.year < 0 then ['-'] else if 9999 < t.date.year then ['+'] else []

/-- The digits of a time without the sign. -/
def numerals (t : DateTime) : List Char :=
  padded 4 t.date.year.natAbs ++ (padded 2 t.date.month ++ (padded 2 t.date.day ++
    (padded 2 t.hour ++ (padded 2 t.minute ++ padded 2 t.second))))

def withinYear (t : DateTime) : Nat :=
  (((t.date.month * 100 + t.date.day) * 100 + t.hour) * 100 + t.minute) * 100 + t.second

/-- When the digits of the earlier of two times come first. -/
inductive InOrder (a b : DateTime) : Prop
  | fourDigits : 0 ≤ b.date.year → b.date.year ≤ 9999 → InOrder a b
  | late : 9999 < a.date.year → fraction a.numerals ≤ fraction b.numerals → InOrder a b
  | early : b.date.year < 0 → fraction a.numerals < fraction b.numerals → InOrder a b

variable {t a b : DateTime}

theorem sign_of_neg (h : t.date.year < 0) : t.sign = ['-'] := if_pos h

theorem sign_of_large (h : 9999 < t.date.year) : t.sign = ['+'] := by
  rw [sign, if_neg (by omega), if_pos h]

theorem sign_of_fourDigits (hlow : 0 ≤ t.date.year) (hhigh : t.date.year ≤ 9999) : t.sign = [] := by
  rw [sign, if_neg (Int.not_lt.mpr hlow), if_neg (Int.not_lt.mpr hhigh)]

theorem toList_digits (t : DateTime) : t.digits.toList = t.sign ++ t.numerals := by
  have hyear : yearText t.date.year = t.sign ++ padded 4 t.date.year.natAbs := by
    rw [yearText, sign]
    split
    · rfl
    · split <;> rfl
  rw [digits, String.toList_ofList, hyear, numerals]
  simp only [List.append_assoc]

theorem areDigits_numerals (t : DateTime) : AreDigits t.numerals := by
  simp only [numerals, areDigits_append, areDigits_padded, and_self]

theorem length_rest (h : t.IsValid) : (padded 2 t.date.month ++ (padded 2 t.date.day ++
    (padded 2 t.hour ++ (padded 2 t.minute ++ padded 2 t.second)))).length = 10 := by
  obtain ⟨hdate, hhour, hminute, hsecond⟩ := h
  have hmonth := (Date.valid_iff.mp hdate).2.1
  have hday := Date.day_le hdate
  simp only [List.length_append]
  rw [length_padded (by decide) (by omega), length_padded (by decide) (by omega),
    length_padded (by decide) (by omega), length_padded (by decide) (by omega),
    length_padded (by decide) (by omega)]

theorem length_numerals (h : t.IsValid) :
    t.numerals.length = (padded 4 t.date.year.natAbs).length + 10 := by
  rw [numerals, List.length_append, length_rest h]

theorem withinYear_lt (h : t.IsValid) : t.withinYear < 10 ^ 10 := by
  obtain ⟨hdate, hhour, hminute, hsecond⟩ := h
  have hmonth := (Date.valid_iff.mp hdate).2.1
  have hday := Date.day_le hdate
  rw [withinYear]
  omega

theorem number_numerals (h : t.IsValid) :
    number t.numerals = t.date.year.natAbs * 10 ^ 10 + t.withinYear := by
  have hlength := length_rest h
  obtain ⟨hdate, hhour, hminute, hsecond⟩ := h
  have hday := Date.day_le hdate
  rw [numerals, number_append, hlength, number_padded, withinYear]
  simp only [number_append, number_padded, List.length_append]
  rw [length_padded (by decide) (by omega), length_padded (by decide) (by omega),
    length_padded (by decide) (by omega), length_padded (by decide) (by omega)]
  omega

theorem before_iff (ha : a.IsValid) (hb : b.IsValid) : a.Before b ↔ a.date.year < b.date.year ∨
    a.date.year = b.date.year ∧ a.withinYear < b.withinYear := by
  have hday := Date.day_le ha.date
  have hday' := Date.day_le hb.date
  obtain ⟨-, hhour, hminute, hsecond⟩ := ha
  obtain ⟨-, hhour', hminute', hsecond'⟩ := hb
  have hdate : a.date = b.date ↔ a.date.year = b.date.year ∧ a.date.month = b.date.month ∧
      a.date.day = b.date.day := by
    cases a.date
    cases b.date
    simp
  rw [Before, Date.Before, hdate, withinYear, withinYear]
  omega

theorem year_le_of_before (h : a.Before b) : a.date.year ≤ b.date.year := by
  rcases h with (hlt | ⟨heq, -⟩) | ⟨heq, -⟩
  · exact Int.le_of_lt hlt
  · exact Int.le_of_eq heq
  · rw [heq]

/-! ## Equal digits -/

theorem filter_digits (t : DateTime) : t.digits.toList.filter Char.isDigit = t.numerals := by
  have hnumerals : t.numerals.filter Char.isDigit = t.numerals :=
    List.filter_eq_self.mpr (areDigits_numerals t)
  have hsign : t.sign.filter Char.isDigit = [] := by
    rw [sign]
    split
    · rfl
    · split <;> rfl
  rw [toList_digits, List.filter_append, hsign, hnumerals, List.nil_append]

theorem neg_iff_of_sign_eq (h : a.sign = b.sign) : a.date.year < 0 ↔ b.date.year < 0 := by
  have hminus (t : DateTime) : t.date.year < 0 ↔ t.sign = ['-'] := by
    rw [sign]
    split
    · rename_i hneg
      exact iff_of_true hneg rfl
    · rename_i hneg
      apply iff_of_false hneg
      split <;> decide
  rw [hminus a, hminus b, h]

theorem digits_inj (ha : a.IsValid) (hb : b.IsValid) : a.digits = b.digits ↔ a = b := by
  constructor
  · intro h
    have hnumerals : a.numerals = b.numerals := by
      rw [← filter_digits, ← filter_digits, h]
    have hsign : a.sign = b.sign := by
      have hlist := congrArg String.toList h
      rw [toList_digits, toList_digits, hnumerals] at hlist
      exact List.append_cancel_right hlist
    have hnumber := congrArg number hnumerals
    have hneg := neg_iff_of_sign_eq hsign
    have hwithin := withinYear_lt ha
    have hwithin' := withinYear_lt hb
    rw [number_numerals ha, number_numerals hb] at hnumber
    have hyear : a.date.year = b.date.year ∧ a.withinYear = b.withinYear := by omega
    rcases before_or_eq a b with hlt | heq | hlt
    · have hbefore := (before_iff ha hb).mp hlt
      omega
    · exact heq
    · have hbefore := (before_iff hb ha).mp hlt
      omega
  · rintro rfl
    rfl

/-! ## Digits in order -/

theorem number_lt_of_before (ha : a.IsValid) (hb : b.IsValid) (hyear : 0 ≤ a.date.year)
    (h : a.Before b) : number a.numerals < number b.numerals := by
  have hwithin := withinYear_lt ha
  have hbefore := (before_iff ha hb).mp h
  rw [number_numerals ha, number_numerals hb]
  omega

theorem cons_lt_numerals {c : Char} (hc : c ∈ ['+', '-']) (cs : List Char) (h : t.IsValid) :
    c :: cs < t.numerals := by
  have hlow : c.toNat < 48 := by
    rcases List.mem_pair.mp hc with rfl | rfl <;> decide
  have hlength := length_numerals h
  have hdigits := areDigits_numerals t
  cases hnumerals : t.numerals with
  | nil =>
    rw [hnumerals] at hlength
    cases hlength
  | cons d ds =>
    rw [hnumerals] at hdigits
    apply List.cons_lt_cons_iff.mpr
    left
    change c.toNat < d.toNat
    exact Nat.lt_of_lt_of_le hlow (digit_bounds (areDigits_cons.mp hdigits).1).1

theorem digits_lt_iff_of_sign_eq (h : a.sign = b.sign) : a.digits < b.digits ↔
    fraction a.numerals < fraction b.numerals ∨
      fraction a.numerals = fraction b.numerals ∧ a.numerals.length < b.numerals.length := by
  rw [← lt_iff_fraction_lt (areDigits_numerals a) (areDigits_numerals b), String.lt_iff, toList_digits,
    toList_digits, h]
  induction b.sign with
  | nil => rfl
  | cons c cs ih => simpa [List.cons_lt_cons_iff] using ih

theorem fraction_lt_of_before (ha : a.IsValid) (hb : b.IsValid) (hyear : 0 ≤ a.date.year)
    (h : a.Before b) (hlength : a.numerals.length = b.numerals.length) :
    fraction a.numerals < fraction b.numerals :=
  fraction_lt_of_number_lt hlength (number_lt_of_before ha hb hyear h)

theorem digits_lt_of_fourDigits (ha : a.IsValid) (hb : b.IsValid) (h : a.Before b)
    (hlow : 0 ≤ b.date.year) (hhigh : b.date.year ≤ 9999) : a.digits < b.digits := by
  have hyear := year_le_of_before h
  rcases Int.lt_or_le a.date.year 0 with hneg | hnonneg
  · rw [String.lt_iff, toList_digits, toList_digits, sign_of_neg hneg, sign_of_fourDigits hlow hhigh]
    exact cons_lt_numerals (by decide) _ hb
  · have hsign : a.sign = b.sign := by
      rw [sign_of_fourDigits hnonneg (by omega), sign_of_fourDigits hlow hhigh]
    have hlength : a.numerals.length = b.numerals.length := by
      rw [length_numerals ha, length_numerals hb, length_padded (by decide) (by omega),
        length_padded (by decide) (by omega)]
    apply (digits_lt_iff_of_sign_eq hsign).mpr
    exact .inl (fraction_lt_of_before ha hb hnonneg h hlength)

theorem not_digits_lt_of_plus (ha : a.IsValid) (hlow : a.date.year ≤ 9999)
    (hhigh : 9999 < b.date.year) : ¬ a.digits < b.digits := by
  -- the plus of the later year comes before whatever the earlier one begins with
  have hgt : '+' :: b.numerals < a.sign ++ a.numerals := by
    rcases Int.lt_or_le a.date.year 0 with hneg | hnonneg
    · rw [sign_of_neg hneg]
      exact List.cons_lt_cons_iff.mpr (.inl (by decide))
    · rw [sign_of_fourDigits hnonneg hlow]
      exact cons_lt_numerals (by decide) _ ha
  rw [String.lt_iff, toList_digits, toList_digits, sign_of_large hhigh]
  exact lt_asymm hgt

theorem digits_lt_iff_late (ha : a.IsValid) (hb : b.IsValid) (h : a.Before b)
    (hlate : 9999 < a.date.year) :
    a.digits < b.digits ↔ fraction a.numerals ≤ fraction b.numerals := by
  have hyear := year_le_of_before h
  have hlonger := length_padded_mono 4 (show a.date.year.natAbs ≤ b.date.year.natAbs by omega)
  have hlength := length_numerals ha
  have hlength' := length_numerals hb
  have hsign : a.sign = b.sign := by rw [sign_of_large hlate, sign_of_large (by omega)]
  rw [digits_lt_iff_of_sign_eq hsign]
  constructor
  · rintro (hlt | ⟨heq, -⟩)
    · exact le_of_lt hlt
    · exact le_of_eq heq
  · intro hle
    rcases Nat.lt_or_ge a.numerals.length b.numerals.length with hlt | hge
    · rcases lt_or_eq_of_le hle with hfraction | hfraction
      · exact .inl hfraction
      · exact .inr ⟨hfraction, hlt⟩
    · exact .inl (fraction_lt_of_before ha hb (by omega) h (by omega))

theorem digits_lt_iff_early (ha : a.IsValid) (hb : b.IsValid) (h : a.Before b)
    (hearly : b.date.year < 0) :
    a.digits < b.digits ↔ fraction a.numerals < fraction b.numerals := by
  have hyear := year_le_of_before h
  have hshorter := length_padded_mono 4 (show b.date.year.natAbs ≤ a.date.year.natAbs by omega)
  have hlength := length_numerals ha
  have hlength' := length_numerals hb
  have hsign : a.sign = b.sign := by rw [sign_of_neg (by omega), sign_of_neg hearly]
  rw [digits_lt_iff_of_sign_eq hsign]
  apply or_iff_left
  omega

theorem digits_lt_iff (ha : a.IsValid) (hb : b.IsValid) (h : a.Before b) :
    a.digits < b.digits ↔ InOrder a b := by
  have hyear := year_le_of_before h
  constructor
  · intro hlt
    rcases Int.lt_or_le b.date.year 0 with hearly | hlow
    · exact .early hearly ((digits_lt_iff_early ha hb h hearly).mp hlt)
    · rcases Int.lt_or_le 9999 b.date.year with hlarge | hhigh
      · rcases Int.lt_or_le 9999 a.date.year with hlate | hbelow
        · exact .late hlate ((digits_lt_iff_late ha hb h hlate).mp hlt)
        · exact absurd hlt (not_digits_lt_of_plus ha hbelow hlarge)
      · exact .fourDigits hlow hhigh
  · intro horder
    cases horder with
    | fourDigits hlow hhigh => exact digits_lt_of_fourDigits ha hb h hlow hhigh
    | late hlate hle => exact (digits_lt_iff_late ha hb h hlate).mpr hle
    | early hearly hlt => exact (digits_lt_iff_early ha hb h hearly).mpr hlt

end DateTime

end Rulebook.Calendar
