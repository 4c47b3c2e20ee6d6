import Mathlib.Algebra.GroupWithZero.Nat
import Mathlib.Algebra.Order.BigOperators.Group.List
import Mathlib.Algebra.Order.Group.Nat
import Mathlib.Data.List.GetD
import Mathlib.Order.Monotone.Basic
import Rulebook.Calendar.Date

/-!
# Days and dates

Every day has exactly one valid date, and later days have later dates. The years are the Gregorian ones
throughout: the days in front of a year grow by its length, and the months of a year fill it.
-/

namespace Rulebook.Calendar

set_option autoImplicit false

/-! ## Years -/

theorem isLeap_iff (year : Int) :
    isLeap year = true ↔ year % 4 = 0 ∧ (year % 100 ≠ 0 ∨ year % 400 = 0) := by
  simp [isLeap]

/-- A quotient grows exactly at the multiples. -/
theorem pred_ediv (n : Int) {k : Int} (hk : 0 < k) :
    (n - 1) / k = n / k - if n % k = 0 then 1 else 0 := by
  have hn := Int.mul_ediv_add_emod n k
  have hmod := Int.emod_nonneg n (Int.ne_of_gt hk)
  have hlt := Int.emod_lt_of_pos n hk
  rw [Int.mul_comm] at hn
  rw [Int.ediv_eq_iff_of_pos hk, Int.sub_mul]
  split <;> omega

theorem daysBeforeYear_succ (year : Int) :
    daysBeforeYear (year + 1) = daysBeforeYear year + yearLength year := by
  simp only [daysBeforeYear, yearLength, isLeap_iff, Int.add_sub_cancel,
    pred_ediv year (k := 4) (by decide), pred_ediv year (k := 100) (by decide),
    pred_ediv year (k := 400) (by decide)]
  split <;> split <;> split <;> split <;> omega

theorem daysBeforeYear_le {m n : Int} (h : m ≤ n) : daysBeforeYear m ≤ daysBeforeYear n := by
  apply monotone_int_of_le_succ _ h
  intro year
  rw [daysBeforeYear_succ]
  omega

theorem yearOfDay_spec (day : Int) :
    daysBeforeYear (yearOfDay day) ≤ day ∧ day < daysBeforeYear (yearOfDay day + 1) := by
  -- the guess is never off by more than a year
  have hlow : daysBeforeYear (day * 400 / 146097 + 1 - 1) ≤ day := by
    simp only [daysBeforeYear]
    omega
  have hhigh : day < daysBeforeYear (day * 400 / 146097 + 1 + 1 + 1) := by
    simp only [daysBeforeYear]
    omega
  unfold yearOfDay
  generalize day * 400 / 146097 + 1 = guess at hlow hhigh ⊢
  dsimp only
  split
  · rename_i hbefore
    rw [Int.sub_add_cancel]
    exact ⟨hlow, hbefore⟩
  · split
    · rename_i hafter
      exact ⟨hafter, hhigh⟩
    · rename_i hnot hbelow
      exact ⟨Int.not_lt.mp hnot, Int.not_le.mp hbelow⟩

/-! ## Months -/

theorem length_monthLengths (year : Int) : (monthLengths year).length = 12 := rfl

theorem sum_monthLengths (year : Int) : (monthLengths year).sum = yearLength year := by
  rw [monthLengths, yearLength]
  split <;> rfl

theorem monthLength_bounds (year : Int) {i : Nat} (hi : i < 12) :
    28 ≤ (monthLengths year).getD i 0 ∧ (monthLengths year).getD i 0 ≤ 31 := by
  rw [monthLengths]
  cases isLeap year <;> (revert i; decide)

theorem daysBeforeMonth_eq (year : Int) (month : Nat) :
    daysBeforeMonth year month = ((monthLengths year).take (month - 1)).sum :=
  List.sum_eq_foldl.symm

section

variable (lengths : List Nat)

theorem sum_take_succ (i : Nat) :
    (lengths.take (i + 1)).sum = (lengths.take i).sum + lengths.getD i 0 := by
  induction lengths generalizing i with
  | nil => simp
  | cons length rest ih =>
    cases i with
    | zero => simp
    | succ i =>
      rw [List.take_succ_cons, List.sum_cons, ih, List.take_succ_cons, List.sum_cons,
        List.getD_cons_succ]
      omega

theorem sum_take_le_sum_take {i j : Nat} (h : i ≤ j) :
    (lengths.take i).sum ≤ (lengths.take j).sum :=
  List.monotone_sum_take lengths h

theorem sum_take_le (i : Nat) : (lengths.take i).sum ≤ lengths.sum := by
  rcases Nat.le_total lengths.length i with hi | hi
  · rw [List.take_of_length_le hi]
  · have hle := sum_take_le_sum_take lengths hi
    rwa [List.take_length] at hle

/-- The month that a day of the year lies in, and the day in it. -/
theorem splitMonths_spec (rest : Nat) (h : rest < lengths.sum) (month : Nat) :
    ∃ i day, splitMonths month lengths rest = (month + i, day + 1) ∧
      (lengths.take i).sum + day = rest ∧ day < lengths.getD i 0 := by
  induction lengths generalizing month rest with
  | nil => exact absurd h (Nat.not_lt_zero _)
  | cons length lengths ih =>
    rw [splitMonths]
    split
    · rename_i hlt
      exact ⟨0, rest, rfl, by simp, hlt⟩
    · rename_i hge
      rw [List.sum_cons] at h
      obtain ⟨i, day, hsplit, hsum, hday⟩ := ih (rest - length) (by omega) (month + 1)
      refine ⟨i + 1, day, by rw [hsplit, Nat.add_right_comm, Nat.add_assoc], ?_, hday⟩
      rw [List.take_succ_cons, List.sum_cons]
      omega

end

/-! ## Dates -/

namespace Date

def Before (a b : Date) : Prop :=
  a.year < b.year ∨ a.year = b.year ∧ (a.month < b.month ∨ a.month = b.month ∧ a.day < b.day)

variable {a b : Date}

theorem valid_iff {d : Date} : d.valid = true ↔ 1 ≤ d.month ∧ d.month ≤ 12 ∧ 1 ≤ d.day ∧
    d.day ≤ (monthLengths d.year).getD (d.month - 1) 0 := by
  simp [valid, and_assoc]

theorem before_or_eq (a b : Date) : a.Before b ∨ a = b ∨ b.Before a := by
  have hfields : a = b ↔ a.year = b.year ∧ a.month = b.month ∧ a.day = b.day := by
    cases a
    cases b
    simp
  rw [hfields, Before, Before]
  omega

theorem day_le (h : a.valid = true) : a.day ≤ 31 := by
  obtain ⟨hpos, hle, -, hday⟩ := valid_iff.mp h
  have hlength := monthLength_bounds a.year (show a.month - 1 < 12 by omega)
  omega

/-- The end of a day, counted from the start of its year, lies in its month. -/
theorem daysBeforeMonth_add_day_le (h : a.valid = true) :
    daysBeforeMonth a.year a.month + a.day ≤ ((monthLengths a.year).take a.month).sum := by
  obtain ⟨hpos, -, -, hday⟩ := valid_iff.mp h
  have hmonth := sum_take_succ (monthLengths a.year) (a.month - 1)
  rw [Nat.sub_add_cancel hpos] at hmonth
  rw [daysBeforeMonth_eq]
  omega

theorem toDays_lt_of_before (ha : a.valid = true) (h : a.Before b) : a.toDays < b.toDays := by
  have hday := (valid_iff.mp ha).2.2.1
  have hend := daysBeforeMonth_add_day_le ha
  rw [toDays, toDays]
  rcases h with hyear | ⟨hyear, hmonth | ⟨hmonth, hlt⟩⟩
  · -- the year of `a` has ended
    have hnext := daysBeforeYear_le (show a.year + 1 ≤ b.year from hyear)
    have hsum := sum_take_le (monthLengths a.year) a.month
    rw [daysBeforeYear_succ] at hnext
    rw [sum_monthLengths] at hsum
    omega
  · -- the month of `a` has ended
    have hle := sum_take_le_sum_take (monthLengths a.year)
      (show a.month ≤ b.month - 1 by omega)
    rw [hyear] at hend hle ⊢
    rw [← daysBeforeMonth_eq] at hle
    omega
  · rw [hyear, hmonth]
    omega

theorem ofDays_spec (day : Int) : (ofDays day).valid = true ∧ (ofDays day).toDays = day := by
  obtain ⟨hlow, hhigh⟩ := yearOfDay_spec day
  rw [daysBeforeYear_succ] at hhigh
  obtain ⟨i, rest, hsplit, hsum, hrest⟩ := splitMonths_spec (monthLengths (yearOfDay day))
    (day - daysBeforeYear (yearOfDay day)).toNat (by rw [sum_monthLengths]; omega) 1
  have hi : i < 12 := by
    rw [← length_monthLengths (yearOfDay day)]
    by_contra hnot
    rw [List.getD_eq_default _ _ (Nat.not_lt.mp hnot)] at hrest
    exact absurd hrest (Nat.not_lt_zero _)
  have hdate : ofDays day = ⟨yearOfDay day, 1 + i, rest + 1⟩ := by
    rw [ofDays]
    dsimp only
    rw [hsplit]
  have hmonth : 1 + i - 1 = i := Nat.add_sub_cancel_left 1 i
  rw [hdate, valid_iff, toDays, daysBeforeMonth_eq]
  dsimp only
  rw [hmonth]
  omega

theorem valid_ofDays (day : Int) : (ofDays day).valid = true := (ofDays_spec day).1

theorem toDays_ofDays (day : Int) : (ofDays day).toDays = day := (ofDays_spec day).2

theorem ofDays_toDays (h : a.valid = true) : ofDays a.toDays = a := by
  have hvalid := valid_ofDays a.toDays
  have hsame := toDays_ofDays a.toDays
  rcases before_or_eq (ofDays a.toDays) a with hlt | heq | hlt
  · exact absurd (toDays_lt_of_before hvalid hlt) (by omega)
  · exact heq
  · exact absurd (toDays_lt_of_before h hlt) (by omega)

def next (d : Date) : Date :=
  if d.day < (monthLengths d.year).getD (d.month - 1) 0 then ⟨d.year, d.month, d.day + 1⟩
  else if d.month < 12 then ⟨d.year, d.month + 1, 1⟩
  else ⟨d.year + 1, 1, 1⟩

theorem next_spec (h : a.valid = true) : a.next.valid = true ∧ a.next.toDays = a.toDays + 1 := by
  obtain ⟨hmonth, hlast, hday, hle⟩ := valid_iff.mp h
  have hstep := sum_take_succ (monthLengths a.year) (a.month - 1)
  rw [Nat.sub_add_cancel hmonth] at hstep
  rw [next]
  split
  · rw [valid_iff, toDays, toDays]
    dsimp only
    omega
  · split
    · rename_i hsame
      have hlength := monthLength_bounds a.year hsame
      rw [valid_iff, toDays, toDays, daysBeforeMonth_eq, daysBeforeMonth_eq]
      dsimp only
      rw [Nat.add_sub_cancel]
      omega
    · -- the last day of the year
      have hlength := monthLength_bounds (a.year + 1) (show 0 < 12 by decide)
      have hsum := sum_monthLengths a.year
      rw [← List.take_length (l := monthLengths a.year), length_monthLengths,
        show 12 = a.month by omega] at hsum
      rw [valid_iff, toDays, toDays, daysBeforeYear_succ, daysBeforeMonth_eq, daysBeforeMonth_eq]
      dsimp only
      rw [Nat.sub_self, List.take_zero, List.sum_nil]
      omega

/-- The dates follow one another as the months and years end. -/
theorem ofDays_succ (day : Int) : ofDays (day + 1) = (ofDays day).next := by
  obtain ⟨hvalid, hdays⟩ := next_spec (valid_ofDays day)
  rw [toDays_ofDays] at hdays
  rw [← hdays, ofDays_toDays hvalid]

end Date

/-! ## Times -/

namespace DateTime

def Before (a b : DateTime) : Prop :=
  a.date.Before b.date ∨ a.date = b.date ∧
    (a.hour < b.hour ∨ a.hour = b.hour ∧
      (a.minute < b.minute ∨ a.minute = b.minute ∧ a.second < b.second))

structure IsValid (t : DateTime) : Prop where
  date : t.date.valid = true
  hour : t.hour < 24
  minute : t.minute < 60
  second : t.second < 60

variable {a b : DateTime}

theorem before_or_eq (a b : DateTime) : a.Before b ∨ a = b ∨ b.Before a := by
  have hfields : a = b ↔ a.date = b.date ∧ a.hour = b.hour ∧ a.minute = b.minute ∧
      a.second = b.second := by
    cases a
    cases b
    simp
  rw [hfields, Before, Before, eq_comm (a := b.date)]
  rcases Date.before_or_eq a.date b.date with h | h | h
  · exact .inl (.inl h)
  · simp only [h, true_and]
    omega
  · exact .inr (.inr (.inl h))

theorem toSeconds_lt_of_before (ha : a.IsValid) (h : a.Before b) : a.toSeconds < b.toSeconds := by
  obtain ⟨hdate, hhour, hminute, hsecond⟩ := ha
  rw [toSeconds, toSeconds, secondsPerDay]
  rcases h with h | ⟨h, hrest⟩
  · have hdays := Date.toDays_lt_of_before hdate h
    omega
  · rw [h]
    omega

theorem toSeconds_lt_iff (ha : a.IsValid) (hb : b.IsValid) :
    a.toSeconds < b.toSeconds ↔ a.Before b := by
  constructor
  · intro hlt
    rcases before_or_eq a b with h | rfl | h
    · exact h
    · exact absurd hlt (Int.lt_irrefl _)
    · exact absurd (toSeconds_lt_of_before hb h) (Int.not_lt.mpr (Int.le_of_lt hlt))
  · exact toSeconds_lt_of_before ha

theorem isValid_ofSeconds (seconds : Int) : (ofSeconds seconds).IsValid := by
  constructor
  · exact Date.valid_ofDays _
  all_goals
    dsimp only [ofSeconds, secondsPerDay]
    omega

theorem toSeconds_ofSeconds (seconds : Int) : (ofSeconds seconds).toSeconds = seconds := by
  rw [toSeconds, ofSeconds, Date.toDays_ofDays]
  dsimp only [secondsPerDay]
  omega

theorem ofSeconds_toSeconds (h : a.IsValid) : ofSeconds a.toSeconds = a := by
  have hvalid := isValid_ofSeconds a.toSeconds
  have hsame := toSeconds_ofSeconds a.toSeconds
  rcases before_or_eq (ofSeconds a.toSeconds) a with hlt | heq | hlt
  · exact absurd (toSeconds_lt_of_before hvalid hlt) (by omega)
  · exact heq
  · exact absurd (toSeconds_lt_of_before h hlt) (by omega)

theorem ofSeconds_before_iff {s t : Int} : (ofSeconds s).Before (ofSeconds t) ↔ s < t := by
  rw [← toSeconds_lt_iff (isValid_ofSeconds s) (isValid_ofSeconds t), toSeconds_ofSeconds,
    toSeconds_ofSeconds]

end DateTime

end Rulebook.Calendar
