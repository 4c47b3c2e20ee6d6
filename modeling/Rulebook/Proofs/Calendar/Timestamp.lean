import Mathlib.Algebra.Order.Floor.Ring
import Mathlib.Data.List.TakeWhile
import Mathlib.Data.Rat.Floor
import Rulebook.Proofs.Basic
import Rulebook.Proofs.Calendar.Date
import Rulebook.Proofs.Calendar.Digits

/-!
# The form of timestamps

A timestamp is accepted exactly if it is a date, a time and an offset in their written form. It stands for
its instant, rounded down to the second.
-/

namespace Rulebook.Calendar

set_option autoImplicit false

/-- How far a written time is ahead of universal time. -/
inductive Offset where
  | universal (letter : Char)
  | shift (sign : Char) (hours minutes : Nat)

namespace Offset

def seconds : Offset → Int
  | .universal _ => 0
  | .shift sign hours minutes =>
    let ahead : Int := hours * 3600 + minutes * 60
    if sign = '+' then ahead else -ahead

def chars : Offset → List Char
  | .universal letter => [letter]
  | .shift sign hours minutes => sign :: (padded 2 hours ++ ':' :: padded 2 minutes)

def IsValid : Offset → Prop
  | .universal letter => letter ∈ ['Z', 'z']
  | .shift sign hours minutes => sign ∈ ['+', '-', '\u2212'] ∧ hours < 24 ∧ minutes < 60

instance : DecidablePred IsValid
  | .universal letter => inferInstanceAs (Decidable (letter ∈ _))
  | .shift _ _ _ => inferInstanceAs (Decidable (_ ∧ _ ∧ _))

end Offset

structure Written where
  date : Date
  separator : Char
  hour : Nat
  minute : Nat
  second : Nat
  /-- The digits behind the point of the seconds; without digits there is no point. -/
  fraction : List Char
  offset : Offset

def fractionChars (digits : List Char) : List Char := if digits = [] then [] else '.' :: digits

namespace Written

def chars (w : Written) : List Char :=
  padded 4 w.date.year.natAbs ++ '-' :: (padded 2 w.date.month ++ '-' :: (padded 2 w.date.day ++
    w.separator :: (padded 2 w.hour ++ ':' :: (padded 2 w.minute ++ ':' :: (padded 2 w.second ++
      (fractionChars w.fraction ++ w.offset.chars))))))

def text (w : Written) : String := String.ofList w.chars

structure IsValid (w : Written) : Prop where
  year : 0 ≤ w.date.year ∧ w.date.year ≤ 9999
  date : w.date.valid = true
  separator : w.separator ∈ ['T', 't', ' ']
  hour : w.hour < 24
  minute : w.minute < 60
  second : w.second ≤ 60
  fraction : AreDigits w.fraction
  offset : w.offset.IsValid

/-- The date and time at the place itself; a leap second counts as the second before. -/
def clock (w : Written) : DateTime := ⟨w.date, w.hour, w.minute, min w.second 59⟩

/-- The exact time in universal time. -/
def instant (w : Written) : ℚ :=
  w.clock.toSeconds + Calendar.fraction w.fraction - w.offset.seconds

end Written

/-! ## Parts -/

section

variable {α : Type} {cs rest : List Char} {n count : Nat}

theorem readDigits_ok_iff (hcount : 0 < count) :
    readDigits count cs = .ok (n, rest) ↔ n < 10 ^ count ∧ cs = padded count n ++ rest := by
  unfold readDigits
  dsimp only
  constructor
  · intro h
    split at h
    · rename_i hread
      rw [Bool.and_eq_true, decide_eq_true_eq, List.all_eq_true] at hread
      obtain ⟨hlength, hdigits⟩ := hread
      obtain ⟨rfl, rfl⟩ := Prod.mk.inj (Except.ok.inj h)
      have hne : cs.take count ≠ [] := by
        intro hnil
        rw [hnil] at hlength
        exact absurd hlength (Nat.ne_of_lt hcount)
      have hpadded := eq_padded hdigits hne
      have hlt := number_lt hdigits
      rw [hlength] at hpadded hlt
      refine ⟨hlt, ?_⟩
      rw [← hpadded, List.take_append_drop]
    · cases h
  · rintro ⟨hn, rfl⟩
    have hlength := length_padded hcount hn
    have hall : (padded count n).all Char.isDigit = true :=
      List.all_eq_true.mpr (areDigits_padded count n)
    rw [List.take_left' hlength, List.drop_left' hlength, hall, hlength, decide_eq_true rfl,
      number_padded]
    rfl

theorem readChar_ok_iff {allowed : List Char} :
    readChar allowed cs = .ok rest ↔ ∃ c ∈ allowed, cs = c :: rest := by
  rw [readChar.eq_def]
  split
  · simp
  · rename_i c others
    split
    · rename_i hmem
      simp only [Except.ok.injEq, List.cons.injEq]
      constructor
      · rintro rfl
        exact ⟨c, hmem, rfl, rfl⟩
      · rintro ⟨d, hd, rfl, rfl⟩
        rfl
    · rename_i hmem
      simp only [reduceCtorEq, List.cons.injEq, false_iff]
      rintro ⟨d, hd, rfl, -⟩
      exact hmem hd

theorem length_le_byteCount (cs : List Char) : cs.length ≤ byteCount cs := by
  have hfold (start : Nat) : start + cs.length ≤ cs.foldl (fun n c => n + c.utf8Size) start := by
    induction cs generalizing start with
    | nil => exact Nat.le_refl _
    | cons c cs ih =>
      have hpos := c.utf8Size_pos
      have hrest := ih (start + c.utf8Size)
      rw [List.foldl_cons, List.length_cons]
      omega
  have h := hfold 0
  rwa [Nat.zero_add] at h

theorem needing_ok_iff {read : Reader α} {result : α × List Char} :
    needing count read cs = .ok result ↔ count ≤ byteCount cs ∧ read cs = .ok result := by
  rw [needing]
  split
  · rename_i hshort
    simp [Nat.not_le.mpr hshort]
  · rename_i hlong
    simp [Nat.not_lt.mp hlong]

theorem needing_digits_ok_iff (hcount : 0 < count) :
    needing count (readDigits count) cs = .ok (n, rest) ↔
      n < 10 ^ count ∧ cs = padded count n ++ rest := by
  rw [needing_ok_iff, readDigits_ok_iff hcount]
  apply and_iff_right_of_imp
  rintro ⟨hn, rfl⟩
  have hbytes := length_le_byteCount (padded count n ++ rest)
  rw [List.length_append, length_padded hcount hn] at hbytes
  omega

end

section

variable {cs rest : List Char}

theorem readDate_ok_iff {d : Date} :
    readDate cs = .ok (d, rest) ↔ (0 ≤ d.year ∧ d.year ≤ 9999) ∧ d.valid = true ∧
      cs = padded 4 d.year.natAbs ++ '-' :: (padded 2 d.month ++ '-' :: (padded 2 d.day ++ rest)) := by
  simp only [readDate, Except.bind_ok_iff, Prod.exists, readChar_ok_iff, List.mem_singleton, exists_eq_left,
    readDigits_ok_iff (show 0 < 4 by decide), readDigits_ok_iff (show 0 < 2 by decide),
    Except.else_throw_ok_iff, Except.pure_ok_iff, Prod.mk.injEq]
  constructor
  · rintro ⟨year, _, ⟨hyear, rfl⟩, _, rfl, month, _, ⟨_, rfl⟩, _, rfl, day, _, ⟨_, rfl⟩, hvalid, rfl,
      rfl⟩
    exact ⟨by dsimp only; omega, hvalid, rfl⟩
  · rintro ⟨hyear, hvalid, rfl⟩
    obtain ⟨-, hmonth, -⟩ := Date.valid_iff.mp hvalid
    have hday := Date.day_le hvalid
    have hdate : (⟨d.year.natAbs, d.month, d.day⟩ : Date) = d := by
      rw [Int.natAbs_of_nonneg hyear.1]
    exact ⟨d.year.natAbs, _, ⟨by omega, rfl⟩, _, rfl, d.month, _, ⟨by omega, rfl⟩, _, rfl, d.day, _,
      ⟨by omega, rfl⟩, by rwa [hdate], hdate, rfl⟩

/-- What follows the seconds and is no part of them. -/
def EndsSeconds (cs : List Char) : Prop := ∀ c ∈ cs.head?, c ≠ '.' ∧ c.isDigit = false

theorem skipFraction_ok_iff (hrest : EndsSeconds rest) :
    skipFraction cs = .ok rest ↔ ∃ digits, AreDigits digits ∧ cs = fractionChars digits ++ rest := by
  rw [skipFraction.eq_def]
  split
  · rename_i others
    simp only [Except.bind_ok_iff, Prod.exists, needing_digits_ok_iff (show 0 < 1 by decide),
      Except.pure_ok_iff]
    constructor
    · rintro ⟨n, after, ⟨hn, rfl⟩, rfl⟩
      have hne : padded 1 n ≠ [] := List.ne_nil_of_length_pos (by rw [length_padded] <;> omega)
      refine ⟨padded 1 n ++ after.takeWhile Char.isDigit, ?_, ?_⟩
      · exact areDigits_append.mpr ⟨areDigits_padded 1 n, fun c hc => List.mem_takeWhile_imp hc⟩
      · rw [fractionChars, if_neg (List.append_ne_nil_of_left_ne_nil hne _), List.cons_append,
          List.append_assoc, List.takeWhile_append_dropWhile]
    · rintro ⟨digits, hdigits, heq⟩
      cases digits with
      | nil =>
        rw [fractionChars, if_pos rfl, List.nil_append] at heq
        exact absurd rfl (hrest '.' (by rw [← heq]; rfl)).1
      | cons c digits =>
        rw [fractionChars, if_neg (List.cons_ne_nil _ _), List.cons_append] at heq
        obtain ⟨-, rfl⟩ := List.cons.inj heq
        obtain ⟨hc, hmore⟩ := areDigits_cons.mp hdigits
        have hone : AreDigits [c] := areDigits_cons.mpr ⟨hc, nofun⟩
        have hpadded : [c] = padded 1 (number [c]) := eq_padded hone (List.cons_ne_nil _ _)
        refine ⟨number [c], digits ++ rest, ⟨number_lt hone, ?_⟩, ?_⟩
        · rw [← hpadded]
          rfl
        · rw [List.dropWhile_append_of_pos hmore]
          cases rest with
          | nil => rfl
          | cons d rest => exact List.dropWhile_cons_of_neg (by rw [(hrest d rfl).2]; decide)
  · rename_i hpoint
    constructor
    · intro h
      exact ⟨[], nofun, Except.ok.inj h⟩
    · rintro ⟨digits, -, rfl⟩
      cases digits with
      | nil => rfl
      | cons c digits => exact absurd rfl (hpoint (c :: digits ++ rest))

theorem readTime_ok_iff {hour minute second : Nat} (hrest : EndsSeconds rest) :
    readTime cs = .ok ((hour, minute, second), rest) ↔ hour < 24 ∧ minute < 60 ∧
      ∃ written digits, written ≤ 60 ∧ second = min written 59 ∧ AreDigits digits ∧
        cs = padded 2 hour ++ ':' :: (padded 2 minute ++ ':' :: (padded 2 written ++
          (fractionChars digits ++ rest))) := by
  simp only [readTime, Except.bind_ok_iff, Prod.exists, readChar_ok_iff, List.mem_singleton, exists_eq_left,
    readDigits_ok_iff (show 0 < 2 by decide), Except.else_throw_ok_iff, Except.pure_ok_iff, Prod.mk.injEq,
    Bool.and_eq_true, decide_eq_true_eq]
  constructor
  · rintro ⟨_, _, ⟨_, rfl⟩, _, rfl, _, _, ⟨_, rfl⟩, _, rfl, written, _, ⟨_, rfl⟩, _, hskip,
      ⟨⟨hhour, hminute⟩, hwritten⟩, ⟨rfl, rfl, rfl⟩, rfl⟩
    obtain ⟨digits, hdigits, rfl⟩ := (skipFraction_ok_iff hrest).mp hskip
    exact ⟨hhour, hminute, written, digits, hwritten, rfl, hdigits, rfl⟩
  · rintro ⟨hhour, hminute, written, digits, hwritten, rfl, hdigits, rfl⟩
    have hskip := (skipFraction_ok_iff hrest).mpr ⟨digits, hdigits, rfl⟩
    exact ⟨hour, _, ⟨by omega, rfl⟩, _, rfl, minute, _, ⟨by omega, rfl⟩, _, rfl, written, _,
      ⟨by omega, rfl⟩, rest, hskip, ⟨⟨hhour, hminute⟩, hwritten⟩, ⟨rfl, rfl, rfl⟩, rfl⟩

theorem readMinutes_ok_iff {minutes : Nat} :
    readMinutes cs = .ok (minutes, rest) ↔ minutes < 60 ∧ cs = padded 2 minutes ++ rest := by
  simp only [readMinutes, Except.bind_ok_iff, Prod.exists, needing_digits_ok_iff (show 0 < 2 by decide),
    Except.else_throw_ok_iff, Except.pure_ok_iff, Prod.mk.injEq]
  constructor
  · rintro ⟨_, _, ⟨-, rfl⟩, hminutes, rfl, rfl⟩
    exact ⟨hminutes, rfl⟩
  · rintro ⟨hminutes, rfl⟩
    exact ⟨minutes, rest, ⟨by omega, rfl⟩, hminutes, rfl, rfl⟩

theorem universal_ok_iff {letter : Char} {others : List Char} {seconds : Int}
    (hletter : letter ∈ ['Z', 'z']) :
    ((.ok (0, others) : Except Fault (Int × List Char)) = .ok (seconds, rest) ∧
        seconds.natAbs < 86400) ↔ ∃ offset : Offset, offset.IsValid ∧ seconds = offset.seconds ∧
      letter :: others = offset.chars ++ rest := by
  constructor
  · rintro ⟨h, -⟩
    obtain ⟨rfl, rfl⟩ := Prod.mk.inj (Except.ok.inj h)
    exact ⟨.universal letter, hletter, rfl, rfl⟩
  · rintro ⟨offset, hvalid, rfl, heq⟩
    cases offset with
    | universal =>
      obtain ⟨-, rfl⟩ := List.cons.inj heq
      exact ⟨rfl, Nat.succ_pos _⟩
    | shift sign hours minutes =>
      obtain ⟨rfl, -⟩ := List.cons.inj heq
      have hapart : letter ∉ ['+', '-', '\u2212'] := by
        rcases List.mem_pair.mp hletter with rfl | rfl <;> decide
      exact absurd hvalid.1 hapart

/-- An offset of less than a day is read. -/
theorem readOffset_ok_iff {seconds : Int} :
    (readOffset cs = .ok (seconds, rest) ∧ seconds.natAbs < 86400) ↔
      ∃ offset : Offset, offset.IsValid ∧ seconds = offset.seconds ∧ cs = offset.chars ++ rest := by
  rw [readOffset.eq_def]
  split
  · exact universal_ok_iff (by decide)
  · exact universal_ok_iff (by decide)
  · rename_i hZ hz
    simp only [Except.unless_throw_ok_iff, Except.bind_ok_iff, Prod.exists, readChar_ok_iff,
      readMinutes_ok_iff, needing_digits_ok_iff (show 0 < 2 by decide), Except.pure_ok_iff, Prod.mk.injEq]
    constructor
    · rintro ⟨⟨-, _, ⟨sign, hsign, rfl⟩, hours, _, ⟨_, rfl⟩, -, _, ⟨colon, hcolon, rfl⟩, minutes, _,
        ⟨hminutes, rfl⟩, rfl, rfl⟩, hnear⟩
      obtain rfl := List.mem_singleton.mp hcolon
      simp only [List.head?_cons, beq_iff_eq, Option.some.injEq] at hnear ⊢
      refine ⟨.shift sign hours minutes, ⟨hsign, ?_, hminutes⟩, rfl, ?_⟩
      · split at hnear <;> omega
      · rw [Offset.chars]
        simp
    · rintro ⟨offset, hvalid, rfl, rfl⟩
      cases offset with
      | universal letter =>
        rcases List.mem_pair.mp hvalid with rfl | rfl
        · exact absurd rfl (hZ _)
        · exact absurd rfl (hz _)
      | shift sign hours minutes =>
        obtain ⟨hsign, hhours, hminutes⟩ := hvalid
        refine ⟨⟨nofun, _, ⟨sign, hsign, rfl⟩, hours, ':' :: (padded 2 minutes ++ rest), ⟨by omega, ?_⟩,
          nofun, _, ⟨':', List.mem_singleton_self _, rfl⟩, minutes, rest, ⟨hminutes, rfl⟩, ?_, rfl⟩, ?_⟩
        · simp
        · simp [Offset.chars, Offset.seconds]
        · simp only [Offset.seconds]
          split <;> omega

theorem Offset.endsSeconds {offset : Offset} (h : offset.IsValid) (rest : List Char) :
    EndsSeconds (offset.chars ++ rest) := by
  intro c hc
  cases offset with
  | universal letter =>
    obtain rfl := Option.some.inj hc
    rcases List.mem_pair.mp h with rfl | rfl <;> decide
  | shift sign hours minutes =>
    obtain rfl := Option.some.inj hc
    obtain ⟨hsign, -⟩ := h
    simp only [List.mem_cons, List.not_mem_nil, or_false] at hsign
    rcases hsign with rfl | rfl | rfl <;> decide

end

theorem Written.leastBytes_le {w : Written} (h : w.IsValid) : leastBytes ≤ w.chars.length := by
  obtain ⟨-, hmonth, -⟩ := Date.valid_iff.mp h.date
  have hday := Date.day_le h.date
  have hyear := h.year
  have hhour := h.hour
  have hminute := h.minute
  have hsecond := h.second
  rw [chars, leastBytes]
  simp only [List.length_append, List.length_cons]
  rw [length_padded (by decide) (by omega), length_padded (by decide) (by omega),
    length_padded (by decide) (by omega), length_padded (by decide) (by omega),
    length_padded (by decide) (by omega), length_padded (by decide) (by omega)]
  omega

/-- What is accepted as a timestamp, and the instant in whole seconds. -/
theorem parseTimestamp_ok_iff {text : String} {seconds : Int} :
    parseTimestamp text = .ok seconds ↔ ∃ w : Written, w.IsValid ∧ w.text = text ∧
      seconds = w.clock.toSeconds - w.offset.seconds := by
  simp only [parseTimestamp, Except.bind_ok_iff, Prod.exists, readChar_ok_iff, needing_ok_iff,
    readDate_ok_iff, Except.unless_throw_ok_iff, Except.pure_ok_iff]
  constructor
  · rintro ⟨date, _, ⟨-, hyear, hdate, htext⟩, _, ⟨separator, hseparator, rfl⟩, hour, minute, _, cs,
      htime, ahead, others, hread, hend, hnear, rfl⟩
    obtain rfl : others = [] := by simpa using hend
    obtain ⟨offset, hoffset, rfl, rfl⟩ := readOffset_ok_iff.mp ⟨hread, Nat.not_le.mp hnear⟩
    obtain ⟨hhour, hminute, second, digits, hsecond, rfl, hdigits, rfl⟩ :=
      (readTime_ok_iff (Offset.endsSeconds hoffset [])).mp htime
    rw [List.append_nil] at htext
    refine ⟨⟨date, separator, hour, minute, second, digits, offset⟩,
      ⟨hyear, hdate, hseparator, hhour, hminute, hsecond, hdigits, hoffset⟩, ?_, rfl⟩
    rw [Written.text, Written.chars, ← htext, String.ofList_toList]
  · rintro ⟨w, hw, rfl, rfl⟩
    obtain ⟨hread, hnear⟩ := readOffset_ok_iff.mpr ⟨w.offset, hw.offset, rfl, (List.append_nil _).symm⟩
    have htime := (readTime_ok_iff (Offset.endsSeconds hw.offset [])).mpr
      ⟨hw.hour, hw.minute, w.second, w.fraction, hw.second, rfl, hw.fraction, rfl⟩
    rw [List.append_nil] at htime
    rw [Written.text, String.toList_ofList]
    refine ⟨w.date, _, ⟨?_, hw.year, hw.date, rfl⟩, _, ⟨w.separator, hw.separator, rfl⟩, _, _, _, _,
      htime, _, [], hread, nofun, Nat.not_le.mpr hnear, rfl⟩
    exact Nat.le_trans (Written.leastBytes_le hw) (length_le_byteCount _)

namespace Written

def ofDateTime (t : DateTime) : Written := ⟨t.date, 'T', t.hour, t.minute, t.second, [], .universal 'Z'⟩

variable {t : DateTime}

theorem isValid_ofDateTime (h : t.IsValid) (hlow : 0 ≤ t.date.year) (hhigh : t.date.year ≤ 9999) :
    (ofDateTime t).IsValid := by
  constructor
  · exact ⟨hlow, hhigh⟩
  · exact h.date
  · exact List.mem_cons_self
  · exact h.hour
  · exact h.minute
  · exact Nat.le_of_lt h.second
  · exact nofun
  · exact List.mem_cons_self

theorem text_ofDateTime (hlow : 0 ≤ t.date.year) (hhigh : t.date.year ≤ 9999) :
    (ofDateTime t).text = t.text := by
  rw [text, chars, DateTime.text, yearText_of_fourDigits hlow hhigh]
  simp [ofDateTime, fractionChars, Offset.chars]

theorem clock_ofDateTime (h : t.IsValid) : (ofDateTime t).clock = t := by
  have hsecond : min t.second 59 = t.second := Nat.min_eq_left (Nat.le_of_lt_succ h.second)
  rw [clock, ofDateTime, hsecond]

theorem parseTimestamp_text (h : t.IsValid) (hlow : 0 ≤ t.date.year) (hhigh : t.date.year ≤ 9999) :
    parseTimestamp t.text = .ok t.toSeconds := by
  apply parseTimestamp_ok_iff.mpr
  refine ⟨ofDateTime t, isValid_ofDateTime h hlow hhigh, text_ofDateTime hlow hhigh, ?_⟩
  rw [clock_ofDateTime h]
  exact (Int.sub_zero _).symm

/-- The seconds of a timestamp are those of its instant, rounded down. -/
theorem floor_instant {w : Written} (h : AreDigits w.fraction) :
    ⌊w.instant⌋ = w.clock.toSeconds - w.offset.seconds := by
  have hlow := fraction_nonneg w.fraction
  have hhigh := fraction_lt_one h
  rw [Int.floor_eq_iff, instant]
  push_cast
  constructor <;> linarith

end Written

end Rulebook.Calendar
