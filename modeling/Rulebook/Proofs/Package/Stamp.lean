import Mathlib.Data.List.TakeWhile
import Rulebook.Package.Stamp
import Rulebook.Proofs.Calendar.Order
import Rulebook.Proofs.Calendar.Timestamp

/-!
# Build dates and versions

While the year has four digits, the build date of a stamp is a timestamp that gives the same stamp again.
Every other timestamp gives the stamp of its instant, rounded down to the second. Versions are told apart by
their seconds, and are in the order of time as far as their digits are.
-/

namespace Rulebook.Stamp

set_option autoImplicit false

open Calendar

/-! ## Seconds in digits -/

theorem toList_toString (s : Int) :
    (toString s).toList = (if s < 0 then ['-'] else []) ++ Nat.toDigits 10 s.natAbs := by
  rw [Int.toString_eq_repr, Int.repr_eq_if]
  split
  · rename_i hs
    rw [if_neg (Int.not_lt.mpr hs), Nat.repr_eq_ofList_toDigits, String.toList_ofList,
      List.nil_append, show s.toNat = s.natAbs by omega]
  · rename_i hs
    have hminus : "-".toList = ['-'] := rfl
    rw [if_pos (Int.not_le.mp hs), String.toList_append, hminus, Nat.repr_eq_ofList_toDigits,
      String.toList_ofList, show (-s).toNat = s.natAbs by omega]

theorem trim_of_noBlanks {s : String} (h : ∀ c ∈ s.toList, Text.isBlank c = false) :
    Text.trim s = s := by
  have hself {cs : List Char} (hcs : ∀ c ∈ cs, Text.isBlank c = false) :
      cs.dropWhile Text.isBlank = cs := by
    apply List.dropWhile_eq_self_iff.mpr
    intro hlength
    rw [hcs _ (List.getElem_mem hlength)]
    exact Bool.false_ne_true
  have hreverse : ∀ c ∈ s.toList.reverse, Text.isBlank c = false :=
    fun c hc => h c (List.mem_reverse.mp hc)
  rw [Text.trim, Text.trimLeft, hself h, Text.trimRight, hself hreverse, List.reverse_reverse,
    String.ofList_toList]

theorem areDigits_toDigits (n : Nat) : AreDigits (Nat.toDigits 10 n) :=
  fun _ hc => Nat.isDigit_of_mem_toDigits (by decide) (by decide) hc

theorem trim_toString (s : Int) : Text.trim (toString s) = toString s := by
  apply trim_of_noBlanks
  intro c hc
  rw [toList_toString] at hc
  have hdigit : ∀ c : Char, c.isDigit = true → Text.isBlank c = false := by
    intro c hc
    obtain ⟨hlow, hhigh⟩ := digit_bounds hc
    simp only [Text.isBlank, Bool.or_eq_false_iff, Bool.and_eq_false_iff, decide_eq_false_iff_not,
      beq_eq_false_iff_ne]
    omega
  rcases List.mem_append.mp hc with hc | hc
  · split at hc
    · rw [List.mem_singleton.mp hc]
      decide
    · cases hc
  · exact hdigit c (areDigits_toDigits _ c hc)

theorem parseSeconds_toString {s : Int} (hlow : -0x8000000000000000 ≤ s)
    (hhigh : s < 0x8000000000000000) : parseSeconds (toString s).toList = some s := by
  have hdigits := areDigits_toDigits s.natAbs
  have hnumber : number (Nat.toDigits 10 s.natAbs) = s.natAbs := by
    rw [number_eq, Nat.ofDigitChars_ten_toDigits]
  have hall : (Nat.toDigits 10 s.natAbs).all Char.isDigit = true := List.all_eq_true.mpr hdigits
  have hempty : (Nat.toDigits 10 s.natAbs).isEmpty = false := by simp
  rw [toList_toString]
  split
  · rename_i hs
    have hval : -(s.natAbs : Int) = s := by omega
    rw [List.singleton_append, parseSeconds]
    simp only [hall, hempty, hnumber, hval]
    simp [hlow, hhigh]
  · rename_i hs
    have hval : (s.natAbs : Int) = s := by omega
    -- no digit is a sign
    rw [List.nil_append, parseSeconds.eq_3]
    · simp only [hall, hempty, hnumber, hval]
      simp [hlow, hhigh]
    · intro rest heq
      exact absurd (hdigits '+' (by rw [heq]; exact List.mem_cons_self)) (by decide)
    · intro rest heq
      exact absurd (hdigits '-' (by rw [heq]; exact List.mem_cons_self)) (by decide)

theorem ofEpoch_toString {s : Int} (hlow : -0x8000000000000000 ≤ s) (hhigh : s < 0x8000000000000000)
    (hrange : inRange s = true) : ofEpoch (toString s) = .ok (ofSeconds s) := by
  rw [ofEpoch, trim_toString, parseSeconds_toString hlow hhigh]
  exact if_pos hrange

/-! ## Years of four digits -/

def firstSecond : Int := DateTime.toSeconds ⟨⟨0, 1, 1⟩, 0, 0, 0⟩

def lastSecond : Int := DateTime.toSeconds ⟨⟨9999, 12, 31⟩, 23, 59, 59⟩

theorem firstSecond_le_iff {s : Int} : firstSecond ≤ s ↔ 0 ≤ (DateTime.ofSeconds s).date.year := by
  have hfirst : (⟨⟨0, 1, 1⟩, 0, 0, 0⟩ : DateTime).IsValid :=
    ⟨by decide, by decide, by decide, by decide⟩
  have hvalid := DateTime.isValid_ofSeconds s
  obtain ⟨hmonth, -, hday, -⟩ := Date.valid_iff.mp hvalid.date
  have hbefore := DateTime.toSeconds_lt_iff hvalid hfirst
  rw [DateTime.toSeconds_ofSeconds] at hbefore
  rw [← Int.not_lt, firstSecond, hbefore, DateTime.Before, Date.Before]
  dsimp only
  constructor
  · intro hnot
    exact Int.not_lt.mp fun hlt => hnot (.inl (.inl hlt))
  · rintro hyear (hlt | ⟨-, hlt⟩) <;> omega

theorem le_lastSecond_iff {s : Int} : s ≤ lastSecond ↔ (DateTime.ofSeconds s).date.year ≤ 9999 := by
  have hlast : (⟨⟨9999, 12, 31⟩, 23, 59, 59⟩ : DateTime).IsValid :=
    ⟨by decide, by decide, by decide, by decide⟩
  have hvalid := DateTime.isValid_ofSeconds s
  obtain ⟨hdate, hhour, hminute, hsecond⟩ := hvalid
  have hmonth := (Date.valid_iff.mp hdate).2.1
  have hday := Date.day_le hdate
  have hbefore := DateTime.toSeconds_lt_iff hlast (DateTime.isValid_ofSeconds s)
  rw [DateTime.toSeconds_ofSeconds] at hbefore
  rw [← Int.not_lt, lastSecond, hbefore, DateTime.Before, Date.Before]
  dsimp only
  constructor
  · intro hnot
    exact Int.not_lt.mp fun hlt => hnot (.inl (.inl hlt))
  · rintro hyear (hlt | ⟨-, hlt⟩) <;> omega

/-- A date and a version that show the same fourteen digits. -/
structure Shows (stamp : Stamp) (year month day hour minute second : List Char) : Prop where
  digits : AreDigits (year ++ month ++ day ++ hour ++ minute ++ second)
  four : year.length = 4
  two : ∀ part ∈ [month, day, hour, minute, second], part.length = 2
  buildDate : stamp.buildDate = String.ofList (year ++ '-' :: month ++ '-' :: day ++ 'T' :: hour ++
    ':' :: minute ++ ':' :: second ++ ['Z'])
  version : stamp.version = "1." ++ String.ofList (year ++ month ++ day ++ hour ++ minute ++ second)

theorem shows_ofSeconds {s : Int} (hlow : firstSecond ≤ s) (hhigh : s ≤ lastSecond) :
    ∃ year month day hour minute second, Shows (ofSeconds s) year month day hour minute second := by
  have hyear := firstSecond_le_iff.mp hlow
  have hyear' := le_lastSecond_iff.mp hhigh
  obtain ⟨hdate, hhour, hminute, hsecond⟩ := DateTime.isValid_ofSeconds s
  have hmonth := (Date.valid_iff.mp hdate).2.1
  have hday := Date.day_le hdate
  have htext := yearText_of_fourDigits hyear hyear'
  refine ⟨padded 4 (DateTime.ofSeconds s).date.year.natAbs, padded 2 (DateTime.ofSeconds s).date.month,
    padded 2 (DateTime.ofSeconds s).date.day, padded 2 (DateTime.ofSeconds s).hour,
    padded 2 (DateTime.ofSeconds s).minute, padded 2 (DateTime.ofSeconds s).second, ?_⟩
  constructor
  · simp only [areDigits_append, areDigits_padded, and_self]
  · exact length_padded (by decide) (by omega)
  · simp only [List.forall_mem_cons]
    refine ⟨?_, ?_, ?_, ?_, ?_, List.forall_mem_nil _⟩ <;> exact length_padded (by decide) (by omega)
  · rw [buildDate, ofSeconds, DateTime.text, htext]
  · have hone : toString formatNumber ++ "." = "1." := by decide
    rw [ofSeconds, versionAt, DateTime.digits, htext, hone]

theorem ofTimestamp_ok_iff {value : String} {stamp : Stamp} :
    ofTimestamp value = .ok stamp ↔ ∃ w : Written, w.IsValid ∧ w.text = value ∧
      stamp = ofSeconds ⌊w.instant⌋ := by
  have hparse : ofTimestamp value = .ok stamp ↔
      ∃ seconds, parseTimestamp value = .ok seconds ∧ stamp = ofSeconds seconds := by
    rw [ofTimestamp]
    cases parseTimestamp value <;> simp [eq_comm]
  rw [hparse]
  constructor
  · rintro ⟨seconds, hseconds, rfl⟩
    obtain ⟨w, hw, htext, rfl⟩ := parseTimestamp_ok_iff.mp hseconds
    exact ⟨w, hw, htext, by rw [w.floor_instant hw.fraction]⟩
  · rintro ⟨w, hw, htext, rfl⟩
    refine ⟨_, parseTimestamp_ok_iff.mpr ⟨w, hw, htext, rfl⟩, ?_⟩
    rw [w.floor_instant hw.fraction]

theorem ofEpoch_four_digits {s : Int} (hlow : firstSecond ≤ s) (hhigh : s ≤ lastSecond) :
    ofEpoch (toString s) = .ok (ofSeconds s) := by
  have hfirst : firstSecond = -62167219200 := by decide
  have hlast : lastSecond = 253402300799 := by decide
  have hyear := firstSecond_le_iff.mp hlow
  have hyear' := le_lastSecond_iff.mp hhigh
  apply ofEpoch_toString
  · omega
  · omega
  · rw [inRange, Bool.and_eq_true, decide_eq_true_eq, decide_eq_true_eq, leastYear, greatestYear]
    omega

/-- From the first second of the year 0 to the last one of the year 9999, the seconds of a stamp show as
fourteen digits in its build date and in its version, and the build date gives the stamp again. A timestamp
is accepted in its written form alone; it gives the stamp of its instant in universal time, rounded down to
the second, which is the one that these seconds give. -/
theorem stamp_reproduced :
    (∀ s : Int, firstSecond ≤ s → s ≤ lastSecond → ∃ stamp,
      ofEpoch (toString s) = .ok stamp ∧ stamp.seconds = s ∧
      (∃ year month day hour minute second, Shows stamp year month day hour minute second) ∧
      ofTimestamp stamp.buildDate = .ok stamp) ∧
    (∀ value stamp, ofTimestamp value = .ok stamp ↔ ∃ w : Written, w.IsValid ∧ w.text = value ∧
      stamp = ofSeconds ⌊w.instant⌋) ∧
    ∀ w : Written, w.IsValid → firstSecond ≤ ⌊w.instant⌋ → ⌊w.instant⌋ ≤ lastSecond →
      ofTimestamp w.text = ofEpoch (toString ⌊w.instant⌋) := by
  refine ⟨?_, fun _ _ => ofTimestamp_ok_iff, ?_⟩
  · intro s hlow hhigh
    refine ⟨ofSeconds s, ofEpoch_four_digits hlow hhigh, rfl, shows_ofSeconds hlow hhigh, ?_⟩
    have hread := Written.parseTimestamp_text (DateTime.isValid_ofSeconds s) (firstSecond_le_iff.mp hlow)
      (le_lastSecond_iff.mp hhigh)
    rw [DateTime.toSeconds_ofSeconds] at hread
    rw [ofTimestamp, buildDate, ofSeconds, hread]
    rfl
  · intro w hw hlow hhigh
    rw [ofEpoch_four_digits hlow hhigh]
    exact ofTimestamp_ok_iff.mpr ⟨w, hw, rfl, rfl⟩

/-- Half a leap second before 1970, written in a place that is behind. -/
theorem stamp_reproduced_leap_second :
    let w : Written := ⟨⟨1969, 12, 31⟩, 'T', 18, 29, 60, ['5'], .shift '-' 5 30⟩
    w.text = "1969-12-31T18:29:60.5-05:30" ∧ ofEpoch "-1" = .ok ⟨-1, "1.19691231235959"⟩ ∧
    ofTimestamp "1969-12-31T23:59:59Z" = ofEpoch "-1" ∧ ofTimestamp w.text = ofEpoch "-1" := by
  intro w
  have hw : w.IsValid := by
    constructor <;> decide
  have hfloor : ⌊w.instant⌋ = -1 := by
    rw [w.floor_instant hw.fraction]
    decide
  have hseconds : ofEpoch "-1" = .ok ⟨-1, "1.19691231235959"⟩ := by decide
  obtain ⟨hepoch, -, hwritten⟩ := stamp_reproduced
  refine ⟨by decide, hseconds, ?_, ?_⟩
  · obtain ⟨stamp, hstamp, -, -, hread⟩ := hepoch (-1) (by decide) (by decide)
    rw [show toString (-1 : Int) = "-1" from rfl] at hstamp
    obtain rfl := Except.ok.inj (hseconds.symm.trans hstamp)
    rw [hseconds]
    exact hread
  · have hread := hwritten w hw (by rw [hfloor]; decide) (by rw [hfloor]; decide)
    rwa [hfloor] at hread

/-! ## The order of versions -/

def IsAccepted (stamp : Stamp) : Prop :=
  ∃ value, ofEpoch value = .ok stamp ∨ ofTimestamp value = .ok stamp

theorem IsAccepted.eq {stamp : Stamp} (h : stamp.IsAccepted) : stamp = ofSeconds stamp.seconds := by
  obtain ⟨value, h | h⟩ := h
  · rw [ofEpoch] at h
    split at h
    · cases h
    · split at h
      · rw [← Except.ok.inj h]
        rfl
      · cases h
  · obtain ⟨w, -, -, rfl⟩ := ofTimestamp_ok_iff.mp h
    rfl

theorem toList_versionAt (s : Int) :
    (versionAt s).toList = '1' :: '.' :: (DateTime.ofSeconds s).digits.toList := by
  have hformat : (toString formatNumber ++ ".").toList = ['1', '.'] := by decide
  rw [versionAt, String.toList_append, hformat]
  rfl

theorem versionAt_inj {s t : Int} : versionAt s = versionAt t ↔ s = t := by
  constructor
  · intro h
    have hlist := congrArg String.toList h
    rw [toList_versionAt, toList_versionAt, List.cons_inj_right, List.cons_inj_right,
      String.toList_inj, DateTime.digits_inj (DateTime.isValid_ofSeconds s)
      (DateTime.isValid_ofSeconds t)] at hlist
    rw [← DateTime.toSeconds_ofSeconds s, hlist, DateTime.toSeconds_ofSeconds]
  · rintro rfl
    rfl

theorem versionAt_lt_iff {s t : Int} (h : s < t) :
    versionAt s < versionAt t ↔ (DateTime.ofSeconds s).InOrder (DateTime.ofSeconds t) := by
  rw [← DateTime.digits_lt_iff (DateTime.isValid_ofSeconds s) (DateTime.isValid_ofSeconds t)
    (DateTime.ofSeconds_before_iff.mpr h), String.lt_iff, String.lt_iff, toList_versionAt,
    toList_versionAt]
  simp

/-- Different seconds have different versions, and the version of a later second is greater as far as its
digits are in order. -/
theorem version_order {a b : Stamp} (ha : a.IsAccepted) (hb : b.IsAccepted) :
    (a.version = b.version ↔ a.seconds = b.seconds) ∧
    (a.seconds < b.seconds → (a.version < b.version ↔
      (DateTime.ofSeconds a.seconds).InOrder (DateTime.ofSeconds b.seconds))) := by
  rw [ha.eq, hb.eq]
  exact ⟨versionAt_inj, versionAt_lt_iff⟩

/-- An offset leads out of the year 9999, and the version back to the front. -/
theorem version_order_five_digits :
    let first : Stamp := ⟨-62167219200, "1.00000101000000"⟩
    let last : Stamp := ⟨253402300799, "1.99991231235959"⟩
    let next : Stamp := ⟨253402300859, "1.+100000101000059"⟩
    ofEpoch "-62167219200" = .ok first ∧ ofEpoch "253402300799" = .ok last ∧
    ofTimestamp "9999-12-31T23:59:59-00:01" = .ok next ∧ first.version < last.version ∧
    last.seconds < next.seconds ∧ next.version ≠ last.version ∧ ¬ last.version < next.version := by
  intro first last next
  have hfirst : ofEpoch "-62167219200" = .ok first := by decide
  have hlast : ofEpoch "253402300799" = .ok last := by decide
  have hnext : ofTimestamp "9999-12-31T23:59:59-00:01" = .ok next := by decide
  have hlast' : last.IsAccepted := ⟨_, .inl hlast⟩
  have hnext' : next.IsAccepted := ⟨_, .inr hnext⟩
  obtain ⟨-, hdigits⟩ := version_order ⟨_, .inl hfirst⟩ hlast'
  obtain ⟨hsame, hsign⟩ := version_order hlast' hnext'
  refine ⟨hfirst, hlast, hnext, ?_, by decide, ?_, ?_⟩
  · exact (hdigits (by decide)).mpr (.fourDigits (by decide) (by decide))
  · intro heq
    exact absurd (hsame.mp heq.symm) (by decide)
  · intro hlt
    cases (hsign (by decide)).mp hlt with
    | fourDigits _ hyear => exact absurd hyear (by decide)
    | late hyear _ => exact absurd hyear (by decide)
    | early hyear _ => exact absurd hyear (by decide)

end Rulebook.Stamp
