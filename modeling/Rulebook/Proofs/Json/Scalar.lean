import Mathlib.Data.List.TakeDrop
import Mathlib.Data.List.TakeWhile
import Rulebook.Json.Reader
import Rulebook.Json.Text

/-!
# Written texts and numbers are read back

The escapes of a written text are its characters again, and the digits of a whole number are the
number again, whatever follows that could not continue them.
-/

namespace Rulebook.Json

set_option autoImplicit false

/-! ## Texts -/

theorem joinUnits_toNat (cs : List Char) : joinUnits (cs.map Char.toNat) = some cs := by
  have hsurrogate (c : Char) :
      isHighSurrogate c.toNat = false ∧ isLowSurrogate c.toNat = false := by
    have hvalid := c.valid
    simp only [isHighSurrogate, isLowSurrogate, Bool.and_eq_false_iff, decide_eq_false_iff_not]
    rw [UInt32.isValidChar, Nat.isValidChar] at hvalid
    have hnat : c.toNat = c.val.toNat := rfl
    omega
  induction cs with
  | nil => rfl
  | cons c rest ih =>
    obtain ⟨hhigh, hlow⟩ := hsurrogate c
    cases rest with
    | nil => simp [joinUnits, hhigh, hlow]
    | cons d rest =>
      rw [List.map_cons] at ih
      simp [joinUnits, hhigh, hlow, ih]

/-- The escape of a control character that has no short one. -/
theorem hexQuad_control : ∀ n < 0x20, ∃ a b c d, Digest.hexDigits 4 n = [a, b, c, d] ∧
    hexQuad a b c d = some n := by
  have hall : ∀ n < 0x20, hexQuad ((Digest.hexDigits 4 n)[0]!) ((Digest.hexDigits 4 n)[1]!)
      ((Digest.hexDigits 4 n)[2]!) ((Digest.hexDigits 4 n)[3]!) = some n := by decide
  intro n hn
  obtain ⟨a, b, c, d, hdigits⟩ : ∃ a b c d, Digest.hexDigits 4 n = [a, b, c, d] := by
    simp [Digest.hexDigits]
  have h := hall n hn
  rw [hdigits] at h
  exact ⟨a, b, c, d, hdigits, h⟩

theorem stringUnits_plain {c : Char} (hquote : c ≠ '"') (hslash : c ≠ '\\')
    (hcontrol : ¬ c.toNat < 0x20) (cs : List Char) :
    stringUnits (c :: cs) = do
      let (units, rest) ← stringUnits cs
      return (c.toNat :: units, rest) := by
  have hslash' : (c == '\\') = false := beq_false_of_ne hslash
  rw [stringUnits.eq_def]
  split
  · rename_i heq
    cases heq
  · rename_i heq
    exact absurd (List.cons.inj heq).1 hquote
  · rename_i heq
    exact absurd (List.cons.inj heq).1 hslash
  · rename_i heq
    exact absurd (List.cons.inj heq).1 hslash
  · rename_i heq
    obtain ⟨rfl, rfl⟩ := List.cons.inj heq
    rw [hslash', if_neg Bool.false_ne_true, if_neg hcontrol]

theorem stringUnits_escapeChar (c : Char) (cs : List Char) :
    stringUnits (escapeChar c ++ cs) = (stringUnits cs).map fun (units, rest) =>
      (c.toNat :: units, rest) := by
  have hstep (units : Except Flaw (List Nat × List Char)) (n : Nat) :
      (do let (units, rest) ← units; return (n :: units, rest)) =
        units.map fun (units, rest) => (n :: units, rest) := by
    cases units <;> rfl
  rw [escapeChar.eq_def]
  split
  case h_8 hquote hslash hbackspace hfeed hline hreturn htab =>
    split
    · rename_i hcontrol
      obtain ⟨a, b, c', d, hdigits, hquad⟩ := hexQuad_control c.toNat hcontrol
      rw [hdigits]
      simp only [List.cons_append, List.nil_append, stringUnits, hquad]
      exact hstep _ _
    · rename_i hcontrol
      rw [List.singleton_append, stringUnits_plain hquote hslash hcontrol]
      exact hstep _ _
  all_goals
    simp only [List.cons_append, List.nil_append]
    exact hstep _ _

theorem stringUnits_written (cs rest : List Char) :
    stringUnits (cs.flatMap escapeChar ++ '"' :: rest) = .ok (cs.map Char.toNat, rest) := by
  induction cs with
  | nil => simp [stringUnits]
  | cons c cs ih =>
    rw [List.flatMap_cons, List.append_assoc, stringUnits_escapeChar, ih]
    rfl

theorem written_eq (s : String) (rest : List Char) :
    written s ++ rest = '"' :: (s.toList.flatMap escapeChar ++ '"' :: rest) := by
  simp [written]

theorem readString_written (s : String) (rest : List Char) :
    readString (s.toList.flatMap escapeChar ++ '"' :: rest) = (.text s, .ok rest) := by
  rw [readString, stringUnits_written]
  simp [joinUnits_toNat]

/-! ## Whole numbers -/

/-- What follows a number, so that it cannot go on. -/
def EndsNumber (cs : List Char) : Prop :=
  ∀ c ∈ cs.head?, c.isDigit = false ∧ c ≠ '.' ∧ c ≠ 'e' ∧ c ≠ 'E'

theorem head_toDigits {n : Nat} (hn : 0 < n) : (Nat.toDigits 10 n).head? ≠ some '0' := by
  have hsmall : ∀ n < 10, 0 < n → n.digitChar ≠ '0' := by decide
  induction n using Nat.strongRecOn with
  | ind n ih =>
    by_cases hlt : n < 10
    · rw [Nat.toDigits_of_lt_base hlt, List.head?_cons, ne_eq, Option.some.injEq]
      exact hsmall n hlt hn
    · rw [Nat.toDigits_of_base_le (by omega) (by omega),
        List.head?_append, Option.or_of_isSome (by simp)]
      exact ih (n / 10) (by omega) (by omega)

theorem isDigit_toDigits {n : Nat} {c : Char} (h : c ∈ Nat.toDigits 10 n) : c.isDigit = true :=
  Nat.isDigit_of_mem_toDigits (by omega) (by omega) h

theorem digitsAt_eq_iff {cs digits rest : List Char} :
    digitsAt cs = (digits, rest) ↔ cs = digits ++ rest ∧ (∀ c ∈ digits, c.isDigit = true) ∧
      ∀ c ∈ rest.head?, c.isDigit = false := by
  rw [digitsAt, List.span_eq_takeWhile_dropWhile, Prod.mk.injEq]
  constructor
  · rintro ⟨rfl, rfl⟩
    refine ⟨List.takeWhile_append_dropWhile.symm, fun c hc => List.mem_takeWhile_imp hc,
      fun c hc => ?_⟩
    have hhead := List.head?_dropWhile_not Char.isDigit cs
    rw [Option.mem_def.mp hc] at hhead
    exact hhead
  · rintro ⟨rfl, hdigits, hrest⟩
    rw [List.takeWhile_append_of_pos hdigits, List.dropWhile_append_of_pos hdigits]
    cases rest with
    | nil => simp
    | cons c rest => simp [hrest c rfl]

theorem digitsAt_append {digits rest : List Char} (hdigits : ∀ c ∈ digits, c.isDigit = true)
    (hrest : EndsNumber rest) : digitsAt (digits ++ rest) = (digits, rest) :=
  digitsAt_eq_iff.mpr ⟨rfl, hdigits, fun c hc => (hrest c hc).1⟩

theorem absorb_digits {digits : List Char} {value : Nat}
    (h : Nat.ofDigitChars 10 digits value < 0x10000000000000000) :
    absorb value digits = (Nat.ofDigitChars 10 digits value, digits.length) := by
  induction digits generalizing value with
  | nil => rfl
  | cons c rest ih =>
    have hnext : value * 10 + digitValue c = 10 * value + (c.toNat - '0'.toNat) := by
      rw [digitValue]
      omega
    rw [Nat.ofDigitChars_cons] at h ⊢
    have hle : 10 * value + (c.toNat - '0'.toNat) ≤
        Nat.ofDigitChars 10 rest (10 * value + (c.toNat - '0'.toNat)) := by
      rw [Nat.ofDigitChars_eq_ofDigitChars_zero]
      have hpow : 0 < 10 ^ rest.length := Nat.pow_pos (by decide)
      exact Nat.le_trans (Nat.le_mul_of_pos_left _ hpow) (Nat.le_add_right _ _)
    simp only [absorb, hnext, if_pos (Nat.lt_of_le_of_lt hle h), ih h, List.length_cons]

theorem readWhole_toDigits (negative : Bool) (n : Nat) {rest : List Char} (h : EndsNumber rest) :
    readWhole negative (Nat.toDigits 10 n ++ rest) = .ok (Nat.toDigits 10 n, rest) := by
  rw [readWhole, digitsAt_append (fun c hc => isDigit_toDigits hc) h]
  split
  · rename_i hnil
    exact absurd (Prod.mk.inj hnil).1 Nat.toDigits_ne_nil
  · rename_i d digits hzero
    have hdigits := (Prod.mk.inj hzero).1
    rcases Nat.eq_zero_or_pos n with rfl | hn
    · rw [Nat.toDigits_zero] at hdigits
      cases hdigits
    · exact absurd (by rw [hdigits]; rfl) (head_toDigits hn)
  · rename_i heq
    obtain ⟨hdigits, hrest⟩ := Prod.mk.inj heq
    rw [hdigits, hrest]

theorem readNumeral_wholeText (n : Int) {rest : List Char} (h : EndsNumber rest) :
    readNumeral (wholeText n ++ rest) =
      .ok (⟨decide (n < 0), Nat.toDigits 10 n.natAbs, none, none⟩, rest) := by
  have hfraction : readFraction rest = .ok (none, rest) := by
    rw [readFraction.eq_def]
    split
    · exact absurd rfl (h '.' rfl).2.1
    · rfl
  have hexponent : readExponent rest = .ok (none, rest) := by
    cases rest with
    | nil => rfl
    | cons c rest =>
      obtain ⟨_, _, he, hE⟩ := h c rfl
      simp [readExponent, he, hE]
  have hwhole (negative : Bool) := readWhole_toDigits negative n.natAbs h
  by_cases hn : n < 0
  · rw [wholeText, if_pos hn, decide_eq_true hn, List.singleton_append, List.cons_append,
      readNumeral]
    simp only [hwhole, hfraction, hexponent, bind, Except.bind, pure, Except.pure]
  · rw [wholeText, if_neg hn, decide_eq_false hn, List.nil_append, readNumeral]
    · simp only [hwhole, hfraction, hexponent, bind, Except.bind, pure, Except.pure]
    · -- no digit is a minus
      intro others hminus
      have hmem : '-' ∈ Nat.toDigits 10 n.natAbs := by
        cases hdigits : Nat.toDigits 10 n.natAbs with
        | nil => exact absurd hdigits Nat.toDigits_ne_nil
        | cons c digits =>
          rw [hdigits] at hminus
          rw [(List.cons.inj hminus).1]
          exact List.mem_cons_self
      exact absurd (isDigit_toDigits hmem) (by decide)

theorem number?_whole (n : WideInt) :
    Numeral.number? ⟨decide (n.val < 0), Nat.toDigits 10 n.val.natAbs, none, none⟩ =
      some (.whole n) := by
  have hlower := n.lower
  have hupper := n.upper
  have habsorb : absorb 0 (Nat.toDigits 10 n.val.natAbs) =
      (n.val.natAbs, (Nat.toDigits 10 n.val.natAbs).length) := by
    rw [absorb_digits (by rw [Nat.ofDigitChars_ten_toDigits]; omega),
      Nat.ofDigitChars_ten_toDigits]
  rw [Numeral.number?, habsorb]
  dsimp only
  rw [Int.sub_self, if_pos (by decide)]
  by_cases hn : n.val < 0
  · have hzero : (n.val.natAbs == 0) = false := by
      rw [beq_eq_false_iff_ne]
      omega
    have hval : -(n.val.natAbs : Int) = n.val := by omega
    rw [decide_eq_true hn, if_neg (by decide), hzero, if_neg (by decide), if_pos (by omega), hval,
      WideInt.ofInt?_val]
    rfl
  · have hval : (n.val.natAbs : Int) = n.val := by omega
    rw [decide_eq_false hn, if_pos (by decide), hval, WideInt.ofInt?_val]
    rfl

theorem readNumber_wholeText (n : WideInt) {rest : List Char} (h : EndsNumber rest) :
    readNumber (wholeText n.val ++ rest) = (.number (.whole n), .ok rest) := by
  rw [readNumber, readNumeral_wholeText n.val h]
  simp only [number?_whole]

end Rulebook.Json
