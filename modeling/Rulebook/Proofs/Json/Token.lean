import Rulebook.Proofs.Decode.Flaws
import Rulebook.Proofs.Json.Pretty

/-!
# Words, numbers and texts

What the reader takes of a text for a word, a number or a text, it takes in the same way wherever else
it stands, as long as nothing follows that could continue a number.
-/

namespace Rulebook.Json

set_option autoImplicit false

variable {cs rest : List Char}

/-! ## Texts and words -/

theorem stringUnits_split {units : List Nat} (h : stringUnits cs = .ok (units, rest)) :
    ∃ taken, cs = taken ++ rest ∧ ∀ more, stringUnits (taken ++ more) = .ok (units, more) := by
  fun_induction stringUnits cs generalizing units with
  | case1 => cases h
  | case2 rest' =>
    cases h
    exact ⟨['"'], rfl, fun more => rfl⟩
  | case3 a b c d rest' hquad => cases h
  | case4 a b c d rest' unit hquad ih =>
    obtain ⟨⟨units', rest''⟩, hunits, hreturn⟩ := Except.bind_ok h
    cases hreturn
    obtain ⟨taken, rfl, hmore⟩ := ih hunits
    refine ⟨'\\' :: 'u' :: a :: b :: c :: d :: taken, rfl, fun more => ?_⟩
    simp only [List.cons_append, stringUnits, hquad, hmore, bind, Except.bind, pure, Except.pure]
  | case5 e rest' hne hescape => cases h
  | case6 e rest' _ unit hescape ih =>
    obtain ⟨⟨units', rest''⟩, hunits, hreturn⟩ := Except.bind_ok h
    cases hreturn
    obtain ⟨taken, rfl, hmore⟩ := ih hunits
    have hplain : e = 'u' → False := by
      rintro rfl
      cases hescape
    refine ⟨'\\' :: e :: taken, rfl, fun more => ?_⟩
    rw [List.cons_append, List.cons_append, stringUnits.eq_4 _ _ fun _ _ _ _ _ he _ => hplain he]
    simp only [hescape, hmore, bind, Except.bind, pure, Except.pure]
  | case7 => cases h
  | case8 => cases h
  | case9 c rest' hquote _ _ hslash hcontrol ih =>
    obtain ⟨⟨units', rest''⟩, hunits, hreturn⟩ := Except.bind_ok h
    cases hreturn
    obtain ⟨taken, rfl, hmore⟩ := ih hunits
    refine ⟨c :: taken, rfl, fun more => ?_⟩
    rw [List.cons_append, stringUnits_plain hquote (fun heq => hslash (by rw [heq]; rfl)) hcontrol, hmore]
    rfl

theorem readWord_split {value s : Source} {word : List Char}
    (h : readWord value word cs = (s, .ok rest)) : s = value ∧ cs = word ++ rest := by
  induction word generalizing cs with
  | nil =>
    cases h
    exact ⟨rfl, rfl⟩
  | cons w word ih =>
    cases cs with
    | nil => cases h
    | cons c cs =>
      rw [readWord] at h
      split at h
      · rename_i heq
        obtain ⟨hs, hcs⟩ := ih h
        exact ⟨hs, by rw [heq, hcs, List.cons_append]⟩
      · cases h

/-! ## Numbers -/

theorem readWhole_split {negative : Bool} {digits : List Char}
    (h : readWhole negative cs = .ok (digits, rest)) :
    cs = digits ++ rest ∧ digits ≠ [] ∧ (∀ c ∈ digits, c.isDigit = true) ∧
      ∀ more, (∀ c ∈ more.head?, c.isDigit = false) →
        readWhole negative (digits ++ more) = .ok (digits, more) := by
  cases hread : digitsAt cs with
  | mk taken after =>
    obtain ⟨hcs, hall, -⟩ := digitsAt_eq_iff.mp hread
    rw [readWhole, hread] at h
    split at h
    · cases h
    · cases h
    · rename_i hempty hzero heq
      obtain ⟨rfl, rfl⟩ := Prod.mk.inj (Except.ok.inj h)
      obtain ⟨rfl, rfl⟩ := Prod.mk.inj heq
      refine ⟨hcs, hempty, hall, fun more hmore => ?_⟩
      rw [readWhole, digitsAt_eq_iff.mpr ⟨rfl, hall, hmore⟩]
      split
      · rename_i heq
        exact (hempty (Prod.mk.inj heq).1).elim
      · rename_i d digits rest heq
        exact (hzero d digits (Prod.mk.inj heq).1).elim
      · rename_i heq
        obtain ⟨rfl, rfl⟩ := Prod.mk.inj heq
        rfl

theorem readFraction_split {fraction : Option (List Char)}
    (h : readFraction cs = .ok (fraction, rest)) :
    ∃ taken, cs = taken ++ rest ∧ (∀ c ∈ taken.head?, c = '.') ∧
      ∀ more, (∀ c ∈ more.head?, c.isDigit = false ∧ c ≠ '.') →
        readFraction (taken ++ more) = .ok (fraction, more) := by
  rw [readFraction.eq_def] at h
  split at h
  · rename_i rest'
    cases hread : digitsAt rest' with
    | mk digits after =>
      rw [hread] at h
      obtain ⟨rfl, hall, -⟩ := digitsAt_eq_iff.mp hread
      split at h
      · cases h
      · rename_i hempty heq
        obtain ⟨rfl, rfl⟩ := Prod.mk.inj heq
        cases h
        refine ⟨'.' :: digits, rfl, fun c hc => (Option.some.inj hc).symm, fun more hmore => ?_⟩
        simp only [List.cons_append, readFraction,
          digitsAt_eq_iff.mpr ⟨rfl, hall, fun c hc => (hmore c hc).1⟩]
  · cases h
    refine ⟨[], rfl, by simp, fun more hmore => ?_⟩
    rw [List.nil_append, readFraction.eq_def]
    split
    · exact absurd rfl (hmore '.' rfl).2
    · rfl

/-- The digits of an exponent. -/
def exponentDigits (negative : Bool) (cs : List Char) :
    Except Flaw (Option (Bool × List Char) × List Char) :=
  match digitsAt cs with
  | ([], rest) => .error (missingDigit rest)
  | (digits, rest) => .ok (some (negative, digits), rest)

theorem exponentDigits_split {negative : Bool} {exponent : Option (Bool × List Char)}
    (h : exponentDigits negative cs = .ok (exponent, rest)) :
    ∃ c digits, cs = c :: (digits ++ rest) ∧ c.isDigit = true ∧
      ∀ more, EndsNumber more →
        exponentDigits negative (c :: (digits ++ more)) = .ok (exponent, more) := by
  cases hread : digitsAt cs with
  | mk taken after =>
    obtain ⟨rfl, hall, -⟩ := digitsAt_eq_iff.mp hread
    rw [exponentDigits, hread] at h
    cases taken with
    | nil => cases h
    | cons c digits =>
      cases h
      refine ⟨c, digits, rfl, hall c List.mem_cons_self, fun more hmore => ?_⟩
      rw [← List.cons_append, exponentDigits, digitsAt_append hall hmore]

theorem readExponent_plus {c : Char} (hc : c = 'e' ∨ c = 'E') (cs : List Char) :
    readExponent (c :: '+' :: cs) = exponentDigits false cs := by
  rcases hc with rfl | rfl <;> rfl

theorem readExponent_minus {c : Char} (hc : c = 'e' ∨ c = 'E') (cs : List Char) :
    readExponent (c :: '-' :: cs) = exponentDigits true cs := by
  rcases hc with rfl | rfl <;> rfl

theorem readExponent_unsigned {c : Char} (hc : c = 'e' ∨ c = 'E')
    (hsign : ∀ d ∈ cs.head?, d ≠ '+' ∧ d ≠ '-') :
    readExponent (c :: cs) = exponentDigits false cs := by
  have hletter : (c == 'e' || c == 'E') = true := by rcases hc with rfl | rfl <;> rfl
  rw [readExponent, if_pos hletter]
  · rfl
  · rintro rest rfl
    exact (hsign '+' rfl).1 rfl
  · rintro rest rfl
    exact (hsign '-' rfl).2 rfl

theorem readExponent_none (h : ∀ c ∈ cs.head?, c ≠ 'e' ∧ c ≠ 'E') :
    readExponent cs = .ok (none, cs) := by
  cases cs with
  | nil => rfl
  | cons c cs =>
    obtain ⟨he, hE⟩ := h c rfl
    simp [readExponent, he, hE]

theorem readExponent_split {exponent : Option (Bool × List Char)}
    (h : readExponent cs = .ok (exponent, rest)) :
    ∃ taken, cs = taken ++ rest ∧ (∀ c ∈ taken.head?, c = 'e' ∨ c = 'E') ∧
      ∀ more, EndsNumber more → readExponent (taken ++ more) = .ok (exponent, more) := by
  by_cases hletter : ∃ c cs', cs = c :: cs' ∧ (c = 'e' ∨ c = 'E')
  · obtain ⟨c, cs, rfl, hc⟩ := hletter
    by_cases hplus : ∃ cs', cs = '+' :: cs'
    · obtain ⟨cs, rfl⟩ := hplus
      rw [readExponent_plus hc] at h
      obtain ⟨d, digits, rfl, -, hmore⟩ := exponentDigits_split h
      refine ⟨c :: '+' :: d :: digits, rfl, fun e he => Option.some.inj he ▸ hc, fun more hends => ?_⟩
      exact (readExponent_plus hc _).trans (hmore more hends)
    · by_cases hminus : ∃ cs', cs = '-' :: cs'
      · obtain ⟨cs, rfl⟩ := hminus
        rw [readExponent_minus hc] at h
        obtain ⟨d, digits, rfl, -, hmore⟩ := exponentDigits_split h
        refine ⟨c :: '-' :: d :: digits, rfl, fun e he => Option.some.inj he ▸ hc,
          fun more hends => ?_⟩
        exact (readExponent_minus hc _).trans (hmore more hends)
      · rw [readExponent_unsigned hc] at h
        · obtain ⟨d, digits, rfl, hd, hmore⟩ := exponentDigits_split h
          refine ⟨c :: d :: digits, rfl, fun e he => Option.some.inj he ▸ hc, fun more hends => ?_⟩
          refine (readExponent_unsigned hc fun e he => ?_).trans (hmore more hends)
          rw [← Option.some.inj he]
          exact ⟨fun heq => hplus ⟨_, by rw [heq]⟩, fun heq => hminus ⟨_, by rw [heq]⟩⟩
        · rintro d hd
          cases cs with
          | nil => cases hd
          | cons d' cs =>
            cases hd
            exact ⟨fun heq => hplus ⟨_, by rw [heq]⟩, fun heq => hminus ⟨_, by rw [heq]⟩⟩
  · rw [readExponent_none fun c hc => ?_] at h
    · cases h
      refine ⟨[], rfl, by simp, fun more hends => readExponent_none fun c hc => (hends c hc).2.2⟩
    · cases cs with
      | nil => cases hc
      | cons d cs =>
        cases hc
        exact not_or.mp fun hc => hletter ⟨c, cs, rfl, hc⟩

/-- A number behind its sign. -/
def readUnsigned (negative : Bool) (cs : List Char) : Except Flaw (Numeral × List Char) := do
  let (whole, cs) ← readWhole negative cs
  let (fraction, cs) ← readFraction cs
  let (exponent, cs) ← readExponent cs
  return (⟨negative, whole, fraction, exponent⟩, cs)

theorem readUnsigned_split {negative : Bool} {numeral : Numeral}
    (h : readUnsigned negative cs = .ok (numeral, rest)) :
    ∃ c taken, cs = c :: (taken ++ rest) ∧ c.isDigit = true ∧
      ∀ more, EndsNumber more →
        readUnsigned negative (c :: (taken ++ more)) = .ok (numeral, more) := by
  obtain ⟨⟨whole, cs₁⟩, hwhole, h⟩ := Except.bind_ok h
  obtain ⟨⟨fraction, cs₂⟩, hfraction, h⟩ := Except.bind_ok h
  obtain ⟨⟨exponent, cs₃⟩, hexponent, h⟩ := Except.bind_ok h
  cases h
  obtain ⟨rfl, hne, hdigits, hwhole'⟩ := readWhole_split hwhole
  obtain ⟨point, rfl, hpoint, hfraction'⟩ := readFraction_split hfraction
  obtain ⟨letter, rfl, hletter, hexponent'⟩ := readExponent_split hexponent
  obtain ⟨c, digits, rfl⟩ := List.exists_cons_of_ne_nil hne
  refine ⟨c, digits ++ (point ++ letter), by simp, hdigits c List.mem_cons_self, fun more hmore => ?_⟩
  -- what follows the digits and what follows the fraction is no digit and no point
  have hafter : ∀ c ∈ (letter ++ more).head?, c.isDigit = false ∧ c ≠ '.' := by
    cases letter with
    | nil => exact fun c hc => ⟨(hmore c hc).1, (hmore c hc).2.1⟩
    | cons e letter =>
      intro c hc
      cases hc
      rcases hletter _ rfl with rfl | rfl <;> decide
  have hbehind : ∀ c ∈ (point ++ (letter ++ more)).head?, c.isDigit = false := by
    cases point with
    | nil => exact fun c hc => (hafter c hc).1
    | cons d point =>
      intro c hc
      cases hc
      rw [hpoint _ rfl]
      decide
  have htext : c :: (digits ++ (point ++ letter) ++ more) =
      (c :: digits) ++ (point ++ (letter ++ more)) := by simp
  simp only [htext, readUnsigned, hwhole' _ hbehind, hfraction' _ hafter, hexponent' _ hmore,
    bind, Except.bind, pure, Except.pure]

theorem readNumeral_unsigned (h : ∀ c ∈ cs.head?, c ≠ '-') :
    readNumeral cs = readUnsigned false cs := by
  rw [readNumeral]
  · rfl
  · rintro rest rfl
    exact h '-' rfl rfl

theorem readNumeral_split {numeral : Numeral} (h : readNumeral cs = .ok (numeral, rest)) :
    ∃ c taken, cs = c :: (taken ++ rest) ∧ (c = '-' ∨ c.isDigit = true) ∧
      ∀ more, EndsNumber more → readNumeral (c :: (taken ++ more)) = .ok (numeral, more) := by
  by_cases hsign : ∃ cs', cs = '-' :: cs'
  · obtain ⟨cs, rfl⟩ := hsign
    obtain ⟨c, taken, rfl, -, hmore⟩ := readUnsigned_split (h : readUnsigned true cs = _)
    exact ⟨'-', c :: taken, rfl, .inl rfl, fun more hends => hmore more hends⟩
  · rw [readNumeral_unsigned fun c hc heq => ?_] at h
    · obtain ⟨c, taken, rfl, hdigit, hmore⟩ := readUnsigned_split h
      refine ⟨c, taken, rfl, .inr hdigit, fun more hends => ?_⟩
      refine (readNumeral_unsigned fun d hd heq => ?_).trans (hmore more hends)
      rw [← Option.some.inj hd] at heq
      exact hsign ⟨_, by rw [heq]⟩
    · cases cs with
      | nil => cases hc
      | cons d cs =>
        cases hc
        exact hsign ⟨cs, by rw [heq]⟩

/-! ## Sources -/

theorem readString_split {s : Source} (h : readString cs = (s, .ok rest)) :
    s.flaw? = none ∧ ∃ taken, cs = taken ++ rest ∧
      ∀ more, ∃ s', readString (taken ++ more) = (s', .ok more) ∧ s'.forget = s.forget := by
  rw [readString] at h
  split at h
  · cases h
  · rename_i units after hunits
    obtain ⟨taken, rfl, hmore⟩ := stringUnits_split hunits
    cases hchars : joinUnits units with
    | some chars =>
      rw [hchars] at h
      cases h
      exact ⟨rfl, taken, rfl, fun more => ⟨_, by simp only [readString, hmore, hchars], rfl⟩⟩
    | none =>
      rw [hchars] at h
      cases h
      exact ⟨rfl, taken, rfl, fun more => ⟨.unreadable (.last .loneSurrogate more) none,
        by simp only [readString, hmore, hchars], rfl⟩⟩

theorem readNumber_split {s : Source} (h : readNumber cs = (s, .ok rest)) :
    s.flaw? = none ∧ ∃ c taken, cs = c :: (taken ++ rest) ∧ (c = '-' ∨ c.isDigit = true) ∧
      ∀ more, EndsNumber more →
        ∃ s', readNumber (c :: (taken ++ more)) = (s', .ok more) ∧ s'.forget = s.forget := by
  rw [readNumber] at h
  split at h
  · cases h
  · rename_i numeral after hnumeral
    obtain ⟨c, taken, rfl, hc, hmore⟩ := readNumeral_split hnumeral
    cases hnumber : numeral.number? with
    | some n =>
      rw [hnumber] at h
      cases h
      exact ⟨rfl, c, taken, rfl, hc, fun more hends =>
        ⟨_, by simp only [readNumber, hmore more hends, hnumber], rfl⟩⟩
    | none =>
      rw [hnumber] at h
      cases h
      exact ⟨rfl, c, taken, rfl, hc, fun more hends => ⟨.unreadable (.last .numberTooLarge more) none,
        by simp only [readNumber, hmore more hends, hnumber], rfl⟩⟩

/-! ## Tokens -/

/-- The characters are read in the same way in front of all that does not continue a number. -/
def ReadsAs (cs : List Char) (s : Source) : Prop :=
  ∀ fuel depth more, EndsNumber more →
    ∃ s', readValue (fuel + 1) depth (cs ++ more) = (s', .ok more) ∧ s'.forget = s

variable {fuel depth : Nat} {s : Source}

theorem readsAs_word {value : Source} {first : Char} {word : List Char}
    (hword : ∀ fuel depth cs, readValue (fuel + 1) depth (first :: cs) = readWord value word cs) :
    ReadsAs (first :: word) value.forget := fun fuel depth more _ =>
  ⟨value, by rw [List.cons_append, hword, readWord_append], rfl⟩

/-- What is no list and no table is read in one step, and is free of flaws if it can be read. -/
theorem readValue_split {c : Char} {text : List Char} (hlist : c ≠ '[') (htable : c ≠ openBrace)
    (hblank : isBlank c = false) (h : readValue (fuel + 1) depth (c :: text) = (s, .ok rest)) :
    s.flaw? = none ∧ ∃ taken, text = taken ++ rest ∧ ReadsAs (c :: taken) s.forget := by
  have hreads {value : Source} {first : Char} {word : List Char}
      (hword : ∀ fuel depth cs, readValue (fuel + 1) depth (first :: cs) = readWord value word cs)
      (hvalue : value.flaw? = none) (h : readWord value word text = (s, .ok rest)) :
      s.flaw? = none ∧ ∃ taken, text = taken ++ rest ∧ ReadsAs (first :: taken) s.forget := by
    obtain ⟨rfl, rfl⟩ := readWord_split h
    exact ⟨hvalue, word, rfl, readsAs_word hword⟩
  have hcases := h
  rw [readValue, skipBlank_cons hblank] at hcases
  split at hcases
  · rename_i heq
    exact absurd (List.cons.inj heq).1 htable
  · rename_i heq
    exact absurd (List.cons.inj heq).1 hlist
  · rename_i heq
    obtain ⟨rfl, rfl⟩ := List.cons.inj heq
    obtain ⟨hflaw, taken, rfl, hmore⟩ := readString_split hcases
    exact ⟨hflaw, taken, rfl, fun fuel depth more _ => hmore more⟩
  · rename_i heq
    obtain ⟨rfl, rfl⟩ := List.cons.inj heq
    exact hreads (fun _ _ _ => rfl) rfl hcases
  · rename_i heq
    obtain ⟨rfl, rfl⟩ := List.cons.inj heq
    exact hreads (fun _ _ _ => rfl) rfl hcases
  · rename_i heq
    obtain ⟨rfl, rfl⟩ := List.cons.inj heq
    exact hreads (fun _ _ _ => rfl) rfl hcases
  · obtain ⟨hflaw, d, taken, heq, hd, hmore⟩ := readNumber_split hcases
    obtain ⟨rfl, rfl⟩ := List.cons.inj heq
    refine ⟨hflaw, taken, rfl, fun fuel depth more hends => ?_⟩
    rw [List.cons_append, readValue_number hd]
    exact hmore more hends

/-- A word, a number or a text: the reader takes it whole in one step. -/
def IsToken (cs : List Char) : Prop :=
  (∀ c ∈ cs.head?, isBlank c = false) ∧ (readValue 1 0 cs).2 = .ok []

/-- What a token is read as. -/
def tokenSource (cs : List Char) : Source := (readValue 1 0 cs).1.forget

theorem ReadsAs.isToken {c : Char} (h : ReadsAs (c :: cs) s) (hblank : isBlank c = false) :
    IsToken (c :: cs) ∧ tokenSource (c :: cs) = s := by
  obtain ⟨s', hread, hs'⟩ := h 0 0 [] (by simp [EndsNumber])
  rw [List.append_nil] at hread
  refine ⟨⟨fun d hd => Option.some.inj hd ▸ hblank, by rw [hread]⟩, ?_⟩
  rw [tokenSource, hread, hs']

theorem IsToken.readsAs (h : IsToken cs) :
    ReadsAs cs (tokenSource cs) ∧ (tokenSource cs).flaw? = none := by
  obtain ⟨hblank, hread⟩ := h
  cases cs with
  | nil => cases hread
  | cons c text =>
    have hlist : c ≠ '[' := by
      rintro rfl
      cases hread
    have htable : c ≠ openBrace := by
      rintro rfl
      cases hread
    obtain ⟨hflaw, taken, htext, hreads⟩ := readValue_split hlist htable (hblank c rfl)
      (Prod.ext rfl hread : readValue 1 0 (c :: text) = ((readValue 1 0 (c :: text)).1, .ok []))
    rw [List.append_nil] at htext
    rw [htext] at hreads hflaw ⊢
    exact ⟨hreads, by rw [tokenSource, Source.flaw?_forget, hflaw]⟩

theorem token_written (s : String) :
    IsToken (written s) ∧ tokenSource (written s) = .text s := by
  have hreads : ReadsAs (written s) (.text s) := fun fuel depth more _ =>
    ⟨.text s, by rw [written_eq]; exact readString_written s more, rfl⟩
  exact hreads.isToken (by decide)

end Rulebook.Json
