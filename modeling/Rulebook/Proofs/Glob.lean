import Mathlib.Data.List.TakeWhile
import Rulebook.Glob

/-!
# What patterns spell, and what they match

The pattern language without a reader: how the characters of a pattern spell its pieces, and which
texts pieces match. The reader accepts exactly what spells pieces, and a pattern it has read matches
what the pieces match. It may leave out any directories that follow any directories, so the pieces it
reads are not always those that are spelled.
-/

namespace Rulebook

set_option autoImplicit false

namespace Glob

/-- The first piece of a pattern behind the character `before`, with its last character and what
follows it. -/
inductive SpellsFirst : Option Char → List Char → Piece → Char → List Char → Prop
  | char {before c rest} (hplain : c ∉ ['?', '*', '[']) : SpellsFirst before (c :: rest) (.char c) c rest
  | anyChar {before rest} : SpellsFirst before ('?' :: rest) .anyChar '?' rest
  | anyText {before rest} (hone : rest.head? ≠ some '*') :
      SpellsFirst before ('*' :: rest) .anyText '*' rest
  | directories {before rest} (hbefore : ∀ c, before = some c → c = '/') :
      SpellsFirst before ('*' :: '*' :: '/' :: rest) .anyDirectories '/' rest
  | lastDirectories {before} (hbefore : ∀ c, before = some c → c = '/') :
      SpellsFirst before ['*', '*'] .anyDirectories '*' []
  | oneOf {before first more rest} (hfirst : first ≠ '!') (hmore : ']' ∉ more) :
      SpellsFirst before ('[' :: first :: more ++ ']' :: rest) (.oneOf (ranges (first :: more))) ']' rest
  | noneOf {before first more rest} (hmore : ']' ∉ more) :
      SpellsFirst before ('[' :: '!' :: first :: more ++ ']' :: rest)
        (.noneOf (ranges (first :: more))) ']' rest

/-- The pieces of a pattern behind the character `before`. -/
inductive Spells : Option Char → List Char → List Piece → Prop
  | nil {before} : Spells before [] []
  | cons {before cs piece last rest pieces} (hfirst : SpellsFirst before cs piece last rest)
      (hrest : Spells (some last) rest pieces) : Spells before cs (piece :: pieces)

/-- What any directories may leave of a text: all of it, nothing, or what follows a slash. -/
def SkipsTo (cs tail : List Char) : Prop := tail = cs ∨ tail = [] ∨ '/' :: tail <:+ cs

inductive Matches : List Piece → List Char → Prop
  | nil : Matches [] []
  | one {piece pieces c cs} (hadmits : piece.admits c = true) (hrest : Matches pieces cs) :
      Matches (piece :: pieces) (c :: cs)
  | anyText {pieces cs tail} (hskip : tail <:+ cs) (hrest : Matches pieces tail) :
      Matches (.anyText :: pieces) cs
  | anyDirectories {pieces cs tail} (hskip : SkipsTo cs tail) (hrest : Matches pieces tail) :
      Matches (.anyDirectories :: pieces) cs

variable {piece : Piece} {pieces soFar : List Piece} {before : Option Char} {c : Char}
variable {cs tail rest : List Char} {fuel position : Nat}

/-! ## Matching -/

theorem mem_suffixes : tail ∈ suffixes cs ↔ tail <:+ cs := by
  induction cs with
  | nil => rw [suffixes, List.mem_singleton, List.suffix_nil]
  | cons c cs ih => rw [suffixes, List.mem_cons, List.suffix_cons_iff, ih]

theorem mem_afterSlashes : tail ∈ afterSlashes cs ↔ '/' :: tail <:+ cs := by
  induction cs with
  | nil => simp [afterSlashes]
  | cons c cs ih =>
    rw [afterSlashes, List.suffix_cons_iff]
    split
    · rename_i hslash
      rw [List.mem_cons, ih, hslash, List.cons.injEq, eq_self, true_and]
    · rename_i hother
      rw [ih, List.cons.injEq, eq_comm (a := '/')]
      simp [hother]

theorem piecesMatch_iff : piecesMatch pieces cs = true ↔ Matches pieces cs := by
  induction pieces generalizing cs with
  | nil =>
    rw [piecesMatch, List.isEmpty_iff]
    constructor
    · rintro rfl
      exact .nil
    · rintro ⟨⟩
      rfl
  | cons piece pieces ih =>
    have hone : (∃ c tail, cs = c :: tail ∧ piece.admits c = true ∧ Matches pieces tail) →
        Matches (piece :: pieces) cs := by
      rintro ⟨c, tail, rfl, hadmits, hrest⟩
      exact .one hadmits hrest
    cases piece with
    | anyText =>
      simp only [piecesMatch, List.any_eq_true, mem_suffixes, ih]
      constructor
      · rintro ⟨tail, hskip, hrest⟩
        exact .anyText hskip hrest
      · rintro (_ | ⟨hadmits, -⟩ | ⟨hskip, hrest⟩ | _)
        · cases hadmits
        · exact ⟨_, hskip, hrest⟩
    | anyDirectories =>
      simp only [piecesMatch, List.any_eq_true, List.mem_cons, mem_afterSlashes, ih]
      constructor
      · rintro ⟨tail, hskip, hrest⟩
        exact .anyDirectories hskip hrest
      · rintro (_ | ⟨hadmits, -⟩ | _ | ⟨hskip, hrest⟩)
        · cases hadmits
        · exact ⟨_, hskip, hrest⟩
    | char d | anyChar | oneOf rs | noneOf rs =>
      cases cs with
      | nil =>
        simp only [piecesMatch, Bool.false_eq_true, false_iff]
        rintro ⟨⟩
      | cons c cs =>
        simp only [piecesMatch, Bool.and_eq_true, ih]
        constructor
        · rintro ⟨hadmits, hrest⟩
          exact .one hadmits hrest
        · rintro (_ | ⟨hadmits, hrest⟩)
          exact ⟨hadmits, hrest⟩

/-! ## Reading -/

/-- The same texts match. -/
def Alike (as bs : List Piece) : Prop := ∀ cs, Matches as cs ↔ Matches bs cs

theorem SkipsTo.refl (cs : List Char) : SkipsTo cs cs := .inl rfl

theorem SkipsTo.trans {as bs : List Char} (h : SkipsTo as bs) (h' : SkipsTo bs cs) : SkipsTo as cs := by
  rcases h' with rfl | rfl | hslash
  · exact h
  · exact .inr (.inl rfl)
  · rcases h with rfl | rfl | hbehind
    · exact .inr (.inr hslash)
    · exact absurd (List.suffix_nil.mp hslash) (List.cons_ne_nil _ _)
    · exact .inr (.inr (hslash.trans ((List.suffix_cons _ _).trans hbehind)))

theorem matches_append_left {as bs : List Piece} (h : ∀ cs, Matches as cs → Matches bs cs)
    (hmatches : Matches (pieces ++ as) cs) : Matches (pieces ++ bs) cs := by
  induction pieces generalizing cs with
  | nil => exact h cs hmatches
  | cons piece pieces ih =>
    cases hmatches with
    | one hadmits hrest => exact .one hadmits (ih hrest)
    | anyText hskip hrest => exact .anyText hskip (ih hrest)
    | anyDirectories hskip hrest => exact .anyDirectories hskip (ih hrest)

theorem Alike.append_left {as bs : List Piece} (h : Alike as bs) (pieces : List Piece) :
    Alike (pieces ++ as) (pieces ++ bs) := fun _ =>
  ⟨matches_append_left fun cs => (h cs).mp, matches_append_left fun cs => (h cs).mpr⟩

/-- Any directories of any directories are any directories. -/
theorem alike_anyDirectories_twice (pieces : List Piece) :
    Alike (.anyDirectories :: pieces) (.anyDirectories :: .anyDirectories :: pieces) := by
  intro cs
  constructor
  · exact .anyDirectories (.refl cs)
  · rintro (_ | ⟨hadmits, -⟩ | _ | ⟨hskip, hrest⟩)
    · cases hadmits
    · rcases hrest with _ | ⟨hadmits, -⟩ | _ | ⟨hskip', hrest⟩
      · cases hadmits
      · exact .anyDirectories (hskip.trans hskip') hrest

theorem alike_addDirectories (soFar pieces : List Piece) :
    Alike (addDirectories soFar ++ pieces) (soFar ++ .anyDirectories :: pieces) := by
  rw [addDirectories]
  split
  · rename_i hlast
    rw [Bool.and_eq_true, beq_iff_eq, List.getLast?_eq_some_iff] at hlast
    obtain ⟨front, rfl⟩ := hlast.2
    rw [List.append_assoc, List.append_assoc]
    exact (alike_anyDirectories_twice pieces).append_left front
  · rw [List.append_assoc]
    exact fun _ => Iff.rfl

theorem not_mem_takeWhile : c ∉ cs.takeWhile (· != c) := by
  intro hmem
  have hne := List.mem_takeWhile_imp hmem
  simp at hne

theorem takeWhile_append_cons (h : c ∉ cs) : (cs ++ c :: rest).takeWhile (· != c) = cs := by
  have hcs : ∀ d ∈ cs, (d != c) = true := by
    intro d hd
    rw [bne_iff_ne]
    rintro rfl
    exact h hd
  rw [List.takeWhile_append_of_pos hcs, List.takeWhile_cons_of_neg (by simp), List.append_nil]

/-- What ends before the whole text does ends at the character that it stops at. -/
theorem exists_append_cons (h : (cs.takeWhile (· != c)).length < cs.length) :
    ∃ rest, cs = cs.takeWhile (· != c) ++ c :: rest := by
  have hsplit : cs.takeWhile (· != c) ++ cs.dropWhile (· != c) = cs := List.takeWhile_append_dropWhile
  cases hafter : cs.dropWhile (· != c) with
  | nil =>
    rw [hafter, List.append_nil] at hsplit
    rw [hsplit] at h
    exact absurd h (Nat.lt_irrefl _)
  | cons d rest =>
    have hd : d = c := by
      have hne : cs.dropWhile (· != c) ≠ [] := by rw [hafter]; exact List.cons_ne_nil _ _
      simpa [hafter] using List.head_dropWhile_not _ hne
    rw [hafter, hd] at hsplit
    exact ⟨rest, hsplit.symm⟩

theorem readClass_eq_some_iff {rs : List CharRange} {n : Nat} :
    readClass cs = some (rs, n) ↔ ∃ first more rest, cs = first :: more ++ ']' :: rest ∧ ']' ∉ more ∧
      rs = ranges (first :: more) ∧ n = more.length + 2 := by
  constructor
  · intro h
    cases cs with
    | nil => cases h
    | cons first tail =>
      simp only [readClass, Option.ite_none_right_eq_some, Option.some.injEq, Prod.mk.injEq] at h
      obtain ⟨hlonger, hrs, hn⟩ := h
      obtain ⟨rest, hrest⟩ := exists_append_cons hlonger
      exact ⟨first, _, rest, congrArg (first :: ·) hrest, not_mem_takeWhile, hrs.symm, hn.symm⟩
  · rintro ⟨first, more, rest, rfl, hmore, rfl, rfl⟩
    simp [readClass, takeWhile_append_cons hmore]

theorem readBracket_eq_some_iff {n : Nat} :
    readBracket cs = some (piece, n) ↔ ∃ first more rest, ']' ∉ more ∧
      (first ≠ '!' ∧ cs = first :: more ++ ']' :: rest ∧ piece = .oneOf (ranges (first :: more)) ∧
          n = more.length + 3 ∨
        cs = '!' :: first :: more ++ ']' :: rest ∧ piece = .noneOf (ranges (first :: more)) ∧
          n = more.length + 4) := by
  unfold readBracket
  split
  · rename_i tail
    rw [Option.map_eq_some_iff]
    constructor
    · rintro ⟨⟨rs, m⟩, hclass, hpair⟩
      obtain ⟨first, more, rest, rfl, hmore, rfl, rfl⟩ := readClass_eq_some_iff.mp hclass
      obtain ⟨rfl, rfl⟩ := Prod.mk.inj hpair
      exact ⟨first, more, rest, hmore, .inr ⟨rfl, rfl, rfl⟩⟩
    · rintro ⟨first, more, rest, hmore, ⟨hfirst, hcs, -⟩ | ⟨hcs, rfl, rfl⟩⟩
      · exact absurd (List.cons.inj hcs).1.symm hfirst
      · refine ⟨⟨_, _⟩, readClass_eq_some_iff.mpr ⟨first, more, rest, ?_, hmore, rfl, rfl⟩, rfl⟩
        exact (List.cons.inj hcs).2
  · rename_i hplain
    rw [Option.map_eq_some_iff]
    constructor
    · rintro ⟨⟨rs, m⟩, hclass, hpair⟩
      obtain ⟨first, more, rest, rfl, hmore, rfl, rfl⟩ := readClass_eq_some_iff.mp hclass
      obtain ⟨rfl, rfl⟩ := Prod.mk.inj hpair
      refine ⟨first, more, rest, hmore, .inl ⟨?_, rfl, rfl, rfl⟩⟩
      rintro rfl
      exact hplain _ rfl
    · rintro ⟨first, more, rest, hmore, ⟨-, hcs, rfl, rfl⟩ | ⟨hcs, -⟩⟩
      · exact ⟨⟨_, _⟩, readClass_eq_some_iff.mpr ⟨first, more, rest, hcs, hmore, rfl, rfl⟩, rfl⟩
      · exact absurd hcs (hplain _)

/-- How the reader keeps one more piece. -/
def keep (soFar : List Piece) (piece : Piece) : List Piece :=
  if piece = .anyDirectories then addDirectories soFar else soFar ++ [piece]

theorem readPieces_char (hplain : c ∉ ['?', '*', '[']) :
    readPieces (fuel + 1) soFar position before (c :: rest) =
      readPieces fuel (soFar ++ [.char c]) (position + 1) (some c) rest := by
  rw [readPieces]
  all_goals
    rintro rfl
    exact hplain (by decide)

theorem takeWhile_asterisks (hone : rest.head? ≠ some '*') : rest.takeWhile (· == '*') = [] := by
  cases rest with
  | nil => rfl
  | cons c rest =>
    have hc : (c == '*') = false := beq_false_of_ne fun h => hone (congrArg some h)
    simp [hc]

theorem readPieces_asterisk (hone : rest.head? ≠ some '*') :
    readPieces (fuel + 1) soFar position before ('*' :: rest) =
      readPieces fuel (soFar ++ [.anyText]) (position + 1) (some '*') rest := by
  simp [readPieces, takeWhile_asterisks hone]

theorem readPieces_twoAsterisks : rest.head? ≠ some '*' →
    readPieces (fuel + 1) soFar position before ('*' :: '*' :: rest) =
      if before.any (· != '/') then .error ⟨position - 1, .notAWholePiece⟩
      else match rest with
      | [] => .ok (addDirectories soFar)
      | '/' :: rest => readPieces fuel (addDirectories soFar) (position + 3) (some '/') rest
      | _ => .error ⟨position + 2, .notAWholePiece⟩ := by
  intro htwo
  simp only [readPieces, List.takeWhile_cons_of_pos, beq_self_eq_true, takeWhile_asterisks htwo]
  rfl

theorem readPieces_threeAsterisks :
    readPieces (fuel + 1) soFar position before ('*' :: '*' :: '*' :: rest) =
      .error ⟨position + 2, .manyAsterisks⟩ := by
  simp [readPieces]

theorem readPieces_bracket {after : List Char} {n : Nat} (h : readBracket after = some (piece, n)) :
    readPieces (fuel + 1) soFar position before ('[' :: after) =
      readPieces fuel (soFar ++ [piece]) (position + n) (some ']') (('[' :: after).drop n) := by
  simp [readPieces, h]

theorem readPieces_of_spellsFirst {last : Char} (h : SpellsFirst before cs piece last rest) (fuel : Nat)
    (soFar : List Piece) (position : Nat) : ∃ next, readPieces (fuel + 1) soFar position before cs =
      readPieces fuel (keep soFar piece) next (some last) rest := by
  have hwhole (hbefore : ∀ c, before = some c → c = '/') : ¬ before.any (· != '/') = true := by
    cases before with
    | none => exact Bool.false_ne_true
    | some c => simp [hbefore c rfl]
  cases h with
  | char hplain => exact ⟨_, readPieces_char hplain⟩
  | anyChar => exact ⟨_, rfl⟩
  | anyText hone => exact ⟨_, readPieces_asterisk hone⟩
  | directories hbefore =>
    refine ⟨position + 3, ?_⟩
    rw [readPieces_twoAsterisks (by simp), if_neg (hwhole hbefore)]
    rfl
  | lastDirectories hbefore =>
    refine ⟨position, ?_⟩
    rw [readPieces_twoAsterisks (by decide), if_neg (hwhole hbefore)]
    cases fuel <;> rfl
  | oneOf hfirst hmore =>
    rename_i first more
    refine ⟨position + (more.length + 3), ?_⟩
    have hbracket := readBracket_eq_some_iff.mpr
      ⟨first, more, rest, hmore, .inl ⟨hfirst, rfl, rfl, rfl⟩⟩
    rw [List.cons_append, readPieces_bracket hbracket]
    simp [keep]
  | noneOf hmore =>
    rename_i first more
    refine ⟨position + (more.length + 4), ?_⟩
    have hbracket := readBracket_eq_some_iff.mpr ⟨first, more, rest, hmore, .inr ⟨rfl, rfl, rfl⟩⟩
    rw [List.cons_append, readPieces_bracket hbracket]
    simp [keep]

theorem spellsFirst_of_twoAsterisks {read : List Piece} (htwo : tail.head? ≠ some '*')
    (h : readPieces (fuel + 1) soFar position before ('*' :: '*' :: tail) = .ok read) :
    ∃ last rest, SpellsFirst before ('*' :: '*' :: tail) .anyDirectories last rest := by
  rw [readPieces_twoAsterisks htwo] at h
  split at h
  · cases h
  · rename_i hwhole
    have hbefore : ∀ c, before = some c → c = '/' := by
      rintro c rfl
      simpa using hwhole
    split at h
    · exact ⟨_, _, .lastDirectories hbefore⟩
    · exact ⟨_, _, .directories hbefore⟩
    · cases h

/-- What the reader goes on from begins with a piece. -/
theorem spellsFirst_of_readPieces {read : List Piece} (hne : cs ≠ [])
    (h : readPieces (fuel + 1) soFar position before cs = .ok read) :
    ∃ piece last rest, SpellsFirst before cs piece last rest := by
  obtain ⟨c, tail, rfl⟩ := List.exists_cons_of_ne_nil hne
  by_cases hplain : c ∉ ['?', '*', '[']
  · exact ⟨_, _, _, .char hplain⟩
  · simp only [List.mem_cons, List.not_mem_nil, or_false, not_not] at hplain
    rcases hplain with rfl | rfl | rfl
    · exact ⟨_, _, _, .anyChar⟩
    · by_cases hone : tail.head? = some '*'
      · obtain ⟨tail, rfl⟩ := List.head?_eq_some_iff.mp hone
        by_cases htwo : tail.head? = some '*'
        · obtain ⟨tail, rfl⟩ := List.head?_eq_some_iff.mp htwo
          rw [readPieces_threeAsterisks] at h
          cases h
        · exact ⟨_, spellsFirst_of_twoAsterisks htwo h⟩
      · exact ⟨_, _, _, .anyText hone⟩
    · cases hbracket : readBracket tail with
      | none => simp [readPieces, hbracket] at h
      | some found =>
        obtain ⟨first, more, rest, hmore, ⟨hfirst, rfl, -⟩ | ⟨rfl, -⟩⟩ := readBracket_eq_some_iff.mp hbracket
        · exact ⟨_, _, _, .oneOf hfirst hmore⟩
        · exact ⟨_, _, _, .noneOf hmore⟩

theorem SpellsFirst.length_lt {last : Char} (h : SpellsFirst before cs piece last rest) :
    rest.length < cs.length := by
  cases h <;> simp <;> omega

theorem alike_keep (soFar : List Piece) (piece : Piece) (pieces : List Piece) :
    Alike (keep soFar piece ++ pieces) (soFar ++ piece :: pieces) := by
  rw [keep]
  split
  · rename_i hpiece
    rw [hpiece]
    exact alike_addDirectories soFar pieces
  · rw [List.append_assoc]
    exact fun _ => Iff.rfl

/-- What spells pieces is read, as pieces that match the same. -/
theorem readPieces_of_spells (h : Spells before cs pieces) (hfuel : cs.length ≤ fuel)
    (soFar : List Piece) (position : Nat) :
    ∃ read, readPieces fuel soFar position before cs = .ok read ∧ Alike read (soFar ++ pieces) := by
  induction h generalizing fuel soFar position with
  | nil =>
    refine ⟨soFar, by cases fuel <;> rfl, ?_⟩
    rw [List.append_nil]
    exact fun _ => Iff.rfl
  | cons hfirst hrest ih =>
    have hlt := hfirst.length_lt
    obtain ⟨fuel, rfl⟩ := Nat.exists_eq_add_one_of_ne_zero (by omega : fuel ≠ 0)
    obtain ⟨next, hstep⟩ := readPieces_of_spellsFirst hfirst fuel soFar position
    -- the pieces kept so far may be fewer than those spelled, but they match the same
    obtain ⟨read, hread, halike⟩ := ih (by omega : _ ≤ fuel) (keep soFar _) next
    refine ⟨read, hstep.trans hread, fun cs => ?_⟩
    exact (halike cs).trans (alike_keep _ _ _ cs)

/-- What is read spells pieces. -/
theorem spells_of_readPieces {read : List Piece} (hfuel : cs.length ≤ fuel)
    (h : readPieces fuel soFar position before cs = .ok read) : ∃ pieces, Spells before cs pieces := by
  induction fuel generalizing soFar position before cs with
  | zero =>
    rw [List.eq_nil_of_length_eq_zero (Nat.le_zero.mp hfuel)]
    exact ⟨[], .nil⟩
  | succ fuel ih =>
    by_cases hnil : cs = []
    · rw [hnil]
      exact ⟨[], .nil⟩
    · obtain ⟨piece, last, rest, hfirst⟩ := spellsFirst_of_readPieces hnil h
      obtain ⟨next, hstep⟩ := readPieces_of_spellsFirst hfirst fuel soFar position
      have hlt := hfirst.length_lt
      obtain ⟨pieces, hpieces⟩ := ih (by omega : rest.length ≤ fuel) (hstep.symm.trans h)
      exact ⟨piece :: pieces, .cons hfirst hpieces⟩

variable {text : String}

theorem parse_eq_ok_iff {pattern : Glob} : parse text = .ok pattern ↔
    pattern.text = text ∧ readPieces text.toList.length [] 0 none text.toList = .ok pattern.pieces := by
  rw [parse]
  cases hread : readPieces text.toList.length [] 0 none text.toList with
  | error e => exact ⟨fun h => (nomatch h), fun h => (nomatch h.2)⟩
  | ok read =>
    constructor
    · intro h
      cases h
      exact ⟨rfl, rfl⟩
    · rintro ⟨rfl, hpieces⟩
      cases hpieces
      rfl

/-- The texts that can be read as patterns are those that spell pieces. -/
theorem parses_iff_spells :
    (∃ pattern, parse text = .ok pattern) ↔ ∃ pieces, Spells none text.toList pieces := by
  constructor
  · rintro ⟨pattern, hpattern⟩
    exact spells_of_readPieces (Nat.le_refl _) (parse_eq_ok_iff.mp hpattern).2
  · rintro ⟨pieces, hspells⟩
    obtain ⟨read, hread, -⟩ := readPieces_of_spells hspells (Nat.le_refl _) [] 0
    exact ⟨⟨text, read⟩, parse_eq_ok_iff.mpr ⟨rfl, hread⟩⟩

/-- A pattern accepts what its pieces match, however they are read. -/
theorem accepts_iff_matches {pattern : Glob} (hparse : parse text = .ok pattern)
    (hspells : Spells none text.toList pieces) (s : String) :
    pattern.accepts s = true ↔ Matches pieces s.toList := by
  obtain ⟨read, hread, halike⟩ := readPieces_of_spells hspells (Nat.le_refl _) [] 0
  have hpieces : pattern.pieces = read := by
    have hboth := (parse_eq_ok_iff.mp hparse).2.symm.trans hread
    exact Except.ok.inj hboth
  rw [accepts, allMatch_eq, piecesMatch_iff, hpieces]
  exact halike s.toList

end Glob

end Rulebook
