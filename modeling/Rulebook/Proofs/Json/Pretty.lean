import Rulebook.Proofs.Json.Scalar
import Rulebook.Proofs.Json.Shape

/-!
# Pretty text is read back

A value without doubles whose containers lie inside one another no deeper than the reader goes is read
back from its pretty text. The reader has fuel for as many steps as the text has characters.
-/

namespace Rulebook.Json

set_option autoImplicit false

variable {fuel depth k j : Nat} {first : Bool} {cs rest : List Char}

/-! ## Blanks -/

theorem skipBlank_cons {c : Char} (h : isBlank c = false) (cs : List Char) :
    skipBlank (c :: cs) = c :: cs := by
  rw [skipBlank, List.dropWhile_cons_of_neg (by rw [h]; decide)]

theorem skipBlank_append {blanks : List Char} (h : ∀ c ∈ blanks, isBlank c = true) (cs : List Char) :
    skipBlank (blanks ++ cs) = skipBlank cs := by
  rw [skipBlank, List.dropWhile_append_of_pos h, skipBlank]

theorem skipBlank_lineBreak (k : Nat) (cs : List Char) :
    skipBlank (lineBreak k ++ cs) = skipBlank cs := by
  refine skipBlank_append (fun c hc => ?_) cs
  rcases List.mem_cons.mp hc with rfl | hc
  · decide
  · rw [List.eq_of_mem_replicate hc]
    decide

theorem isBlank_of_skipBlank {c : Char} {text : List Char} (h : skipBlank cs = c :: text) :
    isBlank c = false := by
  have hhead := List.head?_dropWhile_not isBlank cs
  rw [skipBlank] at h
  rw [h] at hhead
  exact hhead

/-- A reader of values looks past the blanks in front. -/
theorem readValue_skip {cs' : List Char} (h : skipBlank cs = skipBlank cs') :
    readValue fuel depth cs = readValue fuel depth cs' := by
  cases fuel with
  | zero => rfl
  | succ fuel => rw [readValue, readValue, h]

theorem readValue_at {c : Char} {text : List Char} (h : skipBlank cs = c :: text) :
    readValue fuel depth cs = readValue fuel depth (c :: text) :=
  readValue_skip (by rw [h, skipBlank_cons (isBlank_of_skipBlank h)])

theorem endsNumber_cons {c : Char} (h : c.isDigit = false ∧ c ≠ '.' ∧ c ≠ 'e' ∧ c ≠ 'E')
    (cs : List Char) : EndsNumber (c :: cs) := by
  intro other hother
  rw [← Option.some.inj hother]
  exact h

theorem endsNumber_lineBreak (k : Nat) (cs : List Char) : EndsNumber (lineBreak k ++ cs) :=
  endsNumber_cons (by decide) _

/-! ## The first character of a value -/

theorem wholeText_head (n : Int) :
    ∃ c cs, wholeText n = c :: cs ∧ (c = '-' ∨ c.isDigit = true) := by
  rw [wholeText]
  split
  · exact ⟨'-', _, rfl, .inl rfl⟩
  · cases hdigits : Nat.toDigits 10 n.natAbs with
    | nil => exact absurd hdigits Nat.toDigits_ne_nil
    | cons c digits =>
      exact ⟨c, digits, rfl, .inr (isDigit_toDigits (by rw [hdigits]; exact List.mem_cons_self))⟩

theorem isBlank_of_number {c : Char} (hc : c = '-' ∨ c.isDigit = true) : isBlank c = false := by
  rcases hc with rfl | hdigit
  · decide
  · simp only [isBlank, Bool.or_eq_false_iff, beq_eq_false_iff_ne]
    refine ⟨⟨⟨?_, ?_⟩, ?_⟩, ?_⟩ <;> (rintro rfl; exact absurd hdigit (by decide))

theorem readValue_number {c : Char} (hc : c = '-' ∨ c.isDigit = true) (cs : List Char) :
    readValue (fuel + 1) depth (c :: cs) = readNumber (c :: cs) := by
  rw [readValue, skipBlank_cons (isBlank_of_number hc)]
  split
  case h_7 => rfl
  all_goals
    rename_i heq
    obtain ⟨rfl, -⟩ := List.cons.inj heq
    rcases hc with hc | hc <;> exact absurd hc (by decide)

theorem prettyChars_ne_nil (v : Json) (hv : v.isIntegral = true) (k : Nat) : prettyChars k v ≠ [] := by
  cases v with
  | null | string => exact List.cons_ne_nil _ _
  | bool b => cases b <;> exact List.cons_ne_nil _ _
  | number n =>
    cases n with
    | real d => cases hv
    | whole n =>
      obtain ⟨c, cs, htext, -⟩ := wholeText_head n.val
      exact fun hnil => List.cons_ne_nil c cs (htext ▸ hnil)
  | array items =>
    rw [prettyChars]
    cases prettyItems (k + 1) items <;> exact List.cons_ne_nil _ _
  | object members =>
    rw [prettyChars]
    cases prettyMembers (k + 1) members <;> exact List.cons_ne_nil _ _

/-! ## Steps of the reader -/

/-- Where a value can be read there is no end of a list. -/
theorem readValue_start {v : Source} (h : readValue fuel depth cs = (v, .ok rest)) :
    ∃ c text, skipBlank cs = c :: text ∧ c ≠ ']' := by
  cases fuel with
  | zero => cases h
  | succ fuel =>
    cases htext : skipBlank cs with
    | nil =>
      rw [readValue, htext] at h
      cases h
    | cons c text =>
      refine ⟨c, text, rfl, ?_⟩
      rintro rfl
      rw [readValue_at htext] at h
      cases h

theorem readItems_last {v : Source} (hv : readValue fuel depth cs = (v, .ok rest))
    {after : List Char} (hrest : skipBlank rest = ']' :: after) :
    readItems (fuel + 1) depth first cs = ([v], .ok after) := by
  obtain ⟨c, text, htext, hc⟩ := readValue_start hv
  rw [readValue_at htext] at hv
  rw [readItems, htext]
  split
  · rename_i h
    cases h
  · rename_i h
    exact absurd (List.cons.inj h).1 hc
  · simp only [hv, hrest]

theorem readItems_more {v : Source} (hv : readValue fuel depth cs = (v, .ok rest))
    {next after : List Char} (hrest : skipBlank rest = ',' :: next) {items : List Source}
    (hmore : readItems fuel depth false next = (items, .ok after)) :
    readItems (fuel + 1) depth first cs = (v :: items, .ok after) := by
  obtain ⟨c, text, htext, hc⟩ := readValue_start hv
  rw [readValue_at htext] at hv
  rw [readItems, htext]
  split
  · rename_i h
    cases h
  · rename_i h
    exact absurd (List.cons.inj h).1 hc
  · simp only [hv, hrest, hmore]

section

variable {quoted behind text rest after : List Char} {name v : Source}

theorem readMembers_last (hquote : skipBlank cs = '"' :: quoted)
    (hname : readString quoted = (name, .ok behind)) (hcolon : skipBlank behind = ':' :: text)
    (hv : readValue fuel depth text = (v, .ok rest)) (hrest : skipBlank rest = closeBrace :: after) :
    readMembers (fuel + 1) depth first cs = ([(name, v)], .ok after) := by
  rw [readMembers, hquote]
  simp only [hname, hcolon, hv, hrest]
  rfl

theorem readMembers_more (hquote : skipBlank cs = '"' :: quoted)
    (hname : readString quoted = (name, .ok behind)) (hcolon : skipBlank behind = ':' :: text)
    (hv : readValue fuel depth text = (v, .ok rest)) {next : List Char}
    (hrest : skipBlank rest = ',' :: next) {members : List (Source × Source)}
    (hmore : readMembers fuel depth false next = (members, .ok after)) :
    readMembers (fuel + 1) depth first cs = ((name, v) :: members, .ok after) := by
  rw [readMembers, hquote]
  simp only [hname, hcolon, hv, hrest, hmore]

end

theorem readWord_append (value : Source) (word more : List Char) :
    readWord value word (word ++ more) = (value, .ok more) := by
  induction word with
  | nil => rfl
  | cons c word ih => rw [List.cons_append, readWord, if_pos rfl, ih]

theorem readValue_wholeText (n : WideInt) (h : EndsNumber rest) :
    readValue (fuel + 1) depth (wholeText n.val ++ rest) = (.number (.whole n), .ok rest) := by
  have hread := readNumber_wholeText n h
  obtain ⟨c, cs, htext, hc⟩ := wholeText_head n.val
  rw [htext, List.cons_append] at hread ⊢
  rw [readValue_number hc, hread]

theorem readValue_items {text rest : List Char} {items : List Source}
    (h : readItems fuel (depth + 1) true text = (items, .ok rest)) :
    readValue (fuel + 1) depth ('[' :: text) =
      (atDepth (depth + 1) text (.list items none), .ok rest) := by
  rw [readValue, skipBlank_cons (by decide)]
  simp only [h, flawOf]

theorem readValue_members {text rest : List Char} {members : List (Source × Source)}
    (h : readMembers fuel (depth + 1) true text = (members, .ok rest)) :
    readValue (fuel + 1) depth (openBrace :: text) =
      (atDepth (depth + 1) text (.table members none), .ok rest) := by
  have hbrace : skipBlank (openBrace :: text) = openBrace :: text := skipBlank_cons (by decide) _
  rw [readValue, hbrace]
  simp only [openBrace, h, flawOf]

theorem readValue_list {text rest : List Char} {items : List Source}
    (hdepth : depth + 1 ≤ mostContainers)
    (h : readItems fuel (depth + 1) true text = (items, .ok rest)) :
    readValue (fuel + 1) depth ('[' :: text) = (.list items none, .ok rest) := by
  rw [readValue_items h, atDepth, if_pos hdepth]

theorem readValue_table {text rest : List Char} {members : List (Source × Source)}
    (hdepth : depth + 1 ≤ mostContainers)
    (h : readMembers fuel (depth + 1) true text = (members, .ok rest)) :
    readValue (fuel + 1) depth (openBrace :: text) = (.table members none, .ok rest) := by
  rw [readValue_members h, atDepth, if_pos hdepth]

theorem readValue_blank (cs : List Char) :
    readValue fuel depth (' ' :: cs) = readValue fuel depth cs :=
  readValue_skip rfl

theorem skipBlank_member (k : Nat) (name : String) (cs : List Char) :
    skipBlank (lineBreak k ++ (written name ++ cs)) =
      '"' :: (name.toList.flatMap escapeChar ++ '"' :: cs) := by
  rw [skipBlank_lineBreak, written_eq, skipBlank_cons (by decide)]

/-! ## Whole values -/

theorem prettyChars_array (k : Nat) (v : Json) (items : List Json) (rest : List Char) :
    prettyChars k (.array (v :: items)) ++ rest =
      '[' :: (lineBreak (k + 1) ++
        (separated (',' :: lineBreak (k + 1)) (prettyItems (k + 1) (v :: items)) ++
          (lineBreak k ++ ']' :: rest))) := by
  simp [prettyChars, prettyItems, bracketed]

theorem prettyChars_object (k : Nat) (name : String) (v : Json) (members : List (String × Json))
    (rest : List Char) :
    prettyChars k (.object ((name, v) :: members)) ++ rest =
      openBrace :: (lineBreak (k + 1) ++
        (separated (',' :: lineBreak (k + 1)) (prettyMembers (k + 1) ((name, v) :: members)) ++
          (lineBreak k ++ closeBrace :: rest))) := by
  simp [prettyChars, prettyMembers, bracketed]

mutual

theorem readValue_pretty (v : Json) (fuel depth k : Nat) (rest : List Char)
    (hv : v.isIntegral = true) (hdepth : depth + v.depth ≤ mostContainers)
    (hfuel : (prettyChars k v).length ≤ fuel) (hrest : EndsNumber rest) :
    readValue fuel depth (prettyChars k v ++ rest) = (.ofJson v, .ok rest) := by
  cases fuel with
  | zero => exact absurd (List.length_eq_zero_iff.mp (Nat.le_zero.mp hfuel)) (prettyChars_ne_nil v hv k)
  | succ fuel =>
    cases v with
    | null => exact readWord_append .nothing ['u', 'l', 'l'] rest
    | bool b =>
      cases b with
      | true => exact readWord_append (.bool true) ['r', 'u', 'e'] rest
      | false => exact readWord_append (.bool false) ['a', 'l', 's', 'e'] rest
    | number n =>
      cases n with
      | real d => cases hv
      | whole n => exact readValue_wholeText n hrest
    | string s =>
      rw [prettyChars, written_eq, readValue, skipBlank_cons (by decide)]
      exact readString_written s rest
    | array items =>
      rw [Json.depth] at hdepth
      cases items with
      | nil =>
        cases fuel with
        | zero => simp [prettyChars, prettyItems, bracketed] at hfuel
        | succ fuel => exact readValue_list (by omega) rfl
      | cons v items =>
        rw [← List.append_nil (prettyChars k _), prettyChars_array] at hfuel
        simp only [List.length_cons, List.length_append] at hfuel
        rw [prettyChars_array]
        refine readValue_list (by omega) ?_
        exact readItems_pretty v items fuel (depth + 1) (k + 1) k true rest hv (by omega) (by omega)
    | object members =>
      rw [Json.depth] at hdepth
      cases members with
      | nil =>
        cases fuel with
        | zero => simp [prettyChars, prettyMembers, bracketed] at hfuel
        | succ fuel => exact readValue_table (by omega) rfl
      | cons member members =>
        obtain ⟨name, v⟩ := member
        rw [← List.append_nil (prettyChars k _), prettyChars_object] at hfuel
        simp only [List.length_cons, List.length_append] at hfuel
        rw [prettyChars_object]
        refine readValue_table (by omega) ?_
        exact readMembers_pretty name v members fuel (depth + 1) (k + 1) k true rest hv (by omega)
          (by omega)
termination_by fuel

theorem readItems_pretty (v : Json) (items : List Json) (fuel depth k j : Nat) (first : Bool)
    (rest : List Char) (hv : areIntegral (v :: items) = true)
    (hdepth : depth + depthItems (v :: items) ≤ mostContainers)
    (hfuel : (separated (',' :: lineBreak k) (prettyItems k (v :: items))).length < fuel) :
    readItems fuel depth first (lineBreak k ++
        (separated (',' :: lineBreak k) (prettyItems k (v :: items)) ++
          (lineBreak j ++ ']' :: rest))) =
      (Source.ofItems (v :: items), .ok rest) := by
  rw [areIntegral, Bool.and_eq_true] at hv
  rw [depthItems] at hdepth
  cases fuel with
  | zero => cases hfuel
  | succ fuel =>
    cases items with
    | nil =>
      simp only [prettyItems, separated] at hfuel ⊢
      refine readItems_last (by
        rw [readValue_skip (skipBlank_lineBreak k _)]
        exact readValue_pretty v fuel depth k _ hv.1 (by omega) (by omega)
          (endsNumber_lineBreak _ _)) ?_
      rw [skipBlank_lineBreak, skipBlank_cons (by decide)]
    | cons w items =>
      simp only [prettyItems, separated, List.append_assoc, List.cons_append, List.length_append,
        List.length_cons] at hfuel ⊢
      refine readItems_more (by
        rw [readValue_skip (skipBlank_lineBreak k _)]
        exact readValue_pretty v fuel depth k _ hv.1 (by omega) (by omega)
          (endsNumber_cons (by decide) _)) (skipBlank_cons (by decide) _) ?_
      exact readItems_pretty w items fuel depth k j false rest hv.2 (by omega)
        (by rw [prettyItems]; omega)
termination_by fuel

theorem readMembers_pretty (name : String) (v : Json) (members : List (String × Json))
    (fuel depth k j : Nat) (first : Bool) (rest : List Char)
    (hv : membersIntegral ((name, v) :: members) = true)
    (hdepth : depth + depthMembers ((name, v) :: members) ≤ mostContainers)
    (hfuel : (separated (',' :: lineBreak k) (prettyMembers k ((name, v) :: members))).length <
      fuel) :
    readMembers fuel depth first (lineBreak k ++
        (separated (',' :: lineBreak k) (prettyMembers k ((name, v) :: members)) ++
          (lineBreak j ++ closeBrace :: rest))) =
      (Source.ofMembers ((name, v) :: members), .ok rest) := by
  rw [membersIntegral, Bool.and_eq_true] at hv
  rw [depthMembers] at hdepth
  cases fuel with
  | zero => cases hfuel
  | succ fuel =>
    cases members with
    | nil =>
      simp only [prettyMembers, separated, List.append_assoc, List.cons_append, List.length_append,
        List.length_cons] at hfuel ⊢
      refine readMembers_last (skipBlank_member k name _) (readString_written name _)
        (skipBlank_cons (by decide) _) (by
        rw [readValue_blank]
        exact readValue_pretty v fuel depth k _ hv.1 (by omega) (by omega)
          (endsNumber_lineBreak _ _)) ?_
      rw [skipBlank_lineBreak, skipBlank_cons (by decide)]
    | cons member members =>
      obtain ⟨other, w⟩ := member
      simp only [prettyMembers, separated, List.append_assoc, List.cons_append, List.length_append,
        List.length_cons] at hfuel ⊢
      refine readMembers_more (skipBlank_member k name _) (readString_written name _)
        (skipBlank_cons (by decide) _) (by
        rw [readValue_blank]
        exact readValue_pretty v fuel depth k _ hv.1 (by omega) (by omega)
          (endsNumber_cons (by decide) _)) (skipBlank_cons (by decide) _) ?_
      have hmore := readMembers_pretty other w members fuel depth k j false rest hv.2 (by omega)
        (by rw [prettyMembers]; omega)
      simpa only [prettyMembers, List.append_assoc, List.cons_append] using hmore
termination_by fuel

end

/-- The pretty text of a value on a line of its own is read as the value. -/
theorem read_pretty {v : Json} (hv : v.isIntegral = true) (hdepth : v.depth ≤ mostContainers) :
    read (v.pretty ++ "\n") = ⟨.ofJson v, none⟩ := by
  have htext : (v.pretty ++ "\n").toList = prettyChars 0 v ++ ['\n'] := by simp [pretty]
  have hread := readValue_pretty v (2 * (prettyChars 0 v ++ ['\n']).length + 2) 0 0 ['\n'] hv
    (by omega) (by rw [List.length_append]; omega) (endsNumber_cons (by decide) _)
  rw [read]
  simp only [htext, hread]
  rfl

end Rulebook.Json
