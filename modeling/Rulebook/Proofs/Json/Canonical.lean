import Mathlib.Data.List.Nodup
import Rulebook.Proofs.Json.Pretty
import Rulebook.Proofs.Keyed

/-!
# Canonical text tells values apart

The canonical text of a value without doubles ends where it ends: what follows it can be anything that
does not continue a number. So the parts of a text are known from the text, and two values with one
text have the same members at every depth, up to their order.
-/

namespace Rulebook.Json

set_option autoImplicit false

variable {r s : List Char}

/-! ## Texts and numbers -/

theorem written_append_inj {a b : String} (h : written a ++ r = written b ++ s) : a = b ∧ r = s := by
  rw [written_eq, written_eq] at h
  have hread := congrArg readString (List.cons.inj h).2
  rw [readString_written, readString_written] at hread
  obtain ⟨hsource, hrest⟩ := Prod.mk.inj hread
  exact ⟨Source.text.inj hsource, Except.ok.inj hrest⟩

theorem wholeText_append_inj {m n : WideInt} (hr : EndsNumber r) (hs : EndsNumber s)
    (h : wholeText m.val ++ r = wholeText n.val ++ s) : m = n ∧ r = s := by
  have hread := congrArg readNumber h
  rw [readNumber_wholeText m hr, readNumber_wholeText n hs] at hread
  obtain ⟨hsource, hrest⟩ := Prod.mk.inj hread
  exact ⟨JsonNumber.whole.inj (Source.number.inj hsource), Except.ok.inj hrest⟩

/-! ## What the first character says -/

def kind : Json → Nat
  | .null => 0
  | .bool _ => 1
  | .number _ => 2
  | .string _ => 3
  | .array _ => 4
  | .object _ => 5

/-- The kind of the values that start with the character, or a number that is no kind. -/
def kindOf (c : Char) : Nat :=
  if c = 'n' then 0
  else if c = 't' ∨ c = 'f' then 1
  else if c = '-' ∨ c.isDigit = true then 2
  else if c = '"' then 3
  else if c = '[' then 4
  else if c = openBrace then 5
  else 6

theorem kindOf_number {c : Char} (h : c = '-' ∨ c.isDigit = true) : kindOf c = 2 := by
  have hword : c ≠ 'n' ∧ c ≠ 't' ∧ c ≠ 'f' := by
    refine ⟨?_, ?_, ?_⟩ <;> (rintro rfl; revert h; decide)
  simp [kindOf, hword, h]

theorem canonicalChars_head {v : Json} (hv : v.isIntegral = true) :
    ∃ c cs, canonicalChars v = c :: cs ∧ kindOf c = v.kind := by
  cases v with
  | null => exact ⟨'n', _, rfl, rfl⟩
  | bool b => cases b <;> exact ⟨_, _, rfl, rfl⟩
  | number n =>
    cases n with
    | real d => cases hv
    | whole n =>
      obtain ⟨c, cs, htext, hc⟩ := wholeText_head n.val
      exact ⟨c, cs, htext, kindOf_number hc⟩
  | string s => exact ⟨'"', _, rfl, rfl⟩
  | array items => exact ⟨'[', _, rfl, rfl⟩
  | object members => exact ⟨openBrace, _, rfl, rfl⟩

theorem kind_lt (v : Json) : v.kind < 6 := by
  cases v <;> exact of_decide_eq_true rfl

inductive SameKind : Json → Json → Prop where
  | null : SameKind .null .null
  | bool (a b : Bool) : SameKind (.bool a) (.bool b)
  | number (m n : JsonNumber) : SameKind (.number m) (.number n)
  | string (a b : String) : SameKind (.string a) (.string b)
  | array (items others : List Json) : SameKind (.array items) (.array others)
  | object (members others : List (String × Json)) : SameKind (.object members) (.object others)

theorem sameKind_of_kind_eq {v w : Json} (h : v.kind = w.kind) : SameKind v w := by
  cases v <;> cases w <;> first | constructor | cases h

/-- Values with texts at the start of one text are of one kind. -/
theorem sameKind_of_append_eq {v w : Json} (hv : v.isIntegral = true) (hw : w.isIntegral = true)
    (h : canonicalChars v ++ r = canonicalChars w ++ s) : SameKind v w := by
  obtain ⟨c, cs, htext, hc⟩ := canonicalChars_head hv
  obtain ⟨d, ds, htext', hd⟩ := canonicalChars_head hw
  rw [htext, htext', List.cons_append, List.cons_append] at h
  refine sameKind_of_kind_eq ?_
  rw [← hc, ← hd, (List.cons.inj h).1]

/-! ## Parts between commas -/

section

variable {β : Type} {f : β → List Char} {close : Char}

/-- What stands behind the first of some parts. -/
def continued (f : β → List Char) (close : Char) (others : List β) (rest : List Char) : List Char :=
  match others with
  | [] => close :: rest
  | y :: others => ',' :: (separated [','] ((y :: others).map f) ++ close :: rest)

theorem separated_cons (x : β) (xs : List β) (rest : List Char) :
    separated [','] ((x :: xs).map f) ++ close :: rest = f x ++ continued f close xs rest := by
  cases xs <;> simp [separated, continued]

theorem endsNumber_continued (hclose : EndsNumber [close]) (xs : List β) (rest : List Char) :
    EndsNumber (continued f close xs rest) := by
  cases xs with
  | nil => exact hclose
  | cons => exact endsNumber_cons (by decide) _

/-- Parts are known from the text if none starts with what closes it and each ends where it ends. -/
theorem separated_append_inj (hclose : EndsNumber [close]) (hcomma : close ≠ ',') {xs ys : List β}
    (hxs : ∀ x ∈ xs, ∃ c cs, f x = c :: cs ∧ c ≠ close)
    (hys : ∀ y ∈ ys, ∃ c cs, f y = c :: cs ∧ c ≠ close)
    (hparts : ∀ x ∈ xs, ∀ y ∈ ys, ∀ r s, EndsNumber r → EndsNumber s → f x ++ r = f y ++ s →
      x = y ∧ r = s)
    (h : separated [','] (xs.map f) ++ close :: r = separated [','] (ys.map f) ++ close :: s) :
    xs = ys ∧ r = s := by
  have hnone {x : β} (hx : ∃ c cs, f x = c :: cs ∧ c ≠ close) (others : List β) (r s : List Char) :
      close :: r ≠ separated [','] ((x :: others).map f) ++ close :: s := by
    obtain ⟨c, cs, htext, hc⟩ := hx
    rw [separated_cons, htext]
    exact fun heq => hc (List.cons.inj heq).1.symm
  induction xs generalizing ys with
  | nil =>
    cases ys with
    | nil => exact ⟨rfl, (List.cons.inj h).2⟩
    | cons y ys => exact absurd h (hnone (hys y List.mem_cons_self) ys r s)
  | cons x xs ih =>
    cases ys with
    | nil => exact absurd h.symm (hnone (hxs x List.mem_cons_self) xs s r)
    | cons y ys =>
      rw [separated_cons, separated_cons] at h
      obtain ⟨rfl, hrest⟩ := hparts x List.mem_cons_self y List.mem_cons_self _ _
        (endsNumber_continued hclose xs r) (endsNumber_continued hclose ys s) h
      have hmore := @ih ys (fun z hz => hxs z (List.mem_cons_of_mem _ hz))
        (fun z hz => hys z (List.mem_cons_of_mem _ hz))
        fun z hz w hw => hparts z (List.mem_cons_of_mem _ hz) w (List.mem_cons_of_mem _ hw)
      cases xs with
      | nil =>
        cases ys with
        | nil => exact ⟨rfl, (List.cons.inj hrest).2⟩
        | cons => exact absurd (List.cons.inj hrest).1 hcomma
      | cons =>
        cases ys with
        | nil => exact absurd (List.cons.inj hrest).1.symm hcomma
        | cons =>
          obtain ⟨hsame, hrest⟩ := hmore (List.cons.inj hrest).2
          exact ⟨by rw [hsame], hrest⟩

end

/-! ## Lists and objects -/

theorem canonicalItems_eq_map (items : List Json) :
    canonicalItems items = items.map canonicalChars := by
  induction items with
  | nil => rfl
  | cons v rest ih => rw [canonicalItems, ih, List.map_cons]

theorem canonicalMembers_eq_map (members : List (String × Json)) :
    canonicalMembers members = members.map fun member => (member.1, canonicalChars member.2) := by
  induction members with
  | nil => rfl
  | cons member rest ih => rw [canonicalMembers, ih, List.map_cons]

/-- The written members of an object in the order in which its canonical text has them. -/
def writtenMembers (members : List (String × Json)) : Keyed (List Char) :=
  byWrittenKey (canonicalMembers members)

theorem writtenMembers_eq (members : List (String × Json)) :
    writtenMembers members = Keyed.ofList
      (members.map fun (k, v) => (String.ofList (written k), canonicalChars v)) := by
  rw [writtenMembers, canonicalMembers_eq_map, byWrittenKey, List.map_map]
  rfl

def memberText (entry : String × List Char) : List Char := entry.1.toList ++ ':' :: entry.2

theorem canonicalChars_object (members : List (String × Json)) :
    canonicalChars (.object members) ++ r =
      openBrace :: (separated [','] ((writtenMembers members).map memberText) ++ closeBrace :: r) := by
  have hobject : canonicalChars (.object members) =
      openBrace :: separated [','] ((writtenMembers members).map memberText) ++ [closeBrace] := by
    rw [canonicalChars]
    rfl
  rw [hobject]
  simp

theorem canonicalChars_array (items : List Json) :
    canonicalChars (.array items) ++ r =
      '[' :: (separated [','] (items.map canonicalChars) ++ ']' :: r) := by
  rw [canonicalChars, canonicalItems_eq_map]
  simp

/-- The texts of two values are the same as soon as they are at the start of one text. -/
def Separable (v w : Json) : Prop :=
  ∀ r s, EndsNumber r → EndsNumber s → canonicalChars v ++ r = canonicalChars w ++ s →
    canonicalChars v = canonicalChars w ∧ r = s

theorem mem_writtenMembers {members : List (String × Json)} {entry : String × List Char}
    (h : entry ∈ writtenMembers members) :
    ∃ member ∈ members, entry = (String.ofList (written member.1), canonicalChars member.2) := by
  rw [writtenMembers_eq] at h
  obtain ⟨member, hmember, heq⟩ := List.mem_map.mp (Keyed.mem_of_mem_ofList h)
  exact ⟨member, hmember, heq.symm⟩

theorem array_append_inj {items others : List Json} (hv : areIntegral items = true)
    (hw : areIntegral others = true) (hparts : ∀ v ∈ items, ∀ w ∈ others, Separable v w)
    (h : canonicalChars (.array items) ++ r = canonicalChars (.array others) ++ s) :
    items.map canonicalChars = others.map canonicalChars ∧ r = s := by
  have hhead {items : List Json} (hv : areIntegral items = true) :
      ∀ x ∈ items.map canonicalChars, ∃ c cs, id x = c :: cs ∧ c ≠ ']' := by
    intro x hx
    obtain ⟨v, hmem, rfl⟩ := List.mem_map.mp hx
    obtain ⟨c, cs, htext, hkind⟩ := canonicalChars_head (areIntegral_iff.mp hv v hmem)
    refine ⟨c, cs, htext, ?_⟩
    rintro rfl
    exact absurd (hkind ▸ kind_lt v) (by decide)
  rw [canonicalChars_array, canonicalChars_array] at h
  have htexts := (List.cons.inj h).2
  rw [← List.map_id (items.map _), ← List.map_id (others.map _)] at htexts
  refine separated_append_inj (endsNumber_cons (by decide) _) (by decide) (hhead hv) (hhead hw) ?_
    htexts
  intro x hx y hy r s hr hs heq
  obtain ⟨v, hv, rfl⟩ := List.mem_map.mp hx
  obtain ⟨w, hw, rfl⟩ := List.mem_map.mp hy
  exact hparts v hv w hw r s hr hs heq

theorem object_append_inj {members others : List (String × Json)}
    (hparts : ∀ member ∈ members, ∀ other ∈ others, Separable member.2 other.2)
    (h : canonicalChars (.object members) ++ r = canonicalChars (.object others) ++ s) :
    writtenMembers members = writtenMembers others ∧ r = s := by
  have hhead {members : List (String × Json)} :
      ∀ entry ∈ writtenMembers members, ∃ c cs, memberText entry = c :: cs ∧ c ≠ closeBrace := by
    intro entry hentry
    obtain ⟨member, _, rfl⟩ := mem_writtenMembers hentry
    exact ⟨'"', _, by simp [memberText, written]; rfl, by decide⟩
  rw [canonicalChars_object, canonicalChars_object] at h
  refine separated_append_inj (endsNumber_cons (by decide) _) (by decide) hhead hhead ?_
    (List.cons.inj h).2
  intro x hx y hy r s hr hs heq
  obtain ⟨⟨k, v⟩, hmember, rfl⟩ := mem_writtenMembers hx
  obtain ⟨⟨l, w⟩, hother, rfl⟩ := mem_writtenMembers hy
  simp only [memberText, String.toList_ofList, List.append_assoc, List.cons_append] at heq
  obtain ⟨rfl, htexts⟩ := written_append_inj heq
  obtain ⟨hsame, hrest⟩ := hparts _ hmember _ hother r s hr hs (List.cons.inj htexts).2
  exact ⟨by rw [hsame], hrest⟩

theorem separable {v w : Json} (hv : v.isIntegral = true) (hw : w.isIntegral = true) :
    Separable v w := by
  -- on the depth, since the members of an object are met in the order of their keys
  induction hdepth : v.depth using Nat.strongRecOn generalizing v w with
  | ind n ih =>
    subst hdepth
    intro r s hr hs h
    cases sameKind_of_append_eq hv hw h with
    | null => exact ⟨rfl, List.append_cancel_left h⟩
    | bool a b =>
      cases a <;> cases b
      case false.false | true.true => exact ⟨rfl, List.append_cancel_left h⟩
      case false.true | true.false => exact absurd (List.cons.inj h).1 (by decide)
    | number m n =>
      cases m with
      | real d => cases hv
      | whole m =>
        cases n with
        | real d => cases hw
        | whole n =>
          obtain ⟨rfl, hrest⟩ := wholeText_append_inj hr hs h
          exact ⟨rfl, hrest⟩
    | string a b =>
      obtain ⟨rfl, hrest⟩ := written_append_inj h
      exact ⟨rfl, hrest⟩
    | array items others =>
      obtain ⟨hitems, hrest⟩ := array_append_inj hv hw (fun v hmem w hother =>
        ih v.depth (Nat.lt_succ_of_le (depthItems_le_iff.mp (Nat.le_refl _) v hmem))
          (areIntegral_iff.mp hv v hmem) (areIntegral_iff.mp hw w hother) rfl) h
      refine ⟨?_, hrest⟩
      rw [canonicalChars, canonicalChars, canonicalItems_eq_map, canonicalItems_eq_map, hitems]
    | object members others =>
      obtain ⟨hmembers, hrest⟩ := object_append_inj (fun member hmem other hother =>
        ih member.2.depth (Nat.lt_succ_of_le (depthMembers_le_iff.mp (Nat.le_refl _) member hmem))
          (membersIntegral_iff.mp hv member hmem) (membersIntegral_iff.mp hw other hother) rfl) h
      refine ⟨?_, hrest⟩
      rw [canonicalChars, canonicalChars, ← writtenMembers, ← writtenMembers, hmembers]

/-! ## Equal texts -/

theorem items_of_canonical_eq {items others : List Json} (hv : areIntegral items = true)
    (hw : areIntegral others = true)
    (h : canonicalChars (.array items) = canonicalChars (.array others)) :
    items.map canonicalChars = others.map canonicalChars :=
  (array_append_inj hv hw (fun v hmem w hother =>
    separable (areIntegral_iff.mp hv v hmem) (areIntegral_iff.mp hw w hother))
    (congrArg (· ++ []) h)).1

theorem injective_written : Function.Injective fun key => String.ofList (written key) :=
  fun _ _ h => (written_append_inj (congrArg (· ++ []) (String.ofList_injective h))).1

/-- The members of two objects with one text have the same texts, whatever their order. -/
theorem find?_of_canonical_eq {members others : List (String × Json)}
    (hv : membersIntegral members = true) (hw : membersIntegral others = true)
    (hdistinct : (Keyed.keys members).Nodup) (hdistinct' : (Keyed.keys others).Nodup)
    (h : canonicalChars (.object members) = canonicalChars (.object others)) (key : String) :
    (Keyed.find? key members).map canonicalChars = (Keyed.find? key others).map canonicalChars := by
  have hfind {members : List (String × Json)} (hdistinct : (Keyed.keys members).Nodup) :
      Keyed.find? (String.ofList (written key)) (writtenMembers members) =
        (Keyed.find? key members).map canonicalChars := by
    rw [writtenMembers_eq, Keyed.find?_ofList]
    · exact Keyed.find?_map injective_written canonicalChars members key
    · have hkeys : (members.map fun (k, v) => (String.ofList (written k), canonicalChars v)).map
          (·.1) = (Keyed.keys members).map fun key => String.ofList (written key) := by
        simp [Keyed.keys, Function.comp_def]
      rw [Keyed.keys, hkeys]
      exact List.Nodup.map injective_written hdistinct
  have hwritten := (object_append_inj (fun member hmem other hother =>
    separable (membersIntegral_iff.mp hv member hmem) (membersIntegral_iff.mp hw other hother))
    (congrArg (· ++ []) h)).1
  rw [← hfind hdistinct, ← hfind hdistinct', hwritten]

/-- Values in order are told apart by their canonical texts. -/
theorem eq_of_canonical_eq {v w : Json} (hv : v.isIntegral = true) (hw : w.isIntegral = true)
    (hvo : v.IsOrdered) (hwo : w.IsOrdered) (h : canonicalChars v = canonicalChars w) : v = w := by
  induction hdepth : v.depth using Nat.strongRecOn generalizing v w with
  | ind n ih =>
    subst hdepth
    cases sameKind_of_append_eq hv hw (congrArg (· ++ []) h) with
    | null => rfl
    | bool a b => cases a <;> cases b <;> first | rfl | exact absurd (List.cons.inj h).1 (by decide)
    | number m n =>
      cases m with
      | real d => cases hv
      | whole m =>
        cases n with
        | real d => cases hw
        | whole n =>
          rw [(wholeText_append_inj (r := []) (s := []) nofun nofun (congrArg (· ++ []) h)).1]
    | string a b => rw [(written_append_inj (congrArg (· ++ []) h)).1]
    | array items others =>
      refine congrArg _ (eq_of_map_eq (fun v hmem w hother hsame => ?_)
        (items_of_canonical_eq hv hw h))
      exact ih v.depth (Nat.lt_succ_of_le (depthItems_le_iff.mp (Nat.le_refl _) v hmem))
        (areIntegral_iff.mp hv v hmem) (areIntegral_iff.mp hw w hother)
        (areOrdered_iff.mp hvo v hmem) (areOrdered_iff.mp hwo w hother) hsame rfl
    | object members others =>
      have hfind := find?_of_canonical_eq hv hw hvo.1.nodup_keys hwo.1.nodup_keys h
      have hsame {k : String} {v w : Json} (hmem : (k, v) ∈ members) (hother : (k, w) ∈ others)
          (heq : canonicalChars v = canonicalChars w) : v = w :=
        ih v.depth (Nat.lt_succ_of_le (depthMembers_le_iff.mp (Nat.le_refl _) _ hmem))
          (membersIntegral_iff.mp hv _ hmem) (membersIntegral_iff.mp hw _ hother)
          (membersOrdered_iff.mp hvo.2 _ hmem) (membersOrdered_iff.mp hwo.2 _ hother) heq rfl
      refine congrArg _ (Keyed.eq_of_rising hvo.1 hwo.1 fun ⟨k, v⟩ => ⟨fun hmem => ?_, fun hmem => ?_⟩)
      · have hk := hfind k
        rw [(Keyed.find?_eq_some_iff hvo.1).mpr hmem] at hk
        obtain ⟨w, hw, heq⟩ := Option.map_eq_some_iff.mp hk.symm
        have hother := Keyed.mem_of_find? hw
        rwa [hsame hmem hother heq.symm]
      · have hk := hfind k
        rw [(Keyed.find?_eq_some_iff hwo.1).mpr hmem] at hk
        obtain ⟨w, hw, heq⟩ := Option.map_eq_some_iff.mp hk
        have hother := Keyed.mem_of_find? hw
        rwa [← hsame hother hmem heq]

end Rulebook.Json
