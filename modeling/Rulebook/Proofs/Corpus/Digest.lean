import Mathlib.Data.List.Induction
import Rulebook.Corpus.Digest
import Rulebook.Proofs.Basic
import Rulebook.Proofs.Card.Id

/-!
# What a source digest is taken over

An id may hold colons and line breaks, so the lines of a digest text cannot be told apart from its
beginning. But content hashes are all of one length: from its end the text gives the hash of the last
card, and if that fixes the card, the line of the card can be taken off. Ids that are well-formed hold
no colon, so their lines can be taken off from the beginning, whatever the hashes.
-/

namespace Rulebook

set_option autoImplicit false

variable {xs ys pairs : List (String × String)}

theorem byId_of_rising (h : (pairs.map (·.1)).Pairwise (· < ·)) : byId pairs = pairs :=
  mergeSort_of_rising h

theorem toList_digestLine (pair : String × String) :
    (digestLine pair).toList = pair.1.toList ++ [':'] ++ (pair.2.toList ++ ['\n']) := by
  simp [digestLine, String.toList_append]

theorem toList_digestText (pairs : List (String × String)) :
    (digestText pairs).toList = (byId pairs).flatMap fun pair => (digestLine pair).toList := by
  rw [digestText, String.toList_join, List.flatMap_map]

/-- The hash of a last line is read off from the end. -/
theorem hash_of_append_eq {x y : String × String} {before before' : List Char}
    (hlength : x.2.length = y.2.length)
    (h : before ++ (digestLine x).toList = before' ++ (digestLine y).toList) : x.2 = y.2 := by
  have htails : (x.2.toList ++ ['\n']).length = (y.2.toList ++ ['\n']).length := by
    simp [String.length_toList, hlength]
  have hsplit : (before ++ (x.1.toList ++ [':'])) ++ (x.2.toList ++ ['\n']) =
      (before' ++ (y.1.toList ++ [':'])) ++ (y.2.toList ++ ['\n']) := by
    rw [List.append_assoc, List.append_assoc before', ← toList_digestLine, ← toList_digestLine, h]
  have htail := (List.append_inj' hsplit htails).2
  exact String.toList_inj.mp (List.append_cancel_right htail)

/-- Lines with hashes of one length, where the hash fixes the id, are fixed by their text. -/
theorem eq_of_lines_eq {n : Nat} (hxs : ∀ x ∈ xs, x.2.length = n) (hys : ∀ y ∈ ys, y.2.length = n)
    (hids : ∀ x ∈ xs, ∀ y ∈ ys, x.2 = y.2 → x.1 = y.1)
    (h : (xs.flatMap fun pair => (digestLine pair).toList) =
      ys.flatMap fun pair => (digestLine pair).toList) : xs = ys := by
  have hline (pair : String × String) : (digestLine pair).toList ≠ [] := by simp [toList_digestLine]
  -- on the first list from its end, where the length of a hash is known
  induction xs using List.reverseRecOn generalizing ys with
  | nil =>
    rcases List.eq_nil_or_concat ys with rfl | ⟨ys, y, rfl⟩
    · rfl
    · simp [hline] at h
  | append_singleton xs x ih =>
    rcases List.eq_nil_or_concat ys with rfl | ⟨ys, y, rfl⟩
    · simp [hline] at h
    · rw [List.concat_eq_append] at hys hids h ⊢
      simp only [List.forall_mem_append, List.forall_mem_singleton] at hxs hys hids
      simp only [List.flatMap_append, List.flatMap_singleton] at h
      have hhash : x.2 = y.2 := hash_of_append_eq (hxs.2.trans hys.2.symm) h
      have hpair : x = y := Prod.ext (hids.2.2 hhash) hhash
      rw [hpair] at h
      rw [ih hxs.1 hys.1 (fun x' hx' => (hids.1 x' hx').1) (List.append_cancel_right h), hpair]

/-- Pairs by rising id, with hashes of one length that fix the id, are fixed by their digest text. -/
theorem eq_of_digestText_eq {n : Nat} (hrising : (xs.map (·.1)).Pairwise (· < ·))
    (hrising' : (ys.map (·.1)).Pairwise (· < ·)) (hxs : ∀ x ∈ xs, x.2.length = n)
    (hys : ∀ y ∈ ys, y.2.length = n) (hids : ∀ x ∈ xs, ∀ y ∈ ys, x.2 = y.2 → x.1 = y.1)
    (h : digestText xs = digestText ys) : xs = ys := by
  refine eq_of_lines_eq hxs hys hids ?_
  have hlists := congrArg String.toList h
  rwa [toList_digestText, toList_digestText, byId_of_rising hrising, byId_of_rising hrising'] at hlists

/-! ## Well-formed ids -/

/-- Ids and hashes as cards have them, no id twice. -/
structure ArePinned (pairs : List (String × String)) : Prop where
  ids : ∀ pair ∈ pairs, RuleId.valid pair.1 = true
  hashes : ∀ pair ∈ pairs, pair.2.length = 64 ∧ pair.2.toList ⊆ "0123456789abcdef".toList
  distinct : (pairs.map (·.1)).Nodup

theorem colon_not_mem_of_valid {id : String} (h : RuleId.valid id = true) : ':' ∉ id.toList := by
  intro hc
  rcases RuleId.mem_of_valid h hc with hhyphen | hword
  · exact absurd hhyphen (by decide)
  · exact absurd hword (by decide)

theorem line_append_inj {x y : String × String} {rest rest' : List Char} (hx : ':' ∉ x.1.toList)
    (hy : ':' ∉ y.1.toList) (hlength : x.2.length = y.2.length)
    (h : (digestLine x).toList ++ rest = (digestLine y).toList ++ rest') : x = y ∧ rest = rest' := by
  simp only [toList_digestLine, List.append_assoc, List.cons_append, List.nil_append] at h
  obtain ⟨hid, hafter⟩ := append_separator_inj hx hy h
  have hlengths : x.2.toList.length = y.2.toList.length := by
    rw [String.length_toList, String.length_toList, hlength]
  obtain ⟨hhash, hrest⟩ := List.append_inj hafter hlengths
  exact ⟨Prod.ext (String.toList_inj.mp hid) (String.toList_inj.mp hhash), (List.cons.inj hrest).2⟩

theorem eq_of_plain_lines_eq {n : Nat} (hxs : ∀ x ∈ xs, ':' ∉ x.1.toList ∧ x.2.length = n)
    (hys : ∀ y ∈ ys, ':' ∉ y.1.toList ∧ y.2.length = n)
    (h : (xs.flatMap fun pair => (digestLine pair).toList) =
      ys.flatMap fun pair => (digestLine pair).toList) : xs = ys := by
  have hline (pair : String × String) : (digestLine pair).toList ≠ [] := by simp [toList_digestLine]
  induction xs generalizing ys with
  | nil =>
    cases ys with
    | nil => rfl
    | cons y ys => simp [hline] at h
  | cons x xs ih =>
    cases ys with
    | nil => simp [hline] at h
    | cons y ys =>
      obtain ⟨⟨hx, hxn⟩, hxs⟩ := List.forall_mem_cons.mp hxs
      obtain ⟨⟨hy, hyn⟩, hys⟩ := List.forall_mem_cons.mp hys
      rw [List.flatMap_cons, List.flatMap_cons] at h
      obtain ⟨hsame, hrest⟩ := line_append_inj hx hy (hxn.trans hyn.symm) h
      rw [hsame, ih hxs hys hrest]

/-- The bytes that are hashed tell exactly which pairs there are, in whatever order. -/
theorem digestText_eq_iff_perm (hxs : ArePinned xs) (hys : ArePinned ys) :
    (digestText xs).toUTF8 = (digestText ys).toUTF8 ↔ xs.Perm ys := by
  have hplain {pairs : List (String × String)} (h : ArePinned pairs) :
      ∀ pair ∈ byId pairs, ':' ∉ pair.1.toList ∧ pair.2.length = 64 := by
    intro pair hpair
    have hmem : pair ∈ pairs := List.mem_mergeSort.mp hpair
    exact ⟨colon_not_mem_of_valid (h.ids pair hmem), (h.hashes pair hmem).1⟩
  rw [← mergeSort_eq_iff_perm hxs.distinct]
  constructor
  · intro h
    have htexts : digestText xs = digestText ys := String.toByteArray_inj.mp h
    have hlists := congrArg String.toList htexts
    rw [toList_digestText, toList_digestText] at hlists
    exact eq_of_plain_lines_eq (hplain hxs) (hplain hys) hlists
  · intro h
    rw [digestText, digestText, byId, h]
    rfl

def early : String × String :=
  ("A-B-001", "e3b0c44298fc1c149afbf4c8996fb92427ae41e4649b934ca495991b7852b855")

def late : String × String :=
  ("A-B2-001", "9f86d081884c7d659a2feaa0c55ad015a3bf4f1b2b0b822cd15d6c15b0f00a08")

theorem digestText_eq_iff_perm_pair :
    (digestText [late, early]).toUTF8 = (digestText [early, late]).toUTF8 ∧
      (digestText [late, early]).toUTF8 ≠ (digestText [early]).toUTF8 := by
  have hpair : ArePinned [late, early] := ⟨by decide, by decide, by decide⟩
  have hswapped : ArePinned [early, late] := ⟨by decide, by decide, by decide⟩
  have hsingle : ArePinned [early] := ⟨by decide, by decide, by decide⟩
  constructor
  · exact (digestText_eq_iff_perm hpair hswapped).mpr (List.Perm.swap early late [])
  · rw [Ne, digestText_eq_iff_perm hpair hsingle]
    exact fun hperm => absurd hperm.length_eq (by decide)

end Rulebook
