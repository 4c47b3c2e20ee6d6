import Mathlib.Data.List.Perm.Basic
import Rulebook.Proofs.Disk.Files
import Rulebook.Proofs.Disk.Route

/-!
# The order in which directories are listed

A tree may list the entries of each of its directories in any order. What is at a location, where a path
leads and which files there are does not depend on that order.
-/

namespace Rulebook

set_option autoImplicit false

namespace Entry

/-- The same tree, with the entries of each directory in any order. -/
inductive Relisted : Entry → Entry → Prop
  | file (content : ByteArray) : Relisted (.file content) (.file content)
  | directory {entries moved others : List (String × Entry)} (hlength : entries.length = moved.length)
    (hnames : ∀ a b, (a, b) ∈ entries.zip moved → a.1 = b.1)
    (hentries : ∀ a b, (a, b) ∈ entries.zip moved → Relisted a.2 b.2) (hperm : moved.Perm others) :
    Relisted (.directory entries) (.directory others)

/-- Entries of one name that are relisted. -/
def RelistedPart (a b : String × Entry) : Prop := a.1 = b.1 ∧ Relisted a.2 b.2

variable {e e' : Entry} {entries moved others : List (String × Entry)}

theorem Relisted.exists_parts (h : Relisted (.directory entries) e') :
    ∃ moved others, e' = .directory others ∧ List.Forall₂ RelistedPart entries moved ∧ moved.Perm others := by
  cases h with
  | directory hlength hnames hentries hperm =>
    refine ⟨_, _, rfl, List.forall₂_iff_zip.mpr ⟨hlength, ?_⟩, hperm⟩
    exact fun {a b} hmem => ⟨hnames a b hmem, hentries a b hmem⟩

theorem Relisted.of_parts (h : List.Forall₂ RelistedPart entries moved) (hperm : moved.Perm others) :
    Relisted (.directory entries) (.directory others) := by
  obtain ⟨hlength, hzip⟩ := List.forall₂_iff_zip.mp h
  exact .directory hlength (fun _ _ hmem => (hzip hmem).1) (fun _ _ hmem => (hzip hmem).2) hperm

mutual

theorem Relisted.refl (e : Entry) : Relisted e e := by
  cases e with
  | file content => exact .file content
  | directory entries => exact .of_parts (relistedParts_refl entries) (.refl _)

theorem relistedParts_refl (entries : List (String × Entry)) : List.Forall₂ RelistedPart entries entries := by
  cases entries with
  | nil => exact .nil
  | cons part rest =>
    obtain ⟨name, e⟩ := part
    exact .cons ⟨rfl, Relisted.refl e⟩ (relistedParts_refl rest)

end

theorem keys_eq (h : List.Forall₂ RelistedPart entries moved) : Keyed.keys entries = Keyed.keys moved := by
  rw [Keyed.keys, Keyed.keys, ← List.forall₂_eq_eq_eq, List.forall₂_map_left_iff,
    List.forall₂_map_right_iff]
  exact h.imp fun _ _ hpart => hpart.1

/-- The same is at a location, up to the order in which it lists its entries. -/
theorem at?_relisted (l : Location) (he : e.WellFormed) (h : Relisted e e') :
    e.at? l = none ∧ e'.at? l = none ∨
      ∃ part part', e.at? l = some part ∧ e'.at? l = some part' ∧ Relisted part part' := by
  induction l generalizing e e' with
  | nil => exact .inr ⟨e, e', by rw [at?], by rw [at?], h⟩
  | cons name rest ih =>
    cases e with
    | file content =>
      cases h
      exact .inl ⟨rfl, rfl⟩
    | directory entries =>
      obtain ⟨moved, others, rfl, hparts, hperm⟩ := h.exists_parts
      have hkeys : (Keyed.keys entries).Perm (Keyed.keys others) := keys_eq hparts ▸ hperm.map _
      have hdistinct := ((wellFormed_directory_iff entries).mp he).1.nodup_keys
      rw [at?, at?]
      cases hfind : Keyed.find? name entries with
      | none =>
        have hother : Keyed.find? name others = none := by
          rw [Keyed.find?_eq_none_iff, ← hkeys.mem_iff]
          exact Keyed.find?_eq_none_iff.mp hfind
        rw [hother]
        exact .inl ⟨rfl, rfl⟩
      | some part =>
        obtain ⟨⟨_, part'⟩, hmoved, rfl, hpart⟩ := exists_of_mem_left hparts (Keyed.mem_of_find? hfind)
        have hother : Keyed.find? name others = some part' :=
          (Keyed.find?_eq_some_iff_of_nodup (hkeys.nodup_iff.mp hdistinct)).mpr (hperm.subset hmoved)
        rw [hother]
        exact ih (wellFormed_part he hfind).2 hpart

theorem Relisted.kind_eq (h : Relisted e e') : e.kind = e'.kind := by
  cases h <;> rfl

theorem kind?_relisted (he : e.WellFormed) (h : Relisted e e') (l : Location) : e'.kind? l = e.kind? l := by
  rw [kind?, kind?]
  obtain ⟨hnone, hother⟩ | ⟨part, part', hpart, hother, hrelisted⟩ := at?_relisted l he h
  · rw [hnone, hother]
  · rw [hpart, hother, Option.map_some, Option.map_some, hrelisted.kind_eq]

theorem filesIn_eq_flatMap (entries : List (String × Entry)) :
    filesIn entries = entries.flatMap fun part => part.2.files.map (part.1 :: ·) := by
  induction entries with
  | nil => rfl
  | cons part rest ih => rw [filesIn, ih, List.flatMap_cons]

/-- The files are the same. -/
theorem Relisted.perm_files (h : Relisted e e') : e.files.Perm e'.files := by
  induction h with
  | file content => exact .refl _
  | @directory entries moved others hlength hnames hentries hperm ih =>
    have hparts : List.Forall₂ (fun a b => a.1 = b.1 ∧ a.2.files.Perm b.2.files) entries moved :=
      List.forall₂_iff_zip.mpr ⟨hlength, fun {a b} hmem => ⟨hnames a b hmem, ih a b hmem⟩⟩
    have hmoved : (filesIn entries).Perm (filesIn moved) := by
      rw [filesIn_eq_flatMap, filesIn_eq_flatMap]
      refine List.Perm.flatten_congr ?_
      rw [List.forall₂_map_left_iff, List.forall₂_map_right_iff]
      exact hparts.imp fun _ _ hpart => hpart.1 ▸ hpart.2.map _
    rw [files, files]
    refine hmoved.trans ?_
    rw [filesIn_eq_flatMap, filesIn_eq_flatMap]
    exact hperm.flatMap_right _

end Entry

namespace Disk

variable {d d' : Disk}

/-- The disk, with its directories listed as in another tree. -/
def relist (d : Disk) (top : Entry) : Disk := { d with top }

theorem kind?_relist {top : Entry} (hd : d.WellFormed) (h : d.top.Relisted top) (l : Location) :
    (d.relist top).kind? l = d.kind? l :=
  Entry.kind?_relisted hd h l

section

variable (hhere : d'.here = d.here) (hview : ∀ l, d'.kind? l = d.kind? l)

include hhere hview

/-- A path leads to the same place on disks that look the same. -/
theorem locate_congr (p : Path) (l : Location) : d'.locate p = .ok l ↔ d.locate p = .ok l := by
  constructor
  · intro h
    exact locate_mono h hhere.symm (fun m _ hm => hview m ▸ hm) fun hl => hview l ▸ hl
  · intro h
    exact locate_mono h hhere (fun m _ hm => (hview m).symm ▸ hm) fun hl => (hview l).symm ▸ hl

theorem contains_congr (p : Path) : d'.contains p = d.contains p := by
  rw [Bool.eq_iff_iff, contains_iff, contains_iff]
  simp only [locate_congr hhere hview, hview]

theorem isFile_congr (p : Path) : d'.isFile p = d.isFile p := by
  rw [Bool.eq_iff_iff, isFile_iff, isFile_iff]
  simp only [locate_congr hhere hview, hview]

end

end Disk

end Rulebook
