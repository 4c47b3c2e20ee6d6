import Rulebook.Proofs.Disk.View

/-!
# The files of a tree

The files of a well-formed tree are listed by rising location, each once, so two trees with files at the
same locations have the same list.
-/

namespace Rulebook.Entry

set_option autoImplicit false

mutual

/-- Where the files of a tree are. -/
def files : Entry → List Location
  | .file _ => [[]]
  | .directory entries => filesIn entries

def filesIn : List (String × Entry) → List Location
  | [] => []
  | (name, e) :: rest => (files e).map (name :: ·) ++ filesIn rest

end

theorem mem_filesIn {entries : List (String × Entry)} {l : Location} :
    l ∈ filesIn entries ↔ ∃ part ∈ entries, ∃ rest ∈ part.2.files, l = part.1 :: rest := by
  induction entries with
  | nil => simp [filesIn]
  | cons part others ih =>
    rw [filesIn, List.mem_append, ih, List.mem_map]
    constructor
    · rintro (⟨rest, hrest, rfl⟩ | ⟨other, hother, h⟩)
      · exact ⟨part, List.mem_cons_self, rest, hrest, rfl⟩
      · exact ⟨other, List.mem_cons_of_mem _ hother, h⟩
    · rintro ⟨other, hother, rest, hrest, rfl⟩
      rcases List.mem_cons.mp hother with rfl | hother
      · exact .inl ⟨rest, hrest, rfl⟩
      · exact .inr ⟨other, hother, rest, hrest, rfl⟩

theorem mem_files_iff {l : Location} {e : Entry} (h : e.WellFormed) :
    l ∈ e.files ↔ ∃ content, e.kind? l = some (.file content) := by
  induction l generalizing e with
  | nil =>
    cases e with
    | file content => simp [files, kind]
    | directory entries => simp [files, mem_filesIn, kind]
  | cons name rest ih =>
    cases e with
    | file content => simp [files, kind?_file]
    | directory entries =>
      obtain ⟨hrising, hparts⟩ := (wellFormed_directory_iff entries).mp h
      rw [files, mem_filesIn, kind?_directory]
      constructor
      · rintro ⟨part, hpart, rest', hrest, heq⟩
        obtain ⟨rfl, rfl⟩ := List.cons.inj heq
        rw [(Keyed.find?_eq_some_iff hrising).mpr hpart]
        exact (ih (hparts part hpart).2).mp hrest
      · rintro ⟨content, hfile⟩
        obtain ⟨part, hfind, hfile⟩ := Option.bind_eq_some_iff.mp hfile
        have hpart := Keyed.mem_of_find? hfind
        exact ⟨_, hpart, rest, (ih (hparts _ hpart).2).mpr ⟨content, hfile⟩, rfl⟩

theorem isName_of_isSome {l : Location} {e : Entry} (h : e.WellFormed) (hl : (e.kind? l).isSome) :
    ∀ name ∈ l, IsName name := by
  induction l generalizing e with
  | nil => exact fun _ hname => nomatch hname
  | cons first rest ih =>
    cases e with
    | file content => cases hl
    | directory entries =>
      rw [kind?_directory] at hl
      obtain ⟨kind, hkind⟩ := Option.isSome_iff_exists.mp hl
      obtain ⟨part, hfind, hkind⟩ := Option.bind_eq_some_iff.mp hkind
      obtain ⟨hfirst, hpart⟩ := wellFormed_part h hfind
      intro name hname
      rcases List.mem_cons.mp hname with rfl | hname
      · exact hfirst
      · exact ih hpart (by rw [hkind]; rfl) name hname

mutual

theorem rising_files (e : Entry) (h : e.WellFormed) : e.files.Pairwise (· < ·) := by
  cases e with
  | file content => exact List.pairwise_singleton _ _
  | directory entries =>
    obtain ⟨hrising, hparts⟩ := h
    exact rising_filesIn entries hrising hparts

theorem rising_filesIn (entries : List (String × Entry)) (hrising : Keyed.Rising entries)
    (h : WellFormedIn entries) : (filesIn entries).Pairwise (· < ·) := by
  cases entries with
  | nil => exact .nil
  | cons part rest =>
    obtain ⟨name, e⟩ := part
    obtain ⟨hlater, hrest⟩ := List.pairwise_cons.mp hrising
    rw [filesIn, List.pairwise_append]
    refine ⟨List.pairwise_map.mpr ((rising_files e h.2.1).imp fun hlt => ?_),
      rising_filesIn rest hrest h.2.2, fun l hl m hm => ?_⟩
    · exact List.cons_lt_cons_iff.mpr (.inr ⟨rfl, hlt⟩)
    · obtain ⟨below, _, rfl⟩ := List.mem_map.mp hl
      obtain ⟨other, hother, below', _, rfl⟩ := mem_filesIn.mp hm
      exact List.cons_lt_cons_iff.mpr (.inl (hlater other hother))

end

/-- Rising lists with the same items are the same. -/
theorem eq_of_rising {xs ys : List Location} (hxs : xs.Pairwise (· < ·)) (hys : ys.Pairwise (· < ·))
    (h : ∀ l, l ∈ xs ↔ l ∈ ys) : xs = ys :=
  eq_of_mem_iff (fun _ _ => List.lt_asymm) hxs hys h

end Rulebook.Entry
