import Mathlib.Data.List.Induction
import Rulebook.Disk.Basic
import Rulebook.Proofs.Keyed

/-!
# What is at a location

A disk is looked at through `Disk.kind?`: nothing, a file with its content, or a directory. Putting
a file or an empty directory changes the view at one location, and removing an entry empties it there
and below. This needs that every directory of the tree lists its names in order, each once.
-/

namespace Rulebook

set_option autoImplicit false

/-- What a component of a path may be called, if it is no step up. -/
structure IsComponent (name : String) : Prop where
  nonempty : name ≠ ""
  notHere : name ≠ "."
  notUp : name ≠ ".."
  noSlash : '/' ∉ name.toList

instance (name : String) : Decidable (IsComponent name) :=
  decidable_of_iff (name ≠ "" ∧ name ≠ "." ∧ name ≠ ".." ∧ '/' ∉ name.toList)
    ⟨fun ⟨h₁, h₂, h₃, h₄⟩ => ⟨h₁, h₂, h₃, h₄⟩, fun ⟨h₁, h₂, h₃, h₄⟩ => ⟨h₁, h₂, h₃, h₄⟩⟩

/-- What an entry of a directory may be called. -/
structure IsName (name : String) : Prop extends IsComponent name where
  noNul : '\x00' ∉ name.toList
  short : Disk.isTooLong name = false

instance (name : String) : Decidable (IsName name) :=
  decidable_of_iff (IsComponent name ∧ '\x00' ∉ name.toList ∧ Disk.isTooLong name = false)
    ⟨fun ⟨h₁, h₂, h₃⟩ => ⟨h₁, h₂, h₃⟩, fun ⟨h₁, h₂, h₃⟩ => ⟨h₁, h₂, h₃⟩⟩

inductive Kind where
  | file (content : ByteArray)
  | directory

namespace Entry

def kind : Entry → Kind
  | .file content => .file content
  | .directory _ => .directory

mutual

/-- Every directory of the tree lists its names in order, each once, and they are names. -/
def WellFormed : Entry → Prop
  | .file _ => True
  | .directory entries => Keyed.Rising entries ∧ WellFormedIn entries

def WellFormedIn : List (String × Entry) → Prop
  | [] => True
  | (name, e) :: rest => IsName name ∧ WellFormed e ∧ WellFormedIn rest

end

mutual

def decWellFormed : (e : Entry) → Decidable e.WellFormed
  | .file _ => isTrue (by simp [WellFormed])
  | .directory entries =>
    have := decWellFormedIn entries
    decidable_of_iff (Keyed.Rising entries ∧ WellFormedIn entries) (by simp [WellFormed])

def decWellFormedIn : (entries : List (String × Entry)) → Decidable (WellFormedIn entries)
  | [] => isTrue (by simp [WellFormedIn])
  | (name, e) :: rest =>
    have := decWellFormed e
    have := decWellFormedIn rest
    decidable_of_iff (IsName name ∧ WellFormed e ∧ WellFormedIn rest) (by simp [WellFormedIn])

end

instance (e : Entry) : Decidable e.WellFormed := decWellFormed e

theorem wellFormedIn_iff (entries : List (String × Entry)) :
    WellFormedIn entries ↔ ∀ part ∈ entries, IsName part.1 ∧ part.2.WellFormed := by
  induction entries with
  | nil => simp [WellFormedIn]
  | cons part rest ih => simp [WellFormedIn, ih, and_assoc]

theorem wellFormed_directory_iff (entries : List (String × Entry)) :
    (Entry.directory entries).WellFormed ↔
      Keyed.Rising entries ∧ ∀ part ∈ entries, IsName part.1 ∧ part.2.WellFormed := by
  rw [WellFormed, wellFormedIn_iff]

theorem wellFormed_part {entries : List (String × Entry)} {name : String} {e : Entry}
    (h : (Entry.directory entries).WellFormed) (hfind : Keyed.find? name entries = some e) :
    IsName name ∧ e.WellFormed :=
  ((wellFormed_directory_iff entries).mp h).2 (name, e) (Keyed.mem_of_find? hfind)

theorem wellFormed_insert {entries : List (String × Entry)} {name : String} {e : Entry}
    (h : (Entry.directory entries).WellFormed) (hname : IsName name) (he : e.WellFormed) :
    (Entry.directory (Keyed.insert name e entries)).WellFormed := by
  obtain ⟨hrising, hparts⟩ := (wellFormed_directory_iff entries).mp h
  refine (wellFormed_directory_iff _).mpr ⟨Keyed.rising_insert name e hrising, ?_⟩
  intro part hpart
  rcases Keyed.mem_insert hpart with rfl | hpart
  · exact ⟨hname, he⟩
  · exact hparts part hpart

theorem wellFormed_erase {entries : List (String × Entry)} (name : String)
    (h : (Entry.directory entries).WellFormed) :
    (Entry.directory (Keyed.erase name entries)).WellFormed := by
  obtain ⟨hrising, hparts⟩ := (wellFormed_directory_iff entries).mp h
  refine (wellFormed_directory_iff _).mpr ⟨Keyed.rising_erase name hrising, ?_⟩
  intro part hpart
  exact hparts part (Keyed.mem_of_mem_erase hpart)

theorem wellFormed_put {new : Entry} (hnew : new.WellFormed) (l : Location)
    (hlast : ∀ name ∈ l.getLast?, IsName name) {e : Entry} (h : e.WellFormed) :
    (e.put l new).WellFormed := by
  induction l generalizing e with
  | nil => exact hnew
  | cons name rest ih =>
    cases e with
    | file content => exact h
    | directory entries =>
      simp only [put]
      split
      · rename_i part hfind
        obtain ⟨hname, hpart⟩ := wellFormed_part h hfind
        refine wellFormed_insert h hname ?_
        cases rest with
        | nil => exact hnew
        | cons other rest => exact ih (by simpa using hlast) hpart
      · split
        · rename_i hrest
          rw [List.isEmpty_iff] at hrest
          exact wellFormed_insert h (hlast name (by simp [hrest])) hnew
        · exact h

theorem wellFormed_remove (l : Location) {e : Entry} (h : e.WellFormed) :
    (e.remove l).WellFormed := by
  induction l generalizing e with
  | nil => exact h
  | cons name rest ih =>
    cases e with
    | file content => exact h
    | directory entries =>
      simp only [remove]
      split
      · exact wellFormed_erase name h
      · split
        · rename_i part hfind
          obtain ⟨hname, hpart⟩ := wellFormed_part h hfind
          exact wellFormed_insert h hname (ih hpart)
        · exact h

def kind? (e : Entry) (l : Location) : Option Kind := (e.at? l).map kind

@[simp] theorem kind?_nil (e : Entry) : e.kind? [] = some e.kind := by
  cases e <;> rfl

@[simp] theorem kind?_file (content : ByteArray) (name : String) (rest : Location) :
    (Entry.file content).kind? (name :: rest) = none := rfl

theorem kind?_directory (entries : List (String × Entry)) (name : String) (rest : Location) :
    (Entry.directory entries).kind? (name :: rest) =
      (Keyed.find? name entries).bind (·.kind? rest) := by
  simp only [kind?, at?]
  split <;> simp_all

/-- A file or an empty directory: there is nothing below it. -/
def IsLeaf (e : Entry) : Prop := ∀ name rest, e.kind? (name :: rest) = none

theorem isLeaf_file (content : ByteArray) : (Entry.file content).IsLeaf := fun _ _ => rfl

theorem isLeaf_directory : (Entry.directory []).IsLeaf := fun _ _ => rfl

theorem kind?_put {new : Entry} (hnew : new.IsLeaf) (parent : Location) (name : String)
    {e : Entry} (hparent : e.kind? parent = some .directory)
    (htarget : e.kind? (parent ++ [name]) ≠ some .directory) (other : Location) :
    (e.put (parent ++ [name]) new).kind? other =
      if other = parent ++ [name] then some new.kind else e.kind? other := by
  induction parent generalizing e other with
  | nil =>
    cases e with
    | file content => cases hparent
    | directory entries =>
      have hput : (Entry.directory entries).put [name] new =
          .directory (Keyed.insert name new entries) := by
        cases hfind : Keyed.find? name entries <;> simp [put, hfind]
      rw [List.nil_append, hput]
      cases other with
      | nil => simp [kind]
      | cons first rest =>
        simp only [kind?_directory, Keyed.find?_insert]
        by_cases hfirst : name = first
        · subst hfirst
          cases rest with
          | nil => simp
          | cons second rest =>
            simp only [if_true, Option.bind_some, hnew second rest]
            rw [if_neg (by simp)]
            -- what was there is no directory, so nothing was below it either
            cases hfind : Keyed.find? name entries with
            | none => rfl
            | some part =>
              cases part with
              | file content => rfl
              | directory inner => simp [kind?_directory, hfind, kind] at htarget
        · simp [hfirst, Ne.symm hfirst]
  | cons first parent ih =>
    cases e with
    | file content => cases hparent
    | directory entries =>
      rw [List.cons_append] at htarget ⊢
      rw [kind?_directory] at hparent htarget
      obtain ⟨part, hfind, hpart⟩ := Option.bind_eq_some_iff.mp hparent
      rw [hfind, Option.bind_some] at htarget
      simp only [put, hfind]
      cases other with
      | nil => simp [kind]
      | cons second rest =>
        simp only [kind?_directory, Keyed.find?_insert, List.cons.injEq]
        by_cases hsecond : first = second
        · subst hsecond
          simp only [if_true, Option.bind_some, hfind, true_and]
          exact ih hpart htarget rest
        · simp [hsecond, Ne.symm hsecond]

theorem kind?_remove (l : Location) (hl : l ≠ []) {e : Entry} (h : e.WellFormed)
    (other : Location) :
    (e.remove l).kind? other = if l <+: other then none else e.kind? other := by
  induction l generalizing e other with
  | nil => exact absurd rfl hl
  | cons name rest ih =>
    cases e with
    | file content => cases other <;> simp [remove, kind]
    | directory entries =>
      cases other with
      | nil =>
        rw [if_neg (by simp)]
        simp only [remove]
        split
        · rfl
        · split <;> rfl
      | cons first below =>
        simp only [List.cons_prefix_cons, kind?_directory]
        cases rest with
        | nil =>
          simp only [remove, List.isEmpty_nil, if_true, List.nil_prefix, and_true, kind?_directory,
            Keyed.find?_erase ((wellFormed_directory_iff entries).mp h).1]
          split <;> rfl
        | cons second rest =>
          cases hfind : Keyed.find? name entries with
          | none =>
            simp only [remove, List.isEmpty_cons, Bool.false_eq_true, if_false, hfind,
              kind?_directory]
            by_cases hfirst : name = first
            · subst hfirst
              simp [hfind]
            · simp [hfirst]
          | some part =>
            simp only [remove, List.isEmpty_cons, Bool.false_eq_true, if_false, hfind,
              kind?_directory, Keyed.find?_insert]
            by_cases hfirst : name = first
            · subst hfirst
              simp only [if_true, true_and, Option.bind_some, hfind]
              exact ih (List.cons_ne_nil _ _) (wellFormed_part h hfind).2 below
            · simp [hfirst]

mutual

/-- Well-formed trees that look the same everywhere are the same. -/
theorem eq_of_kind? (e : Entry) {e' : Entry} (h : e.WellFormed) (h' : e'.WellFormed)
    (hview : ∀ l, e.kind? l = e'.kind? l) : e = e' := by
  have hroot := Option.some.inj (hview [])
  cases e with
  | file content =>
    cases e' with
    | file content' =>
      cases hroot
      rfl
    | directory entries' => cases hroot
  | directory entries =>
    cases e' with
    | file content' => cases hroot
    | directory entries' =>
      obtain ⟨hrising, hparts⟩ := (wellFormed_directory_iff entries).mp h
      obtain ⟨hrising', hparts'⟩ := (wellFormed_directory_iff entries').mp h'
      have hfind : ∀ name, Keyed.find? name entries = Keyed.find? name entries' := by
        intro name
        have hbelow : ∀ rest, (Keyed.find? name entries).bind (·.kind? rest) =
            (Keyed.find? name entries').bind (·.kind? rest) := by
          intro rest
          rw [← kind?_directory, ← kind?_directory]
          exact hview (name :: rest)
        cases hpart : Keyed.find? name entries with
        | none =>
          cases hpart' : Keyed.find? name entries' with
          | none => rfl
          | some part' => simpa [hpart, hpart'] using hbelow []
        | some part =>
          cases hpart' : Keyed.find? name entries' with
          | none => simpa [hpart, hpart'] using hbelow []
          | some part' =>
            rw [hpart, hpart'] at hbelow
            have hmem := Keyed.mem_of_find? hpart
            exact congrArg some (eq_of_mem_of_kind? entries _ hmem (hparts _ hmem).2
              (hparts' _ (Keyed.mem_of_find? hpart')).2 hbelow)
      refine congrArg _ (Keyed.eq_of_rising hrising hrising' fun ⟨name, part⟩ => ?_)
      rw [← Keyed.find?_eq_some_iff hrising, ← Keyed.find?_eq_some_iff hrising', hfind]

theorem eq_of_mem_of_kind? (entries : List (String × Entry)) : ∀ part ∈ entries, ∀ {e' : Entry},
    part.2.WellFormed → e'.WellFormed → (∀ l, part.2.kind? l = e'.kind? l) → part.2 = e' := by
  cases entries with
  | nil => exact fun _ hmem => nomatch hmem
  | cons first rest =>
    obtain ⟨name, e⟩ := first
    intro part hmem e' h h' hview
    rcases List.mem_cons.mp hmem with rfl | hmem
    · exact eq_of_kind? e h h' hview
    · exact eq_of_mem_of_kind? rest part hmem h h' hview

end

end Entry

namespace Disk

def WellFormed (d : Disk) : Prop := d.top.WellFormed

instance (d : Disk) : Decidable d.WellFormed := inferInstanceAs (Decidable d.top.WellFormed)

/-- What is at a location of a disk. -/
def kind? (d : Disk) (l : Location) : Option Kind := d.top.kind? l

theorem kind?_eq (d : Disk) (l : Location) : d.kind? l = (d.entry? l).map Entry.kind := rfl

theorem kind?_isSome {d : Disk} (l : Location) : (d.kind? l).isSome = (d.entry? l).isSome := by
  rw [kind?_eq, Option.isSome_map]

theorem kind?_eq_file_iff {d : Disk} (l : Location) (content : ByteArray) :
    d.kind? l = some (.file content) ↔ d.entry? l = some (.file content) := by
  rw [kind?_eq]
  cases d.entry? l with
  | none => simp
  | some e => cases e <;> simp [Entry.kind]

theorem kind?_eq_directory_iff {d : Disk} (l : Location) :
    d.kind? l = some .directory ↔ ∃ entries, d.entry? l = some (.directory entries) := by
  rw [kind?_eq]
  cases d.entry? l with
  | none => simp
  | some e => cases e <;> simp [Entry.kind]

theorem kind?_ne_directory_iff {d : Disk} (l : Location) :
    d.kind? l ≠ some .directory ↔ ∀ entries, d.entry? l ≠ some (.directory entries) := by
  rw [ne_eq, kind?_eq_directory_iff, not_exists]

/-- Only what is in a directory is there. -/
theorem kind?_parent {d : Disk} {l : Location} {name : String}
    (h : (d.kind? (l ++ [name])).isSome) : d.kind? l = some .directory := by
  obtain ⟨top, here⟩ := d
  simp only [kind?] at h ⊢
  induction l generalizing top with
  | nil =>
    cases top with
    | file content => cases h
    | directory entries => rfl
  | cons first rest ih =>
    cases top with
    | file content => cases h
    | directory entries =>
      rw [List.cons_append, Entry.kind?_directory] at h
      rw [Entry.kind?_directory]
      cases hfind : Keyed.find? first entries with
      | none => simp [hfind] at h
      | some part =>
        rw [hfind, Option.bind_some] at h
        exact ih part h

theorem kind?_above {d : Disk} {l : Location} (below : Location) (hbelow : below ≠ [])
    (h : (d.kind? (l ++ below)).isSome) : d.kind? l = some .directory := by
  induction below using List.reverseRecOn with
  | nil => exact absurd rfl hbelow
  | append_singleton front name ih =>
    rw [← List.append_assoc] at h
    have hparent := kind?_parent h
    cases front with
    | nil => rwa [List.append_nil] at hparent
    | cons first rest => exact ih (List.cons_ne_nil _ _) (by rw [hparent]; rfl)

theorem isSome_of_prefix {d : Disk} {l m : Location} (h : l <+: m) (hm : (d.kind? m).isSome) :
    (d.kind? l).isSome := by
  obtain ⟨below, rfl⟩ := h
  cases below with
  | nil => rwa [List.append_nil] at hm
  | cons name rest => rw [kind?_above (name :: rest) (List.cons_ne_nil _ _) hm]; rfl

theorem isName_of_isSome {d : Disk} (h : d.WellFormed) {l : Location} {name : String}
    (hl : (d.kind? (l ++ [name])).isSome) : IsName name := by
  obtain ⟨top, here⟩ := d
  simp only [WellFormed, kind?] at h hl
  induction l generalizing top with
  | nil =>
    cases top with
    | file content => cases hl
    | directory entries =>
      rw [List.nil_append, Entry.kind?_directory] at hl
      cases hfind : Keyed.find? name entries with
      | none => simp [hfind] at hl
      | some part => exact (Entry.wellFormed_part h hfind).1
  | cons first rest ih =>
    cases top with
    | file content => cases hl
    | directory entries =>
      rw [List.cons_append, Entry.kind?_directory] at hl
      cases hfind : Keyed.find? first entries with
      | none => simp [hfind] at hl
      | some part =>
        rw [hfind, Option.bind_some] at hl
        exact ih part (Entry.wellFormed_part h hfind).2 hl

theorem kind?_append {d : Disk} {l : Location} {e : Entry} (h : d.entry? l = some e)
    (below : Location) : d.kind? (l ++ below) = e.kind? below := by
  obtain ⟨top, here⟩ := d
  simp only [kind?, entry?] at h ⊢
  induction l generalizing top with
  | nil =>
    rw [Entry.at?] at h
    cases h
    rfl
  | cons first rest ih =>
    cases top with
    | file content => cases h
    | directory entries =>
      rw [List.cons_append, Entry.kind?_directory]
      simp only [Entry.at?] at h
      cases hfind : Keyed.find? first entries with
      | none => simp [hfind] at h
      | some part =>
        rw [hfind] at h
        exact ih part h

theorem wellFormed_entry {d : Disk} (hd : d.WellFormed) {l : Location} {e : Entry}
    (h : d.entry? l = some e) : e.WellFormed := by
  obtain ⟨top, here⟩ := d
  simp only [WellFormed, entry?] at hd h
  induction l generalizing top with
  | nil =>
    rw [Entry.at?] at h
    cases h
    exact hd
  | cons first rest ih =>
    cases top with
    | file content => cases h
    | directory entries =>
      simp only [Entry.at?] at h
      cases hfind : Keyed.find? first entries with
      | none => simp [hfind] at h
      | some part =>
        rw [hfind] at h
        exact ih part (Entry.wellFormed_part hd hfind).2 h

theorem wellFormed_put {d : Disk} (h : d.WellFormed) {new : Entry} (hnew : new.WellFormed)
    (parent : Location) {name : String} (hname : IsName name) :
    (d.put (parent ++ [name]) new).WellFormed :=
  Entry.wellFormed_put hnew _ (by simpa using hname) h

theorem wellFormed_remove {d : Disk} (h : d.WellFormed) (l : Location) :
    (d.remove l).WellFormed :=
  Entry.wellFormed_remove l h

/-- Disks that look the same everywhere are the same. -/
theorem eq_of_kind? {d d' : Disk} (h : d.WellFormed) (h' : d'.WellFormed) (hhere : d.here = d'.here)
    (hview : ∀ l, d.kind? l = d'.kind? l) : d = d' := by
  obtain ⟨top, here⟩ := d
  obtain ⟨top', here'⟩ := d'
  cases hhere
  rw [Entry.eq_of_kind? top h h' hview]

theorem kind?_put {d : Disk} {new : Entry} (hnew : new.IsLeaf) {parent : Location} {name : String}
    (hparent : d.kind? parent = some .directory)
    (htarget : d.kind? (parent ++ [name]) ≠ some .directory) (other : Location) :
    (d.put (parent ++ [name]) new).kind? other =
      if other = parent ++ [name] then some new.kind else d.kind? other :=
  Entry.kind?_put hnew parent name hparent htarget other

theorem kind?_remove {d : Disk} (h : d.WellFormed) {l : Location} (hl : l ≠ [])
    (other : Location) :
    (d.remove l).kind? other = if l <+: other then none else d.kind? other :=
  Entry.kind?_remove l hl h other

end Disk

end Rulebook
