import Rulebook.Proofs.Publication.Places

/-!
# Moving files from one directory to another

A list of moves stops at the first one that fails. What was moved until then is known by name, so it
can be moved back.
-/

namespace Rulebook

set_option autoImplicit false

namespace Publication

/-- The moves of files, by name, from one directory to another. -/
def byName (a b : Path) (names : List String) : List (Path × Path) :=
  names.map fun name => (a.join ⟨name⟩, b.join ⟨name⟩)

/-- Files have gone, by name, from one directory to another. -/
structure MovedAll (d d' : Disk) (A B : Location) (names : List String) : Prop where
  here : d'.here = d.here
  wellFormed : d'.WellFormed
  nodup : names.Nodup
  file : ∀ name ∈ names, ∃ content, d.kind? (A ++ [name]) = some (.file content)
  free : ∀ name ∈ names, d.kind? (B ++ [name]) ≠ some .directory
  source : ∀ name ∈ names, d'.kind? (A ++ [name]) = none
  destination : ∀ name ∈ names, d'.kind? (B ++ [name]) = d.kind? (A ++ [name])
  elsewhere : ∀ l, (∀ name ∈ names, l ≠ A ++ [name] ∧ l ≠ B ++ [name]) → d'.kind? l = d.kind? l

variable {d d' d'' : Disk} {a b : Path} {A B : Location} {name : String} {names : List String}

theorem concat_ne (h : A ≠ B) (x y : String) : A ++ [x] ≠ B ++ [y] :=
  fun heq => h (List.append_inj_left' heq rfl)

theorem concat_ne_of_ne {x y : String} (h : x ≠ y) : A ++ [x] ≠ A ++ [y] :=
  fun heq => h (by simpa using heq)

theorem moved_directory (h : d.Moved d' A B name) {l : Location}
    (hl : d.kind? l = some .directory) : d'.kind? l = some .directory := by
  obtain ⟨content, hfile⟩ := h.file
  rw [h.view]
  split
  · rename_i heq
    exact absurd (heq ▸ hl) h.free
  · split
    · rename_i heq
      rw [heq, hfile] at hl
      cases hl
    · exact hl

namespace MovedAll

theorem nil (hd : d.WellFormed) (A B : Location) : MovedAll d d A B [] :=
  ⟨rfl, hd, List.nodup_nil, by simp, by simp, by simp, by simp, fun _ _ => rfl⟩

theorem directory (h : MovedAll d d' A B names) {l : Location}
    (hl : d.kind? l = some .directory) : d'.kind? l = some .directory := by
  rw [h.elsewhere l, hl]
  intro name hname
  constructor
  · rintro rfl
    obtain ⟨content, hfile⟩ := h.file name hname
    rw [hfile] at hl
    cases hl
  · rintro rfl
    exact h.free name hname hl

theorem cons (hAB : A ≠ B) (hfirst : d.Moved d' A B name) (hrest : MovedAll d' d'' A B names) :
    MovedAll d d'' A B (name :: names) := by
  have hgone : d'.kind? (A ++ [name]) = none := by
    rw [hfirst.view, if_neg (concat_ne hAB name name), if_pos rfl]
  have hnot : name ∉ names := by
    intro hmem
    obtain ⟨content, hfile⟩ := hrest.file name hmem
    rw [hgone] at hfile
    cases hfile
  have hothers : ∀ other ∈ names, other ≠ name := fun other hother heq => hnot (heq ▸ hother)
  have hsource : ∀ other ∈ names, d'.kind? (A ++ [other]) = d.kind? (A ++ [other]) := by
    intro other hother
    rw [hfirst.view, if_neg (concat_ne hAB other name),
      if_neg (concat_ne_of_ne (hothers other hother))]
  refine ⟨hrest.here.trans hfirst.here, hrest.wellFormed, List.nodup_cons.mpr ⟨hnot, hrest.nodup⟩,
    ?_, ?_, ?_, ?_, ?_⟩
  · intro other hother
    rcases List.mem_cons.mp hother with rfl | hother
    · exact hfirst.file
    · rw [← hsource other hother]
      exact hrest.file other hother
  · intro other hother
    rcases List.mem_cons.mp hother with rfl | hother
    · exact hfirst.free
    · have hfree := hrest.free other hother
      rw [hfirst.view, if_neg (concat_ne_of_ne (hothers other hother)),
        if_neg (concat_ne hAB.symm other name)] at hfree
      exact hfree
  · intro other hother
    rcases List.mem_cons.mp hother with rfl | hother
    · rw [hrest.elsewhere, hgone]
      intro another hanother
      exact ⟨concat_ne_of_ne (hothers another hanother).symm, concat_ne hAB _ _⟩
    · exact hrest.source other hother
  · intro other hother
    rcases List.mem_cons.mp hother with rfl | hother
    · rw [hrest.elsewhere, hfirst.view, if_pos rfl]
      intro another hanother
      exact ⟨concat_ne hAB.symm _ _, concat_ne_of_ne (hothers another hanother).symm⟩
    · rw [hrest.destination other hother, hsource other hother]
  · intro l hl
    obtain ⟨hA, hB⟩ := hl name List.mem_cons_self
    rw [hrest.elsewhere l fun other hother => hl other (List.mem_cons_of_mem _ hother),
      hfirst.view, if_neg hB, if_neg hA]

end MovedAll

/-- The names that can be moved from one directory to another. -/
structure Movable (a b : Path) (name : String) : Prop where
  isName : IsName name
  source : a.Fits name
  destination : b.Fits name

/-- The moves made are those of a first part of the names, and all of them unless one has failed. -/
theorem moveAll_byName (hd : d.WellFormed) (ha : d.Leads a A) (hb : d.Leads b B) (hAB : A ≠ B)
    (hnames : ∀ name ∈ names, IsComponent name) :
    ∃ done rest, names = done ++ rest ∧ (moveAll (byName a b names) d).made = byName a b done ∧
      MovedAll d (moveAll (byName a b names) d).disk A B done ∧
      (∀ name ∈ done, Movable a b name) ∧
      ((moveAll (byName a b names) d).failed = none → rest = []) := by
  induction names generalizing d with
  | nil => exact ⟨[], [], rfl, rfl, .nil hd A B, by simp, fun _ => rfl⟩
  | cons name names ih =>
    rw [byName, List.map_cons, moveAll]
    cases hmove : d.move (a.join ⟨name⟩) (b.join ⟨name⟩) with
    | error e => exact ⟨[], name :: names, rfl, rfl, .nil hd A B, by simp, by simp⟩
    | ok d' =>
      obtain ⟨hname, hfitsA, hfitsB, hmoved⟩ :=
        Disk.move_join_ok hd ha hb hAB (hnames name List.mem_cons_self) hmove
      obtain ⟨done, rest, hsplit, hmade, hall, hmovable, hfailed⟩ :=
        ih hmoved.wellFormed (ha.mono hmoved.here fun l => moved_directory hmoved)
          (hb.mono hmoved.here fun l => moved_directory hmoved)
          fun other hother => hnames other (List.mem_cons_of_mem _ hother)
      refine ⟨name :: done, rest, by rw [hsplit]; rfl, ?_, .cons hAB hmoved hall, ?_, hfailed⟩
      · exact congrArg (List.cons _) hmade
      · intro other hother
        rcases List.mem_cons.mp hother with rfl | hother
        · exact ⟨hname, hfitsA, hfitsB⟩
        · exact hmovable other hother

/-- Files that are there and can all be moved to where no directory is in their way. -/
structure CanMove (d : Disk) (a b : Path) (A B : Location) (names : List String) : Prop where
  wellFormed : d.WellFormed
  source : d.Leads a A
  destination : d.Leads b B
  apart : A ≠ B
  nodup : names.Nodup
  movable : ∀ name ∈ names, Movable a b name
  file : ∀ name ∈ names, ∃ content, d.kind? (A ++ [name]) = some (.file content)
  free : ∀ name ∈ names, d.kind? (B ++ [name]) ≠ some .directory

theorem CanMove.step (h : CanMove d a b A B (name :: names)) :
    ∃ d', d.move (a.join ⟨name⟩) (b.join ⟨name⟩) = .ok d' ∧ d.Moved d' A B name ∧
      CanMove d' a b A B names := by
  obtain ⟨hnot, hnodup⟩ := List.nodup_cons.mp h.nodup
  obtain ⟨hname, hfitsA, hfitsB⟩ := h.movable name List.mem_cons_self
  obtain ⟨content, hcontent⟩ := h.file name List.mem_cons_self
  obtain ⟨d', hmove, hmoved⟩ := Disk.move_join h.wellFormed h.source h.destination h.apart hname
    hfitsA hfitsB hcontent (h.free name List.mem_cons_self)
  have hothers : ∀ other ∈ names, other ≠ name := fun other hother heq => hnot (heq ▸ hother)
  refine ⟨d', hmove, hmoved, hmoved.wellFormed,
    h.source.mono hmoved.here fun l => moved_directory hmoved,
    h.destination.mono hmoved.here fun l => moved_directory hmoved, h.apart, hnodup,
    fun other hother => h.movable other (List.mem_cons_of_mem _ hother), ?_, ?_⟩
  · intro other hother
    rw [hmoved.view, if_neg (concat_ne h.apart _ _),
      if_neg (concat_ne_of_ne (hothers other hother))]
    exact h.file other (List.mem_cons_of_mem _ hother)
  · intro other hother
    rw [hmoved.view, if_neg (concat_ne_of_ne (hothers other hother)),
      if_neg (concat_ne h.apart.symm _ _)]
    exact h.free other (List.mem_cons_of_mem _ hother)

theorem moveAll_failed (h : CanMove d a b A B names) :
    (moveAll (byName a b names) d).failed = none := by
  induction names generalizing d with
  | nil => rfl
  | cons name names ih =>
    obtain ⟨d', hmove, _, hrest⟩ := h.step
    rw [byName, List.map_cons, moveAll, hmove]
    exact ih hrest

theorem CanMove.movedAll (h : CanMove d a b A B names) :
    MovedAll d (moveAll (byName a b names) d).disk A B names := by
  obtain ⟨done, rest, hsplit, -, hmoved, -, hall⟩ := moveAll_byName h.wellFormed h.source
    h.destination h.apart fun name hname => (h.movable name hname).isName.toIsComponent
  have hdone : done = names := by
    rw [hsplit, hall (moveAll_failed h), List.append_nil]
  rwa [hdone] at hmoved

theorem foldl_move (h : CanMove d a b A B names) :
    MovedAll d ((byName b a names).foldl (fun d (p, aside) => (d.move aside p).toOption.getD d) d)
      A B names := by
  induction names generalizing d with
  | nil => exact .nil h.wellFormed A B
  | cons name names ih =>
    obtain ⟨d', hmove, hmoved, hrest⟩ := h.step
    rw [byName, List.map_cons, List.foldl_cons]
    dsimp only
    rw [hmove]
    exact .cons h.apart hmoved (ih hrest)

/-- Files have gone from a directory. -/
structure RemovedAll (d d' : Disk) (B : Location) (names : List String) : Prop where
  here : d'.here = d.here
  wellFormed : d'.WellFormed
  file : ∀ name ∈ names, ∃ content, d.kind? (B ++ [name]) = some (.file content)
  gone : ∀ name ∈ names, d'.kind? (B ++ [name]) = none
  elsewhere : ∀ l, (∀ name ∈ names, l ≠ B ++ [name]) → d'.kind? l = d.kind? l

theorem RemovedAll.directory (h : RemovedAll d d' B names) {l : Location}
    (hl : d.kind? l = some .directory) : d'.kind? l = some .directory := by
  rw [h.elsewhere l, hl]
  rintro name hname rfl
  obtain ⟨content, hfile⟩ := h.file name hname
  rw [hfile] at hl
  cases hl

theorem RemovedAll.cons (hfirst : d.Sets d' (B ++ [name]) none)
    (hfile : ∃ content, d.kind? (B ++ [name]) = some (.file content))
    (hrest : RemovedAll d' d'' B names) : RemovedAll d d'' B (name :: names) := by
  have hnot : ∀ other ∈ names, other ≠ name := by
    rintro other hother rfl
    obtain ⟨content, hthere⟩ := hrest.file other hother
    rw [hfirst.view, if_pos rfl] at hthere
    cases hthere
  refine ⟨hrest.here.trans hfirst.here, hrest.wellFormed, ?_, ?_, ?_⟩
  · intro other hother
    rcases List.mem_cons.mp hother with rfl | hother
    · exact hfile
    · obtain ⟨content, hthere⟩ := hrest.file other hother
      rw [hfirst.view, if_neg (concat_ne_of_ne (hnot other hother))] at hthere
      exact ⟨content, hthere⟩
  · intro other hother
    rcases List.mem_cons.mp hother with rfl | hother
    · rw [hrest.elsewhere, hfirst.view, if_pos rfl]
      exact fun another hanother => concat_ne_of_ne (hnot another hanother).symm
    · exact hrest.gone other hother
  · intro l hl
    rw [hrest.elsewhere l fun other hother => hl other (List.mem_cons_of_mem _ hother),
      hfirst.view, if_neg (hl name List.mem_cons_self)]

theorem foldl_removeFile (hd : d.WellFormed) (hb : d.Leads b B) (hnodup : names.Nodup)
    (hremovable : ∀ name ∈ names, IsName name ∧ b.Fits name)
    (hfile : ∀ name ∈ names, ∃ content, d.kind? (B ++ [name]) = some (.file content)) :
    RemovedAll d ((byName a b names).foldl (fun d (_, p) => (d.removeFile p).toOption.getD d) d)
      B names := by
  induction names generalizing d with
  | nil => exact ⟨rfl, hd, by simp, by simp, fun _ _ => rfl⟩
  | cons name names ih =>
    obtain ⟨hnot, hnodup⟩ := List.nodup_cons.mp hnodup
    obtain ⟨hname, hfits⟩ := hremovable name List.mem_cons_self
    obtain ⟨content, hcontent⟩ := hfile name List.mem_cons_self
    obtain ⟨d', hremove, hsets⟩ := Disk.removeFile_join hd hb hname hfits hcontent
    rw [byName, List.map_cons, List.foldl_cons]
    dsimp only
    rw [hremove]
    have hnot' : d.kind? (B ++ [name]) ≠ some .directory := by
      rw [hcontent]
      rintro ⟨⟩
    have hb' := hb.mono hsets.here fun l => hsets.directory hnot'
    refine .cons hsets ⟨content, hcontent⟩ (ih (hsets.wellFormed hd) hb'
      hnodup (fun other hother => hremovable other (List.mem_cons_of_mem _ hother)) ?_)
    intro other hother
    have hne : other ≠ name := fun heq => hnot (heq ▸ hother)
    rw [hsets.view, if_neg (concat_ne_of_ne hne)]
    exact hfile other (List.mem_cons_of_mem _ hother)

end Publication

end Rulebook
