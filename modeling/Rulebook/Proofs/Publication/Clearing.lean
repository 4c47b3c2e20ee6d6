import Rulebook.Proofs.Disk.Open
import Rulebook.Proofs.Publication.Preparation

/-!
# The way to the staging directory

The staging directory stands on the way to the output directory, and may be part of it. What is there is
cleared before it is made anew.
-/

namespace Rulebook.Publication

set_option autoImplicit false

variable {output : Path} {d d' : Disk} {here l m : Location}

/-! ## Ways to the staging directory -/

theorem way_here (h : m ∈ (⟨"."⟩ : Path).way here) : m = here :=
  Path.way_of_steps_eq_nil rfl h

/-- The parent of the output directory stands for itself, or the current directory for it. -/
theorem parentOf_cases (output : Path) :
    (output.parent? = some (parentOf output) ∧ (parentOf output).text ≠ "") ∨
      (parentOf output = ⟨"."⟩ ∧ output.steps = []) ∨
      (parentOf output = ⟨"."⟩ ∧ output.steps.length ≤ 1 ∧ output.isAbsolute = false) := by
  unfold parentOf
  cases habove : output.parent? with
  | none => exact .inr (.inl ⟨rfl, Path.steps_of_noParent habove⟩)
  | some above =>
    dsimp only
    split
    · rename_i hempty
      obtain ⟨text⟩ := above
      cases String.isEmpty_iff.mp hempty
      exact .inr (.inr ⟨rfl, Path.steps_of_emptyParent habove⟩)
    · rename_i hempty
      exact .inl ⟨rfl, fun heq => hempty (String.isEmpty_iff.mpr heq)⟩

theorem ends_parentOf (output : Path) : (parentOf output).Ends := by
  rcases parentOf_cases output with ⟨habove, hne⟩ | ⟨hhere, -⟩ | ⟨hhere, -⟩
  · exact Path.ends_parent habove hne
  · rw [hhere]
    exact .inl rfl
  · rw [hhere]
    exact .inl rfl

theorem way_output (h : m ∈ output.way here) :
    m ∈ (parentOf output).way here ∨ m = output.placeFrom here := by
  rcases parentOf_cases output with ⟨habove, hne⟩ | ⟨hhere, hsteps⟩ | ⟨hhere, hsteps, hrelative⟩
  · exact Path.way_of_parent habove hne h
  · right
    rw [Path.way_of_steps_eq_nil hsteps h, Path.placeFrom_eq_foldl, hsteps]
    rfl
  · obtain ⟨front, hfront, rfl⟩ := Path.mem_way_iff.mp h
    cases front with
    | nil =>
      left
      rw [hhere, Path.startFrom, hrelative]
      exact List.mem_cons_self
    | cons c rest =>
      right
      have hlength := hfront.length_le
      rw [List.length_cons] at hlength
      rw [Path.placeFrom_eq_foldl, hfront.eq_of_length (by rw [List.length_cons]; omega)]

theorem way_parentOf (h : m ∈ (parentOf output).way here) :
    m ∈ output.way here ∨ m = (parentOf output).startFrom here := by
  rcases parentOf_cases output with ⟨habove, hne⟩ | ⟨hhere, -⟩ | ⟨hhere, -⟩
  · exact .inl (Path.way_parent habove hne h)
  · rw [hhere] at h ⊢
    exact .inr (way_here h)
  · rw [hhere] at h ⊢
    exact .inr (way_here h)

theorem stagingOf_eq (output : Path) :
    stagingOf output = (parentOf output).join ⟨stagingName output⟩ := rfl

theorem placeFrom_stagingOf (output : Path) (here : Location) :
    (stagingOf output).placeFrom here = stagingPlace output here := by
  rw [stagingPlace_eq, stagingOf_eq,
    Path.placeFrom_join (isComponent_stagingName output) (parentOf_nonempty output)]

/-- The way to a directory in the staging directory. -/
theorem mem_way_staged_iff {name : String} (hname : IsComponent name) :
    m ∈ ((stagingOf output).join ⟨name⟩).way here ↔
      m ∈ (parentOf output).way here ∨ m = stagingPlace output here ∨
        m = stagingPlace output here ++ [name] := by
  have hstaging := isComponent_stagingName output
  rw [Path.mem_way_join_iff hname.noSlash (stagingOf_nonempty output), placeFrom_stagingOf,
    Location.advance_of_name _ hname.nonempty hname.notHere hname.notUp, stagingOf_eq,
    Path.mem_way_join_iff hstaging.noSlash (parentOf_nonempty output),
    Location.advance_of_name _ hstaging.nonempty hstaging.notHere hstaging.notUp,
    ← stagingPlace_eq, or_assoc]

theorem startFrom_staged {name : String} (hname : IsComponent name) :
    ((stagingOf output).join ⟨name⟩).startFrom here = (parentOf output).startFrom here := by
  rw [Path.startFrom, Path.isAbsolute_join hname.noSlash (stagingOf_nonempty output), stagingOf_eq,
    Path.isAbsolute_join (isComponent_stagingName output).noSlash (parentOf_nonempty output)]
  rfl

/-! ## Making directories -/

theorem makeDirectories_ok_iff {p : Path} :
    makeDirectories p d = (.ok (), d') ↔
      Disk.makeDirectories (p.text.length + 1) p d = (.ok (), d') := by
  rw [makeDirectories]
  split
  · rename_i hmake
    rw [hmake, Prod.mk.injEq, Prod.mk.injEq]
    simp
  · rename_i hmake
    rw [hmake]
    simp

theorem makeDirectories_of_leads {p : Path} (h : d.Leads p l) :
    makeDirectories p d = (.ok (), d) :=
  makeDirectories_ok_iff.mpr (Disk.makeDirectories_of_leads _ h)

theorem makeDirectories_of_open {p : Path} (h : d.Open p) (hends : p.Ends) (hd : d.WellFormed) :
    ∃ d', makeDirectories p d = (.ok (), d') ∧ d.Fills d' p := by
  obtain ⟨d', hmake, hfills⟩ := Disk.makeDirectories_fills h hends hd (Path.length_steps_le p)
  exact ⟨d', makeDirectories_ok_iff.mpr hmake, hfills⟩

/-! ## Clearing the staging place -/

/-- The way up to the staging directory is there, and there is room for its name. -/
structure Reaches (output : Path) (d : Disk) : Prop where
  wellFormed : d.WellFormed
  parent : d.Leads (parentOf output) ((parentOf output).placeFrom d.here)
  isName : IsName (stagingName output)
  fits : (parentOf output).Fits (stagingName output)

theorem reaches_of_ready (h : Ready output d) : Reaches output d := by
  have hleads := leads_staging_of_fresh h.fresh
  rw [stagingOf_eq] at hleads
  obtain ⟨m, hparent, -, hname, hfits, -⟩ := (Disk.locate_join_iff (isComponent_stagingName output)
    (parentOf_nonempty output) _).mp hleads.located
  exact ⟨h.wellFormed, hparent.place ▸ hparent, hname, hfits⟩

theorem locate_staging (h : Reaches output d)
    (hthere : (d.kind? (stagingPlace output d.here)).isSome) :
    d.locate (stagingOf output) = .ok (stagingPlace output d.here) := by
  rw [stagingPlace_eq] at hthere ⊢
  exact (Disk.locate_join_iff h.isName.toIsComponent (parentOf_nonempty output) _).mpr
    ⟨_, h.parent, rfl, h.isName, h.fits, hthere⟩

/-- Clears the staging place, if there is anything. -/
def clear (output : Path) (d : Disk) : Except DiskError Disk :=
  if d.contains (stagingOf output) then d.removeDirectory (stagingOf output) else .ok d

/-- The staging place is empty, and nothing else has changed. -/
structure Cleared (output : Path) (d d' : Disk) : Prop where
  here : d'.here = d.here
  wellFormed : d'.WellFormed
  view : ∀ l, d'.kind? l = if stagingPlace output d.here <+: l then none else d.kind? l

theorem cleared_of_clear (h : Reaches output d) (hclear : clear output d = .ok d') :
    Cleared output d d' := by
  rw [clear] at hclear
  split at hclear
  · obtain ⟨place, hleads, rfl⟩ := (Disk.removeDirectory_ok_iff _).mp hclear
    obtain rfl := stagingPlace_of_leads hleads
    refine ⟨rfl, Disk.wellFormed_remove h.wellFormed _, ?_⟩
    refine Disk.kind?_remove h.wellFormed ?_
    rw [stagingPlace_eq]
    simp
  · rename_i hnot
    cases hclear
    refine ⟨rfl, h.wellFormed, fun l => ?_⟩
    split
    · rename_i hprefix
      rw [← Option.not_isSome_iff_eq_none]
      intro hsome
      have hthere := Disk.isSome_of_prefix hprefix hsome
      exact hnot ((Disk.contains_iff _).mpr ⟨_, locate_staging h hthere, hthere⟩)
    · rfl

theorem exists_clear
    (hfree : ∀ content, d.kind? (stagingPlace output d.here) ≠ some (.file content)) :
    ∃ d', clear output d = .ok d' := by
  rw [clear]
  split
  · rename_i hthere
    obtain ⟨place, hlocate, hsome⟩ := (Disk.contains_iff _).mp hthere
    have hplace : place = stagingPlace output d.here := by
      have hlocated := Disk.locate_place hlocate
      rwa [placeFrom_stagingOf] at hlocated
    refine ⟨_, (Disk.removeDirectory_ok_iff _).mpr ⟨place, ⟨hlocate, ?_⟩, rfl⟩⟩
    obtain ⟨kind, hkind⟩ := Option.isSome_iff_exists.mp hsome
    rw [hplace] at hkind ⊢
    cases kind with
    | directory => exact hkind
    | file content => exact absurd hkind (hfree content)
  · exact ⟨d, rfl⟩

theorem prepare_ok_iff : prepare output d = (.ok (), d') ↔ ∃ d₁ d₂ d₃,
    makeDirectories (parentOf output) d = (.ok (), d₁) ∧ clear output d₁ = .ok d₂ ∧
      makeDirectories (freshOf output) d₂ = (.ok (), d₃) ∧
      makeDirectories (previousOf output) d₃ = (.ok (), d') := by
  constructor
  · intro h
    unfold prepare at h
    split at h
    · cases h
    · rename_i d₁ hparent
      dsimp only at h
      split at h
      · cases h
      · rename_i d₂ hclear
        split at h
        · cases h
        · rename_i d₃ hfresh
          exact ⟨d₁, d₂, d₃, hparent, hclear, hfresh, h⟩
  · rintro ⟨d₁, d₂, d₃, hparent, hclear, hfresh, hprevious⟩
    rw [clear] at hclear
    unfold prepare
    simp only [hparent, hclear, hfresh, hprevious]

/-- The staging place is cleared between making the way up to it and making it anew. -/
theorem cleared_of_prepare (hd : d.WellFormed) (h : prepare output d = (.ok (), d')) :
    ∃ d₁ d₂ d₃, makeDirectories (parentOf output) d = (.ok (), d₁) ∧ Cleared output d₁ d₂ ∧
      makeDirectories (freshOf output) d₂ = (.ok (), d₃) ∧
      makeDirectories (previousOf output) d₃ = (.ok (), d') := by
  have hreaches := reaches_of_ready ((prepare_spec hd h).2 rfl)
  obtain ⟨d₁, d₂, d₃, hparent, hclear, hfresh, hprevious⟩ := prepare_ok_iff.mp h
  obtain ⟨-, hd₁, hleads⟩ := makeDirectories_spec _ hd hparent
  obtain ⟨l, hl⟩ := hleads rfl (parentOf_nonempty output)
  exact ⟨d₁, d₂, d₃, hparent,
    cleared_of_clear ⟨hd₁, hl.place ▸ hl, hreaches.isName, hreaches.fits⟩ hclear, hfresh, hprevious⟩

/-- The paths that are made do not start in the staging directory, as it is cleared first. -/
theorem outside_start_of_prepare (hd : d.WellFormed) (h : prepare output d = (.ok (), d')) :
    Outside (stagingPlace output d.here) ((parentOf output).startFrom d.here) := by
  obtain ⟨d₁, d₂, d₃, hparent, hcleared, hfresh, -⟩ := cleared_of_prepare hd h
  have hgains := (makeDirectories_spec _ hd hparent).1
  have hstart := Disk.makeDirectories_start (makeDirectories_ok_iff.mp hfresh)
    (freshOf_nonempty output)
  have hhere : d₂.start (freshOf output) = (parentOf output).startFrom d.here := by
    rw [← hgains.here, ← hcleared.here]
    exact startFrom_staged isName_new.toIsComponent
  rw [hhere, hcleared.view, hgains.here] at hstart
  intro hprefix
  rw [if_pos hprefix] at hstart
  cases hstart

/-- Outside the staging place, directories appear only on the way to the output directory. -/
theorem prepare_off (hd : d.WellFormed) (h : prepare output d = (.ok (), d'))
    (hl : Outside (stagingPlace output d.here) l) (hoff : l ∉ output.way d.here) :
    d'.kind? l = d.kind? l := by
  obtain ⟨d₁, d₂, d₃, hparent, hcleared, hfresh, hprevious⟩ := cleared_of_prepare hd h
  by_cases hstart : l = (parentOf output).startFrom d.here
  · -- where the parent starts there is a directory already
    have hthere : d.kind? l = some .directory := by
      rw [hstart]
      exact Disk.makeDirectories_start (makeDirectories_ok_iff.mp hparent) (parentOf_nonempty output)
    rw [hthere, (prepare_spec hd h).1.directory hl hthere]
  · have hoffParent : l ∉ (parentOf output).way d.here := fun hway =>
      (way_parentOf hway).elim hoff hstart
    have hoffStaged : ∀ {name}, IsComponent name →
        l ∉ ((stagingOf output).join ⟨name⟩).way d.here := by
      intro name hname hway
      rcases (mem_way_staged_iff hname).mp hway with hway | rfl | rfl
      · exact hoffParent hway
      · exact hl List.prefix_rfl
      · exact hl (List.prefix_append _ _)
    obtain ⟨hgains, -, -⟩ := makeDirectories_spec _ hd hparent
    obtain ⟨hgains₃, hd₃, -⟩ := makeDirectories_spec _ hcleared.wellFormed hfresh
    have hhere₂ : d₂.here = d.here := hcleared.here.trans hgains.here
    have hhere₃ : d₃.here = d.here := hgains₃.here.trans hhere₂
    have hfreshOff := hoffStaged isName_new.toIsComponent
    have hpreviousOff := hoffStaged isName_previous.toIsComponent
    rw [← hhere₂] at hfreshOff
    rw [← hhere₃] at hpreviousOff
    rw [makeDirectories_off hd₃ hprevious hpreviousOff,
      makeDirectories_off hcleared.wellFormed hfresh hfreshOff, hcleared.view, hgains.here,
      if_neg hl, makeDirectories_off hd hparent hoffParent]

end Rulebook.Publication
