import Rulebook.Proofs.Publication.Clearing
import Rulebook.Proofs.Publication.Outcome

/-!
# Publishing once more

What a publication has left can be published once more if the packages that are there can be set aside,
and then nothing changes. Otherwise it fails.
-/

namespace Rulebook.Publication

set_option autoImplicit false

variable {output : Path} {packages : List Package} {d d' d₁ dEnd : Disk} {l : Location}

/-! ## Preparing again -/

/-- What a publication of packages leaves: they are in place, and the staging directory is gone. -/
structure Rests (output : Path) (packages : List Package) (d d' : Disk) : Prop where
  ready : Ready output d
  leads : d.Leads output (output.placeFrom d.here)
  start : Outside (stagingPlace output d.here) ((parentOf output).startFrom d.here)
  cleared : Cleared output d d'
  /-- The packages that can be found are those that were published. -/
  package : ∀ name content, (⟨name⟩ : Path).extension? = some "json" → output.Fits name →
    (d'.kind? (output.placeFrom d.here ++ [name]) = some (.file content) ↔
      ∃ p ∈ packages, name = p.fileName ∧ content = p.bytes)
  movable : ∀ p ∈ packages, Movable (freshOf output) output p.fileName
  /-- They have been moved from where they were staged. -/
  gone : ∀ p ∈ packages, d.kind? (freshPlace output d.here ++ [p.fileName]) = none

theorem Completed.rests {dStaged d₁ d₂ : Disk} {O : Location} {names : List String}
    (h : Completed output packages d dStaged d₁ d₂ dEnd O names)
    (hids : ∀ p ∈ packages, Manifest.validAgentId p.id = true)
    (hdistinct : (packages.map (·.id)).Nodup)
    (hstart : Outside (stagingPlace output d.here) ((parentOf output).startFrom d.here)) :
    Rests output packages dEnd (discard output dEnd) := by
  obtain ⟨hhere₁, hhere⟩ := h.here
  have hwellFormed := h.pending.inPlace.wellFormed
  have hplace := h.place
  have hpackage := (h.replaces hids hdistinct).package
  have hdiscarded := h.discarded
  obtain ⟨hgains, hdiscard⟩ := discard_spec output hwellFormed
  generalize discard output dEnd = dAfter at *
  constructor
  · exact h.pending.ready.mono hwellFormed h.pending.here fun l => h.pending.directory
  · rw [hhere, ← hplace]
    exact h.pending.leadsStill h.pending.leads
  · rwa [hhere]
  · refine ⟨hgains.here, hdiscard, ?_⟩
    rwa [hhere]
  · intro name content hextension hfits
    rw [hhere, hpackage name content hextension]
    simp [hfits]
  · exact fun p hp => h.pending.inPlaceMovable _ (List.mem_map_of_mem hp)
  · intro p hp
    rw [hhere, ← hhere₁]
    exact h.pending.inPlace.source _ (List.mem_map_of_mem hp)

theorem rests_of_publish (hd : d.WellFormed)
    (hids : ∀ p ∈ packages, Manifest.validAgentId p.id = true)
    (hdistinct : (packages.map (·.id)).Nodup) {written : List Published}
    (h : publish output packages d = (.ok written, d')) :
    ∃ dEnd, dEnd.here = d.here ∧ Rests output packages dEnd d' := by
  have hstart : Outside (stagingPlace output d.here) ((parentOf output).startFrom d.here) := by
    unfold publish at h
    split at h
    · cases h
    · rename_i hprepare
      exact outside_start_of_prepare hd hprepare
  rcases publish_spec hd hids h with
    ⟨_, herror, _⟩ | ⟨_, dStaged, d₁, d₂, dEnd, O, names, hcompleted, hd'⟩
  · cases herror
  · rw [hd']
    exact ⟨dEnd, hcompleted.here.2, hcompleted.rests hids hdistinct hstart⟩

/-- The staging directory is there once more, with the way to it. -/
structure Prepared (output : Path) (d d' : Disk) : Prop where
  here : d'.here = d.here
  wellFormed : d'.WellFormed
  view : ∀ l, d'.kind? l =
    if l ∈ (freshOf output).way d.here ∨ l ∈ (previousOf output).way d.here then some .directory
    else d.kind? l

namespace Rests

theorem directory (h : Rests output packages d d') (hl : d.kind? l = some .directory)
    (houtside : Outside (stagingPlace output d.here) l) : d'.kind? l = some .directory := by
  rw [h.cleared.view, if_neg houtside, hl]

/-- Nothing stands in the way that has been gone before. -/
theorem opened (h : Rests output packages d d') {p : Path} (hp : d.Leads p l)
    (hstart : p.startFrom d.here = (parentOf output).startFrom d.here) : d'.Open p := by
  constructor
  · exact hp.check
  · exact hp.short
  · have hsame : d'.start p = (parentOf output).startFrom d.here := by
      rw [← hstart, ← h.cleared.here]
      rfl
    rw [hsame]
    exact h.directory (by rw [← hstart]; exact hp.start) h.start
  · intro m hm content
    rw [h.cleared.here] at hm
    rw [h.cleared.view]
    split
    · rintro ⟨⟩
    · rw [hp.way m hm]
      rintro ⟨⟩

/-- Clearing the staging place takes away all of the way to it that was made. -/
theorem clear_parent (h : Rests output packages d d') (hfills : d'.Fills d₁ (parentOf output)) :
    clear output d₁ = .ok d' := by
  have hreaches := reaches_of_ready h.ready
  have hplace : stagingPlace output d₁.here = stagingPlace output d.here := by
    rw [hfills.here, h.cleared.here]
  have hreaches₁ : Reaches output d₁ := ⟨hfills.wellFormed,
    hfills.leads (h.opened hreaches.parent rfl), hreaches.isName, hreaches.fits⟩
  obtain ⟨d₂, hclear⟩ : ∃ d₂, clear output d₁ = .ok d₂ := by
    refine exists_clear fun content => ?_
    rw [hplace, hfills.view, h.cleared.view, if_pos List.prefix_rfl]
    split <;> rintro ⟨⟩
  have hcleared := cleared_of_clear hreaches₁ hclear
  have hsame : d₂ = d' := by
    refine Disk.eq_of_kind? hcleared.wellFormed h.cleared.wellFormed
      (hcleared.here.trans hfills.here) fun l => ?_
    rw [hcleared.view, hplace]
    split
    · rename_i hl
      rw [h.cleared.view, if_pos hl]
    · rename_i hl
      rw [hfills.view, h.cleared.here]
      split
      · rename_i hway
        exact (h.directory (hreaches.parent.way l hway) hl).symm
      · rfl
  rw [hclear, hsame]

theorem prepare (h : Rests output packages d d') :
    ∃ dStart, Publication.prepare output d' = (.ok (), dStart) ∧ Prepared output d' dStart := by
  have hparent := h.opened (reaches_of_ready h.ready).parent rfl
  have hfresh := h.opened h.ready.fresh (startFrom_staged isName_new.toIsComponent)
  have hprevious := h.opened h.ready.previous (startFrom_staged isName_previous.toIsComponent)
  obtain ⟨d₁, hmake₁, hfills₁⟩ :=
    makeDirectories_of_open hparent (ends_parentOf output) h.cleared.wellFormed
  obtain ⟨d₂, hmake₂, hfills₂⟩ := makeDirectories_of_open hfresh
    (Path.ends_join isName_new.toIsComponent (stagingOf_nonempty output)) h.cleared.wellFormed
  obtain ⟨d₃, hmake₃, hfills₃⟩ := makeDirectories_of_open (hfills₂.opened hprevious)
    (Path.ends_join isName_previous.toIsComponent (stagingOf_nonempty output)) hfills₂.wellFormed
  refine ⟨d₃, prepare_ok_iff.mpr ⟨d₁, d', d₂, hmake₁, h.clear_parent hfills₁, hmake₂, hmake₃⟩,
    hfills₃.here.trans hfills₂.here, hfills₃.wellFormed, fun l => ?_⟩
  rw [hfills₃.view, hfills₂.view, hfills₂.here]
  by_cases hl : l ∈ (previousOf output).way d'.here
  · rw [if_pos hl, if_pos (.inr hl)]
  · simp [hl]

end Rests

/-! ## Staging and moving again -/

theorem stage_of_movable (hready : Ready output d)
    (h : ∀ p ∈ packages, Movable (freshOf output) output p.fileName)
    (hfree : ∀ p ∈ packages,
      d.kind? (freshPlace output d.here ++ [p.fileName]) ≠ some .directory) :
    ∃ d', stage output packages d = (.ok (), d') := by
  induction packages generalizing d with
  | nil => exact ⟨d, rfl⟩
  | cons p packages ih =>
    have hmovable := h p List.mem_cons_self
    obtain ⟨d₁, hwrite⟩ := Disk.write_join hready.fresh hmovable.isName hmovable.source
      (hfree p List.mem_cons_self) p.bytes
    obtain ⟨_, _, hnot, hsets⟩ :=
      Disk.write_join_ok hready.fresh hmovable.isName.toIsComponent hwrite
    rw [stage_cons, hwrite]
    refine ih (hready.mono (hsets.wellFormed hready.wellFormed) hsets.here fun l => hsets.directory hnot)
      (fun q hq => h q (List.mem_cons_of_mem _ hq)) fun q hq => ?_
    rw [hsets.here, hsets.view]
    split
    · rintro ⟨⟩
    · exact hfree q (List.mem_cons_of_mem _ hq)

/-- The packages that can be found are those that are staged, and they can be set aside. -/
structure Restaged (output : Path) (packages : List Package) (d : Disk) : Prop where
  ready : Ready output d
  leads : d.Leads output (output.placeFrom d.here)
  staged : ∀ p ∈ packages,
    d.kind? (freshPlace output d.here ++ [p.fileName]) = some (.file p.bytes)
  found : ∀ name, (⟨name⟩ : Path).extension? = some "json" → output.Fits name →
    ((∃ content, d.kind? (output.placeFrom d.here ++ [name]) = some (.file content)) ↔
      name ∈ packages.map (·.fileName))
  movable : ∀ p ∈ packages, Movable (freshOf output) output p.fileName
  aside : ∀ p ∈ packages, (previousOf output).Fits p.fileName
  free : ∀ p ∈ packages,
    d.kind? (previousPlace output d.here ++ [p.fileName]) ≠ some .directory

namespace Restaged

variable {names : List String} (h : Restaged output packages d)
  (hids : ∀ p ∈ packages, Manifest.validAgentId p.id = true)

include h hids

section Listed

variable (hlists : Lists output d (output.placeFrom d.here) names)

include hlists

theorem mem_names_iff {name : String} :
    name ∈ names ↔ ∃ p ∈ packages, p.fileName = name := by
  rw [hlists.mem_iff]
  constructor
  · rintro ⟨hfits, hextension, hfile⟩
    exact List.mem_map.mp ((h.found name hextension hfits).mp hfile)
  · rintro ⟨p, hp, rfl⟩
    have hextension := extension?_fileName (hids p hp)
    have hfits := (h.movable p hp).destination
    exact ⟨hfits, hextension, (h.found _ hextension hfits).mpr (List.mem_map_of_mem hp)⟩

theorem canSetAside :
    CanMove d output (previousOf output) (output.placeFrom d.here) (previousPlace output d.here)
      names := by
  constructor
  · exact h.ready.wellFormed
  · exact h.leads
  · exact h.ready.previous
  · exact ne_previousPlace (outside_of_leads h.leads)
  · exact hlists.nodup
  · intro name hname
    obtain ⟨p, hp, rfl⟩ := (h.mem_names_iff hids hlists).mp hname
    exact ⟨(h.movable p hp).isName, (h.movable p hp).destination, h.aside p hp⟩
  · exact fun name hname => ((hlists.mem_iff name).mp hname).2.2
  · intro name hname
    obtain ⟨p, hp, rfl⟩ := (h.mem_names_iff hids hlists).mp hname
    exact h.free p hp

/-- Once the old packages are set aside, there is room for the new ones. -/
theorem gone (haside : MovedAll d d₁ (output.placeFrom d.here) (previousPlace output d.here) names) :
    ∀ name ∈ packages.map (·.fileName), d₁.kind? (output.placeFrom d.here ++ [name]) = none := by
  intro name hname
  exact haside.source name ((h.mem_names_iff hids hlists).mpr (List.mem_map.mp hname))

theorem canInstall (hnodup : (packages.map (·.fileName)).Nodup)
    (haside : MovedAll d d₁ (output.placeFrom d.here) (previousPlace output d.here) names) :
    CanMove d₁ (freshOf output) output (freshPlace output d.here) (output.placeFrom d.here)
      (packages.map (·.fileName)) := by
  have happart := ne_freshPlace (outside_of_leads h.leads)
  constructor
  · exact haside.wellFormed
  · exact h.ready.fresh.mono haside.here fun l => haside.directory
  · exact h.leads.mono haside.here fun l => haside.directory
  · exact happart
  · exact hnodup
  · intro name hname
    obtain ⟨p, hp, rfl⟩ := List.mem_map.mp hname
    exact h.movable p hp
  · intro name hname
    obtain ⟨p, hp, rfl⟩ := List.mem_map.mp hname
    refine ⟨p.bytes, ?_⟩
    rw [haside.elsewhere _ fun other _ => ⟨concat_ne happart _ _,
      concat_ne (freshPlace_ne_previousPlace d.here) _ _⟩]
    exact h.staged p hp
  · intro name hname
    rw [h.gone hids hlists haside name hname]
    rintro ⟨⟩

end Listed

theorem commit (hnodup : (packages.map (·.fileName)).Nodup) :
    ∃ names d₂ d', Publication.commit output packages d = (.ok (), d') ∧
      Lists output d (output.placeFrom d.here) names ∧
      Pending output (output.placeFrom d.here) names (packages.map (·.fileName)) d d₂ d' := by
  obtain ⟨paths, hpaths⟩ := existing_of_leads h.leads
  obtain ⟨O, names, hleads, hlists, hnames, rfl⟩ := existing_ok h.ready.wellFormed hpaths
  rw [hleads.place] at hlists
  have haside := h.canSetAside hids hlists
  have hinstall := h.canInstall hids hlists hnodup haside.movedAll
  refine ⟨names, _, _, ?_, hlists, h.ready, h.leads, outside_of_leads h.leads, haside.movedAll,
    haside.movable, hinstall.movedAll, hinstall.movable, h.gone hids hlists haside.movedAll⟩
  unfold Publication.commit
  simp only [makeDirectories_of_leads h.leads, hpaths,
    inDirectory_join _ fun name hname => (hnames name hname).toIsComponent,
    moveAll_failed haside, install, swap_inDirectory_fresh hids,
    moveAll_failed hinstall]

end Restaged

/-! ## Publishing again -/

/-- A package of this name can be set aside: there its path is not too long, and it is not on the way
to the output directory. -/
structure CanStepAside (output : Path) (here : Location) (name : String) : Prop where
  fits : (previousOf output).Fits name
  free : previousPlace output here ++ [name] ∉ output.way here

namespace Rests

variable {dStart dStaged : Disk} (h : Rests output packages d d')

include h

section Prepared

variable (hprepared : Prepared output d' dStart)

include hprepared

theorem here_start : dStart.here = d.here := hprepared.here.trans h.cleared.here

theorem kept (hl : Outside (stagingPlace output d.here) l) : dStart.kind? l = d'.kind? l := by
  rw [hprepared.view, h.cleared.here]
  split
  · rename_i hway
    have hdirectory : d.kind? l = some .directory :=
      hway.elim (h.ready.fresh.way l) (h.ready.previous.way l)
    exact (h.directory hdirectory hl).symm
  · rfl

/-- Below the directories of the staging directory there is nothing but the way to them. -/
theorem mem_way_of_prepared {a b : String}
    (hl : dStart.kind? (stagingPlace output d.here ++ [a] ++ [b]) = some .directory) :
    stagingPlace output d.here ++ [a] ++ [b] ∈ output.way d.here := by
  have hprefix : stagingPlace output d.here <+: stagingPlace output d.here ++ [a] ++ [b] := by
    rw [List.append_assoc]
    exact List.prefix_append _ _
  have hof : ∀ {name : String}, IsComponent name →
      stagingPlace output d.here ++ [a] ++ [b] ∈
        ((stagingOf output).join ⟨name⟩).way d.here →
      stagingPlace output d.here ++ [a] ++ [b] ∈ output.way d.here := by
    intro name hname hway
    rcases (mem_way_staged_iff hname).mp hway with hparent | heq | heq
    · rcases way_parentOf hparent with hway | hstart
      · exact hway
      · exact absurd (hstart ▸ hprefix) h.start
    · simpa using congrArg List.length heq
    · simpa using congrArg List.length heq
  rw [hprepared.view, h.cleared.here] at hl
  split at hl
  · rename_i hway
    exact hway.elim (hof isName_new.toIsComponent) (hof isName_previous.toIsComponent)
  · rw [h.cleared.view, if_pos hprefix] at hl
    cases hl

theorem leads_prepared : dStart.Leads output (output.placeFrom d.here) := by
  have hhere := h.here_start hprepared
  rw [← hhere]
  refine Disk.leads_of_way h.leads.check h.leads.short fun m hm => ?_
  rw [hhere] at hm
  rcases way_output hm with hparent | rfl
  · rw [hprepared.view, h.cleared.here, if_pos]
    exact .inl ((mem_way_staged_iff isName_new.toIsComponent).mpr (.inl hparent))
  · have houtside := outside_of_leads h.leads
    rw [h.kept hprepared houtside]
    exact h.directory h.leads.directory houtside

theorem kept_staged (hstaged : Staged output packages dStart dStaged)
    (hl : Outside (stagingPlace output d.here) l) : dStaged.kind? l = d'.kind? l := by
  rw [hstaged.outside (by rwa [hprepared.here, h.cleared.here]), h.kept hprepared hl]

/-- Where a package was staged before, there is no directory. -/
theorem free_fresh {p : Package} (hp : p ∈ packages) :
    dStart.kind? (freshPlace output d.here ++ [p.fileName]) ≠ some .directory := by
  intro hdirectory
  have hgone := h.gone p hp
  have hway := h.leads.way _ (h.mem_way_of_prepared hprepared hdirectory)
  rw [freshPlace, hway] at hgone
  cases hgone

/-- A directory where a package is set aside can only be on the way to the output directory. -/
theorem free_aside (hstaged : Staged output packages dStart dStaged) {p : Package}
    (haside : CanStepAside output d.here p.fileName) :
    dStaged.kind? (previousPlace output d.here ++ [p.fileName]) ≠ some .directory := by
  have helsewhere := hstaged.elsewhere
  rw [h.here_start hprepared] at helsewhere
  rw [helsewhere _ fun q _ => (concat_ne (freshPlace_ne_previousPlace _) _ _).symm]
  exact fun hdirectory => haside.free (h.mem_way_of_prepared hprepared hdirectory)

theorem restaged (hready : Ready output dStart)
    (hids : ∀ p ∈ packages, Manifest.validAgentId p.id = true)
    (hnodup : (packages.map (·.fileName)).Nodup)
    (haside : ∀ p ∈ packages, CanStepAside output d.here p.fileName)
    (hstage : stage output packages dStart = (.ok (), dStaged)) :
    Restaged output packages dStaged := by
  obtain ⟨hstaged, hfiles⟩ := stage_spec hready (fun p hp => isComponent_fileName (hids p hp)) hstage
  have hhere : dStaged.here = d.here := hstaged.here.trans (h.here_start hprepared)
  have hfiles := hfiles rfl hnodup
  constructor
  · exact hready.mono hstaged.wellFormed hstaged.here hstaged.directory
  · rw [hhere]
    exact (h.leads_prepared hprepared).mono hstaged.here hstaged.directory
  · rwa [hstaged.here]
  · intro name hextension hfits
    have houtside := outside_file (outside_of_leads h.leads) hextension
    rw [hhere, h.kept_staged hprepared hstaged houtside, List.mem_map]
    constructor
    · rintro ⟨content, hfile⟩
      obtain ⟨p, hp, rfl, -⟩ := (h.package name content hextension hfits).mp hfile
      exact ⟨p, hp, rfl⟩
    · rintro ⟨p, hp, rfl⟩
      exact ⟨p.bytes, (h.package _ _ hextension hfits).mpr ⟨p, hp, rfl, rfl⟩⟩
  · exact h.movable
  · exact fun p hp => (haside p hp).fits
  · intro p hp
    rw [hhere]
    exact h.free_aside hprepared hstaged (haside p hp)

end Prepared

variable (hids : ∀ p ∈ packages, Manifest.validAgentId p.id = true)

include hids

theorem file {p : Package} (hp : p ∈ packages) :
    d'.kind? (output.placeFrom d.here ++ [p.fileName]) = some (.file p.bytes) :=
  (h.package _ _ (extension?_fileName (hids p hp)) (h.movable p hp).destination).mpr
    ⟨p, hp, rfl, rfl⟩

/-- Everything is where it was once the staging directory is discarded. -/
theorem discard_eq (hnodup : (packages.map (·.fileName)).Nodup) {d₂ : Disk} {O : Location}
    {names : List String}
    (hcompleted : Completed output packages d' dStaged dStaged d₂ dEnd O names)
    (hkept : ∀ l, Outside (stagingPlace output d.here) l → dStaged.kind? l = d'.kind? l)
    (hnames : ∀ name ∈ names, ∃ p ∈ packages, p.fileName = name) : discard output dEnd = d' := by
  obtain ⟨hgains, hwellFormed⟩ := discard_spec output hcompleted.pending.inPlace.wellFormed
  have hdiscarded := hcompleted.discarded
  -- the disk that is left is described by now and need not be computed
  generalize discard output dEnd = dAfter at *
  apply Disk.eq_of_kind? hwellFormed h.cleared.wellFormed (hgains.here.trans hcompleted.here.2)
  intro l
  have hplace := hcompleted.place
  have helsewhere := hcompleted.elsewhere (l := l)
  rw [hdiscarded]
  rw [h.cleared.here] at hplace helsewhere ⊢
  split
  · rename_i hl
    rw [h.cleared.view, if_pos hl]
  · rename_i hl
    by_cases hpackage : ∃ p ∈ packages, l = O ++ [p.fileName]
    · obtain ⟨p, hp, rfl⟩ := hpackage
      rw [hcompleted.installed hnodup hp, hplace, h.file hids hp]
    · have hnot : ∀ name, (∃ p ∈ packages, p.fileName = name) → l ≠ O ++ [name] := by
        rintro _ ⟨p, hp, rfl⟩ heq
        exact hpackage ⟨p, hp, heq⟩
      rw [helsewhere hl (fun name hname => hnot name (hnames name hname)) fun name hname =>
        hnot name (List.mem_map.mp hname), hkept l hl]

/-- What was published can be published again if it can be set aside, and nothing changes. -/
theorem publish (hdistinct : (packages.map (·.id)).Nodup)
    (haside : ∀ p ∈ packages, CanStepAside output d.here p.fileName) :
    Publication.publish output packages d' = (.ok (packages.map (published output)), d') := by
  have hnodup := nodup_fileNames hdistinct
  obtain ⟨dStart, hprepare, hprepared⟩ := h.prepare
  obtain ⟨hgains, hready⟩ := prepare_spec h.cleared.wellFormed hprepare
  have hready := hready rfl
  obtain ⟨dStaged, hstage⟩ := stage_of_movable hready h.movable fun p hp => by
    rw [h.here_start hprepared]
    exact h.free_fresh hprepared hp
  obtain ⟨hstaged, hfiles⟩ := stage_spec hready (fun p hp => isComponent_fileName (hids p hp)) hstage
  have hrestaged := h.restaged hprepared hready hids hnodup haside hstage
  obtain ⟨names, d₂, dEnd, hcommit, hlists, hpending⟩ := hrestaged.commit hids hnodup
  have hgainsStaged := hstaged.gains
  rw [hprepared.here] at hfiles hgainsStaged
  have hcompleted : Completed output packages d' dStaged dStaged d₂ dEnd
      (output.placeFrom dStaged.here) names :=
    ⟨hgains.trans hgainsStaged, hfiles rfl, .refl _ _,
      fun l hl _ => h.kept_staged hprepared hstaged (h.cleared.here ▸ hl), hlists, hpending⟩
  have hsame := h.discard_eq hids hnodup hcompleted (fun l => h.kept_staged hprepared hstaged)
    fun name => (hrestaged.mem_names_iff hids hlists).mp
  unfold Publication.publish run
  simp only [hprepare, hstage, hcommit, hsame]

/-- Only what can be set aside has been published again. -/
theorem canStepAside {dStaged d₁ d₂ dEnd : Disk} {O : Location} {names : List String}
    (hcompleted : Completed output packages d' dStaged d₁ d₂ dEnd O names) :
    ∀ p ∈ packages, CanStepAside output d.here p.fileName := by
  intro p hp
  have hplace := hcompleted.place
  have hhere := hcompleted.here.1
  have hgains := hcompleted.gainsBefore
  rw [h.cleared.here] at hplace hhere hgains
  have hextension := extension?_fileName (hids p hp)
  have houtside := outside_file (outside_of_leads h.leads) hextension
  have hname : p.fileName ∈ names := by
    refine (hcompleted.lists.mem_iff _).mpr ⟨(h.movable p hp).destination, hextension, p.bytes, ?_⟩
    rw [hplace]
    exact (hgains.file_iff houtside _).mpr (h.file hids hp)
  constructor
  · exact (hcompleted.pending.asideMovable _ hname).destination
  · intro hway
    rw [← hhere] at hway
    exact hcompleted.pending.aside.free _ hname (hcompleted.pending.leads.way _ hway)

end Rests

end Rulebook.Publication
