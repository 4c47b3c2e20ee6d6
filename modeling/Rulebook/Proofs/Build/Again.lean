import Rulebook.Proofs.Build.Inputs
import Rulebook.Proofs.Publication.Again

/-!
# Building once more

A project that has been built can be built once more with the same outcome, and no file changes, unless
its cards or its manifest were reached through the staging directory, or a package that is there cannot
be set aside.
-/

namespace Rulebook.Build

set_option autoImplicit false

open Publication (CanStepAside IsPackagePlace Outside Rests rests_of_publish stagingPlace)

variable {cores : Nat} {config : Config} {stamp : Stamp} {d d' : Disk} {o : Outcome}

/-! ## Two builds -/

theorem Compiles.unique {corpus : Corpus} {manifest : Manifest} {packages packages' : List Package}
    (h : Compiles config stamp corpus manifest packages)
    (h' : Compiles config stamp corpus manifest packages') : packages = packages' := by
  rw [Compiles] at h h'
  generalize manifest.agents = agents at h h'
  induction h generalizing packages' with
  | nil =>
    cases h'
    rfl
  | cons hp _ ih =>
    cases h' with
    | cons hp' hrest => rw [Except.ok.inj (hp.symm.trans hp'), ih hrest]

/-- Of a project nothing but its cards and its manifest is examined. -/
theorem examine_congr (stamp : Stamp) {load : CorpusLoad} {manifest : Manifest}
    (hload : d.loadCorpus cores ⟨config.build.lenient, config.build.workers⟩ config.paths.rules =
      .ok load)
    (hload' : d'.loadCorpus cores ⟨config.build.lenient, config.build.workers⟩ config.paths.rules =
      .ok load)
    (hmanifest : d.loadManifest config.paths.manifest = .ok manifest)
    (hmanifest' : d'.loadManifest config.paths.manifest = .ok manifest) :
    examine cores true config stamp d' = examine cores true config stamp d := by
  simp only [examine, hload, hload', hmanifest, hmanifest', Bool.not_true, Bool.false_and]

theorem publish_eq {packages : List Package} {written : List Published}
    (hcompiled : o.compiled = some packages)
    (hrun : Publication.publish config.paths.output packages d = (.ok written, d')) :
    publish config o d = ({ o with published := written }, d') := by
  rw [publish_of_some hcompiled, hrun]

/-- A build without errors has published what it has compiled. -/
theorem publish_of_compile (h : compile cores config stamp d = (o, d')) (hok : o.failed = false) :
    ∃ packages written, (examine cores true config stamp d).compiled = some packages ∧
      Publication.publish config.paths.output packages d = (.ok written, d') ∧
      o = { examine cores true config stamp d with published := written } := by
  cases examine_examined cores config stamp d with
  | failed hfailed hcompiled =>
    rw [compile, publish_of_none hcompiled] at h
    obtain ⟨rfl, -⟩ := Prod.mk.inj h
    rw [hok] at hfailed
    cases hfailed
  | done load manifest packages _ _ _ _ _ _ hcompiled =>
    cases hrun : Publication.publish config.paths.output packages d with
    | mk result dAfter =>
      cases result with
      | ok written =>
        rw [compile, publish_eq hcompiled hrun] at h
        obtain ⟨ho, rfl⟩ := Prod.mk.inj h
        exact ⟨packages, written, hcompiled, hrun, ho.symm⟩
      | error e =>
        rw [compile, publish_of_some hcompiled, hrun] at h
        obtain ⟨rfl, -⟩ := Prod.mk.inj h
        rw [(Outcome.failed_add _ _).mpr (.inr ⟨_, List.mem_cons_self, rfl⟩)] at hok
        cases hok

/-! ## What is there to build from -/

/-- What is asked of a project that is to be built once more. -/
structure Rebuildable (config : Config) (d : Disk) : Prop where
  wellFormed : d.WellFormed
  /-- The manifest is not taken for a package. -/
  manifest : ¬ IsPackagePlace config.paths.output d.here (config.paths.manifest.placeFrom d.here)
  /-- No card lies where the staging directory goes. -/
  cards : ∀ paths, Discovery.cardPaths d config.paths.rules = .ok paths → ∀ p ∈ paths,
    Outside (stagingPlace config.paths.output d.here) (p.placeFrom d.here)

/-- The cards and the manifest can still be reached, and the packages can be set aside. -/
structure Repeats (config : Config) (here : Location) (packages : List Package) : Prop where
  rules : config.paths.rules.Avoids here (stagingPlace config.paths.output here)
  manifest : config.paths.manifest.Avoids here (stagingPlace config.paths.output here)
  aside : ∀ p ∈ packages, CanStepAside config.paths.output here p.fileName

namespace Succeeded

variable {load : CorpusLoad} {manifest : Manifest} {packages : List Package}

/-- The cards and the manifest are loaded as before. -/
theorem inputs (hbuild : Rebuildable config d)
    (h : Succeeded cores config stamp d o d' load manifest packages)
    (hrules : config.paths.rules.Avoids d.here (stagingPlace config.paths.output d.here))
    (hmanifest : config.paths.manifest.Avoids d.here (stagingPlace config.paths.output d.here)) :
    d'.loadCorpus cores ⟨config.build.lenient, config.build.workers⟩ config.paths.rules = .ok load ∧
      d'.loadManifest config.paths.manifest = .ok manifest :=
  ⟨h.keeps.loadCorpus hbuild.wellFormed hrules h.loaded h.clean h.corpus_ne_nil hbuild.cards _ _,
    h.keeps.loadManifest hmanifest hbuild.manifest h.accepted⟩

theorem run (hcompile : compile cores config stamp d = (o, d')) (hok : o.failed = false)
    (h : Succeeded cores config stamp d o d' load manifest packages) :
    (examine cores true config stamp d).compiled = some packages ∧
      Publication.publish config.paths.output packages d = (.ok o.published, d') ∧
      o = { examine cores true config stamp d with published := o.published } := by
  obtain ⟨packages', written, hcompiled, hpublish, ho⟩ := publish_of_compile hcompile hok
  have hsame : packages' = packages := by
    rw [← h.packages_eq, ho, Outcome.packages, hcompiled]
    rfl
  rw [← hsame]
  refine ⟨hcompiled, ?_, ?_⟩
  · rw [ho]
    exact hpublish
  · rw [ho]

theorem rests (hd : d.WellFormed) (hcompile : compile cores config stamp d = (o, d'))
    (hok : o.failed = false) (h : Succeeded cores config stamp d o d' load manifest packages) :
    ∃ dEnd, dEnd.here = d.here ∧ Rests config.paths.output packages dEnd d' :=
  rests_of_publish hd h.validIds h.nodup_ids (h.run hcompile hok).2.1

theorem compile_again (hbuild : Rebuildable config d)
    (hcompile : compile cores config stamp d = (o, d')) (hok : o.failed = false)
    (h : Succeeded cores config stamp d o d' load manifest packages)
    (hrepeats : Repeats config d.here packages) : compile cores config stamp d' = (o, d') := by
  obtain ⟨dEnd, hhere, hrests⟩ := h.rests hbuild.wellFormed hcompile hok
  obtain ⟨hload, hmanifest⟩ := h.inputs hbuild hrepeats.rules hrepeats.manifest
  have hexamine := examine_congr stamp h.loaded hload h.accepted hmanifest
  have haside := hrepeats.aside
  rw [← hhere] at haside
  have hpublish := hrests.publish h.validIds h.nodup_ids haside
  obtain ⟨hcompiled, -, ho⟩ := h.run hcompile hok
  rw [compile, hexamine, publish_eq hcompiled hpublish, ← h.published, ← ho]

theorem repeats (hbuild : Rebuildable config d)
    (hcompile : compile cores config stamp d = (o, d')) (hok : o.failed = false)
    (h : Succeeded cores config stamp d o d' load manifest packages) {o' : Outcome} {d'' : Disk}
    {load' : CorpusLoad} {manifest' : Manifest} {packages' : List Package}
    (h' : Succeeded cores config stamp d' o' d'' load' manifest' packages') :
    Repeats config d.here packages := by
  have hrules := h.keeps.avoids_of_loadCorpus h'.loaded
  have hmanifest := h.keeps.avoids_of_loadManifest h'.accepted
  obtain ⟨hload, haccepted⟩ := h.inputs hbuild hrules hmanifest
  obtain rfl : load = load' := Except.ok.inj (hload.symm.trans h'.loaded)
  obtain rfl : manifest = manifest' := Except.ok.inj (haccepted.symm.trans h'.accepted)
  obtain rfl : packages = packages' := h.compiles.unique h'.compiles
  obtain ⟨dEnd, hhere, hrests⟩ := h.rests hbuild.wellFormed hcompile hok
  obtain ⟨_, _, _, _, _, _, hcompleted, -⟩ := h'.completed
  have haside := hrests.canStepAside h.validIds hcompleted
  rw [hhere] at haside
  exact ⟨hrules, hmanifest, haside⟩

end Succeeded

/-- A build that has succeeded can be repeated, with the same outcome and without a change to any file,
as long as its cards and its manifest are not reached through the staging directory and its packages can
be set aside. Otherwise the next build fails. -/
theorem compile_compile (cores : Nat) (config : Config) (stamp : Stamp) (d : Disk)
    (hbuild : Rebuildable config d) (hok : (compile cores config stamp d).1.failed = false) :
    let o := (compile cores config stamp d).1
    let d' := (compile cores config stamp d).2
    (Repeats config d.here o.packages → compile cores config stamp d' = (o, d')) ∧
      (¬ Repeats config d.here o.packages → (compile cores config stamp d').1.failed = true) := by
  generalize hcompile : compile cores config stamp d = result at hok
  obtain ⟨o, d'⟩ := result
  intro o d'
  rcases compile_cases hbuild.wellFormed hcompile with
    ⟨hfailed, _⟩ | ⟨_, load, manifest, packages, hdone⟩
  · rw [show o.failed = false from hok] at hfailed
    cases hfailed
  · rw [hdone.packages_eq]
    refine ⟨hdone.compile_again hbuild hcompile hok, fun hnot => ?_⟩
    cases hagain : compile cores config stamp d' with
    | mk o' d'' =>
      rcases compile_cases hdone.keeps.wellFormed hagain with ⟨hfailed, _⟩ | ⟨_, _, _, _, hdone'⟩
      · exact hfailed
      · exact absurd (hdone.repeats hbuild hcompile hok hdone') hnot

theorem fileName_project {p : Package}
    (hp : p ∈ (compile 1 (into ⟨"out"⟩) (.ofSeconds 0) project).1.packages) :
    p.fileName = "a.json" := by
  have hagents : (project.loadManifest ⟨"agents.yaml"⟩).toOption.map
      (fun manifest => manifest.agents.map (·.id)) = some ["a"] := by decide +kernel
  have hsucceeded := failed_project ⟨"out"⟩ (by simp)
  cases hcompile : compile 1 (into ⟨"out"⟩) (.ofSeconds 0) project with
  | mk o d' =>
    rw [hcompile] at hp hsucceeded
    rcases compile_cases (by decide) hcompile with
      ⟨hfailed, -⟩ | ⟨-, load, manifest, packages, hdone⟩
    · rw [hsucceeded] at hfailed
      cases hfailed
    · rw [show project.loadManifest ⟨"agents.yaml"⟩ = .ok manifest from hdone.accepted] at hagents
      rw [hdone.packages_eq] at hp
      have hid := List.mem_map_of_mem (f := (·.id)) hp
      rw [hdone.compiles.ids_eq, show manifest.agents.map (·.id) = ["a"] from
        Option.some.inj hagents] at hid
      rw [Package.fileName, List.mem_singleton.mp hid]
      rfl

/-- The project with a staging directory that was left behind. -/
def leftover : Disk := project.put [".out.staging"] (.directory [])

/-- The rules are reached through the staging directory. -/
def detour : Config := ⟨⟨⟨".out.staging/../rules"⟩, ⟨"agents.yaml"⟩, ⟨"out"⟩⟩, ⟨"", false, 1⟩⟩

theorem rebuildable_of_cards (hd : d.WellFormed) (hhere : d.here = [])
    (hpaths : config.paths.manifest = ⟨"agents.yaml"⟩ ∧ config.paths.output = ⟨"out"⟩)
    (hcards : ((Discovery.cardPaths d config.paths.rules).toOption.map fun paths =>
      paths.all fun p => decide (Outside (stagingPlace ⟨"out"⟩ []) (p.placeFrom []))) = some true) :
    Rebuildable config d := by
  rw [← hhere] at hcards
  refine ⟨hd, ?_, fun paths hfound p hp => ?_⟩
  · rw [hpaths.1, hpaths.2, hhere]
    rintro ⟨name, -, heq⟩
    cases congrArg List.length heq
  · rw [hpaths.2]
    rw [hfound] at hcards
    exact of_decide_eq_true (List.all_eq_true.mp (Option.some.inj hcards) p hp)

theorem failed_leftover : (compile 1 detour (.ofSeconds 0) leftover).1.failed = false := by
  decide +kernel

theorem rebuildable_project : Rebuildable (into ⟨"out"⟩) project :=
  rebuildable_of_cards (by decide) rfl ⟨rfl, rfl⟩ (by decide +kernel)

theorem rebuildable_leftover : Rebuildable detour leftover :=
  rebuildable_of_cards (by decide) rfl ⟨rfl, rfl⟩ (by decide +kernel)

theorem repeats_project : Repeats (into ⟨"out"⟩) project.here
    (compile 1 (into ⟨"out"⟩) (.ofSeconds 0) project).1.packages := by
  refine ⟨by decide +kernel, by decide +kernel, fun p hp => ?_⟩
  rw [fileName_project hp]
  exact ⟨by decide +kernel, by decide +kernel⟩

/-- One project can be built twice, another one only once. -/
theorem compile_compile_project :
    (Rebuildable (into ⟨"out"⟩) project ∧
      (compile 1 (into ⟨"out"⟩) (.ofSeconds 0) project).1.failed = false ∧
      compile 1 (into ⟨"out"⟩) (.ofSeconds 0)
          (compile 1 (into ⟨"out"⟩) (.ofSeconds 0) project).2 =
        ((compile 1 (into ⟨"out"⟩) (.ofSeconds 0) project).1,
          (compile 1 (into ⟨"out"⟩) (.ofSeconds 0) project).2)) ∧
    (Rebuildable detour leftover ∧ (compile 1 detour (.ofSeconds 0) leftover).1.failed = false ∧
      (compile 1 detour (.ofSeconds 0)
        (compile 1 detour (.ofSeconds 0) leftover).2).1.failed = true) := by
  have hsucceeded := failed_project ⟨"out"⟩ (by simp)
  have hrules : ¬ detour.paths.rules.Avoids leftover.here (stagingPlace ⟨"out"⟩ leftover.here) := by
    decide +kernel
  refine ⟨⟨rebuildable_project, hsucceeded, ?_⟩, rebuildable_leftover, failed_leftover, ?_⟩
  · exact (compile_compile 1 _ _ project rebuildable_project hsucceeded).1 repeats_project
  · exact (compile_compile 1 _ _ leftover rebuildable_leftover failed_leftover).2
      fun hrepeats => hrules hrepeats.rules

end Rulebook.Build
