import Rulebook.Command.Run
import Rulebook.Proofs.Build.Inputs

/-!
# Verifying a build

What a build has published is accepted with the cards and the manifest that it was built from, as
long as these can still be reached. A path that leads through the staging directory leads nowhere
any more.
-/

namespace Rulebook.Command

set_option autoImplicit false

open Publication (Keeps Outside stagingPlace IsPackagePlace)

variable {d d' : Disk} {input output : Path}

/-! ## Running the command -/

theorem expand_of_existing {paths : List Path} (hd : d.WellFormed)
    (h : Publication.existing input d = .ok paths) : expand d input = paths := by
  obtain ⟨O, _, hleads, _⟩ := Publication.existing_ok hd h
  rw [Publication.existing] at h
  rw [expand, (Disk.isDirectory_iff input).mpr ⟨O, hleads⟩]
  cases hnames : d.names input with
  | error e =>
    rw [hnames] at h
    cases h
  | ok names =>
    rw [hnames] at h
    exact Except.ok.inj h

/-- Packages that can be read and in which nothing is found make a run without an error. -/
theorem checkPackages_ok {corpus : Option Corpus} {manifest : Option Manifest} {paths : List Path}
    (h : ∀ path ∈ paths, ∃ p, d.loadPackage path = .ok p ∧ findings p corpus manifest = [])
    (total : Nat) : ∃ text, checkPackages d corpus manifest total paths 0 = .ok text := by
  induction paths with
  | nil => exact ⟨_, rfl⟩
  | cons path rest ih =>
    obtain ⟨p, hload, hfound⟩ := h path List.mem_cons_self
    obtain ⟨text, hrest⟩ := ih fun other hother => h other (List.mem_cons_of_mem _ hother)
    rw [checkPackages, hload]
    dsimp only
    rw [hfound]
    exact ⟨_, congrArg (Reply.after _) hrest⟩

theorem referenceCorpus_ok_iff {s : Surroundings} {rules : Path} {corpus : Corpus} :
    referenceCorpus s d rules = .ok corpus ↔
      ∃ load, d.loadCorpus s.cores ⟨false, 0⟩ rules = .ok load ∧ load.errors = [] ∧
        load.corpus = corpus := by
  rw [referenceCorpus]
  cases d.loadCorpus s.cores ⟨false, 0⟩ rules with
  | error e => simp
  | ok load =>
    dsimp only
    rw [CorpusLoad.isClean]
    by_cases hclean : load.errors = []
    · simp [hclean]
    · simp [hclean]

/-- A run with cards and a manifest. -/
theorem runVerify_ok {s : Surroundings} {rules path : Path} {corpus : Corpus} {manifest : Manifest}
    (hcorpus : referenceCorpus s d rules = .ok corpus) (hmanifest : d.loadManifest path = .ok manifest)
    (hne : expand d input ≠ [])
    (h : ∀ path ∈ expand d input, ∃ p, d.loadPackage path = .ok p ∧
      findings p (some corpus) (some manifest) = []) :
    ∃ text, runVerify s [input] (some rules) (some path) d = .ok (.ok text) := by
  obtain ⟨text, hcheck⟩ := checkPackages_ok h (expand d input).length
  refine ⟨text, ?_⟩
  have hsome : (expand d input).isEmpty = false := by simpa using hne
  simp only [runVerify, Option.mapM_some, hcorpus, hmanifest, Except.mapError,
    List.flatMap_cons, List.flatMap_nil, List.append_nil, hsome, hcheck, bind, Except.bind, Functor.map,
    Except.map, pure, Except.pure]
  rfl

/-! ## What is found -/

/-- The packages are found where they were published, and no others. -/
theorem expand_perm {packages : List Package} (hd' : d'.WellFormed)
    (hreplaces : Publication.Replaces output packages (fun name => ¬ output.Fits name) d d')
    (hids : ∀ p ∈ packages, Manifest.validAgentId p.id = true)
    (hdistinct : (packages.map (·.id)).Nodup) (hfits : ∀ p ∈ packages, output.Fits p.fileName)
    {O : Location} (hleads : d'.Leads output O) :
    (expand d' output).Perm (packages.map fun p => output.join ⟨p.fileName⟩) := by
  obtain ⟨paths, hpaths⟩ := Publication.existing_of_leads hleads
  obtain ⟨O', names, hleads', hlists, _, rfl⟩ := Publication.existing_ok hd' hpaths
  have hplace : O' = output.placeFrom d.here := by rw [hleads'.place, hreplaces.here]
  have hperm : names.Perm (packages.map (·.fileName)) := by
    refine (List.perm_ext_iff_of_nodup hlists.nodup
      (Publication.nodup_fileNames hdistinct)).mpr fun name => ?_
    rw [hlists.mem_iff, hplace, List.mem_map]
    constructor
    · rintro ⟨hshort, hextension, content, hfile⟩
      rcases (hreplaces.package name content hextension).mp hfile with
        ⟨p, hp, hname, _⟩ | ⟨hlong, _⟩
      · exact ⟨p, hp, hname.symm⟩
      · exact absurd hshort hlong
    · rintro ⟨p, hp, rfl⟩
      have hextension := Publication.extension?_fileName (hids p hp)
      exact ⟨hfits p hp, hextension, p.bytes,
        (hreplaces.package _ _ hextension).mpr (.inl ⟨p, hp, rfl, rfl⟩)⟩
  rw [expand_of_existing hd' hpaths]
  have hmap := hperm.map fun name => output.join ⟨name⟩
  rw [List.map_map] at hmap
  exact hmap

/-! ## Builds -/

/-- What is asked of a project whose build is to be verified. -/
structure Verifiable (config : Config) (d : Disk) : Prop where
  wellFormed : d.WellFormed
  strict : config.build.lenient = false
  /-- The manifest is not taken for a package. -/
  manifest : ¬ IsPackagePlace config.paths.output d.here (config.paths.manifest.placeFrom d.here)
  /-- No card lies where the staging directory goes. -/
  cards : ∀ paths, Discovery.cardPaths d config.paths.rules = .ok paths → ∀ p ∈ paths,
    Outside (stagingPlace config.paths.output d.here) (p.placeFrom d.here)
  cardDefaults : ∀ cores options load, d.loadCorpus cores options config.paths.rules = .ok load →
    ∀ loaded ∈ load.corpus.toList, Json.membersIntegral loaded.card.defaults = true
  policyDefaults : ∀ manifest, d.loadManifest config.paths.manifest = .ok manifest →
    ∀ agent ∈ manifest.agents, Json.membersIntegral agent.policy.defaults = true

/-- The packages, and no others, are found in the output directory, are read back as they were built,
and nothing is found in them. -/
structure Verified (s : Surroundings) (paths : ProjectPaths) (packages : List Package) (d : Disk) :
    Prop where
  found : (expand d paths.output).Perm (packages.map fun p => paths.output.join ⟨p.fileName⟩)
  loaded : ∀ p ∈ packages, d.loadPackage (paths.output.join ⟨p.fileName⟩) = .ok p
  accepted : ∃ corpus manifest, referenceCorpus s d paths.rules = .ok corpus ∧
    d.loadManifest paths.manifest = .ok manifest ∧
    ∀ p ∈ packages, findings p (some corpus) (some manifest) = []
  succeeds : ∃ text,
    runVerify s [paths.output] (some paths.rules) (some paths.manifest) d = .ok (.ok text)

section

variable {cores : Nat} {config : Config} {stamp : Stamp} {o : Outcome} {load : CorpusLoad}
  {manifest : Manifest} {packages : List Package} (s : Surroundings)

open Build (Succeeded)

/-- The packages are read back as they were built, if they can be reached at all. -/
theorem loadPackage_ok_iff (hv : Verifiable config d)
    (h : Succeeded cores config stamp d o d' load manifest packages) {p : Package}
    (hp : p ∈ packages) :
    d'.loadPackage (config.paths.output.join ⟨p.fileName⟩) = .ok p ↔
      config.paths.output.Avoids d.here (stagingPlace config.paths.output d.here) := by
  have haccepted := Disk.loadManifest_accepted h.accepted
  have hids := h.validIds
  have hdistinct := h.nodup_ids
  obtain ⟨_, _, _, _, _, _, hcompleted, hd'⟩ := h.completed
  rw [hd']
  have hmovable := hcompleted.pending.inPlaceMovable p.fileName (List.mem_map_of_mem hp)
  constructor
  · intro hload
    rw [Disk.loadPackage] at hload
    split at hload
    · cases hload
    · rename_i content hread
      obtain ⟨O, hleads, _⟩ := (Disk.read_join_iff hmovable.isName
        hcompleted.pending.leads.nonempty hmovable.destination content).mp hread
      exact hcompleted.leads_iff.mp ⟨O, hleads⟩
  · intro havoids
    have hcorpus := Disk.loadCorpus_sound h.loaded
    obtain ⟨hordered, hdepth⟩ := h.compiles.isOrdered haccepted hcorpus
      (Disk.policy_fits_of_loadManifest h.accepted) hp
    exact Disk.loadPackage_of_read ((hcompleted.read_iff hids hdistinct hp).mpr havoids) hordered
      (h.compiles.isIntegral haccepted hcorpus (hv.cardDefaults _ _ load h.loaded)
        (hv.policyDefaults manifest h.accepted) hp) hdepth

theorem expand_perm_of_succeeded (h : Succeeded cores config stamp d o d' load manifest packages)
    (houtput : config.paths.output.Avoids d.here (stagingPlace config.paths.output d.here)) :
    (expand d' config.paths.output).Perm
      (packages.map fun p => config.paths.output.join ⟨p.fileName⟩) := by
  have hids := h.validIds
  have hdistinct := h.nodup_ids
  have hkeeps := h.keeps
  obtain ⟨_, _, _, _, _, _, hcompleted, hd'⟩ := h.completed
  have hreplaces := hcompleted.replaces hids hdistinct
  have hleads := hcompleted.leads_iff.mpr houtput
  rw [← hd'] at hreplaces hleads
  obtain ⟨O, hleads⟩ := hleads
  exact expand_perm hkeeps.wellFormed hreplaces hids hdistinct
    (fun p hp => (hcompleted.pending.inPlaceMovable _ (List.mem_map_of_mem hp)).destination) hleads

/-- The cards and the manifest are what they were. -/
theorem reference_of_avoids (hv : Verifiable config d)
    (h : Succeeded cores config stamp d o d' load manifest packages)
    (hrules : config.paths.rules.Avoids d.here (stagingPlace config.paths.output d.here))
    (hmanifest : config.paths.manifest.Avoids d.here (stagingPlace config.paths.output d.here)) :
    referenceCorpus s d' config.paths.rules = .ok load.corpus ∧
      d'.loadManifest config.paths.manifest = .ok manifest := by
  have hloaded := h.loaded
  rw [hv.strict] at hloaded
  have hcorpus := h.keeps.loadCorpus hv.wellFormed hrules hloaded h.clean h.corpus_ne_nil hv.cards
  exact ⟨referenceCorpus_ok_iff.mpr ⟨load, hcorpus _ _, h.clean, rfl⟩,
    h.keeps.loadManifest hmanifest hv.manifest h.accepted⟩

theorem verified_of_avoids (hv : Verifiable config d)
    (h : Succeeded cores config stamp d o d' load manifest packages)
    (houtput : config.paths.output.Avoids d.here (stagingPlace config.paths.output d.here))
    (hrules : config.paths.rules.Avoids d.here (stagingPlace config.paths.output d.here))
    (hmanifest : config.paths.manifest.Avoids d.here (stagingPlace config.paths.output d.here)) :
    Verified s config.paths packages d' := by
  have hfound := expand_perm_of_succeeded h houtput
  have hload : ∀ p ∈ packages, d'.loadPackage (config.paths.output.join ⟨p.fileName⟩) = .ok p :=
    fun p hp => (loadPackage_ok_iff hv h hp).mpr houtput
  obtain ⟨hcorpus, hmanifest'⟩ := reference_of_avoids s hv h hrules hmanifest
  have hclean : ∀ p ∈ packages, findings p (some load.corpus) (some manifest) = [] := by
    intro p hp
    obtain ⟨hverify, hselection⟩ := h.compiles.verify_eq_nil
      (Disk.loadManifest_accepted h.accepted) (Disk.loadCorpus_sound h.loaded) hp
    exact List.append_eq_nil_iff.mpr ⟨hverify, hselection⟩
  refine ⟨hfound, hload, ⟨load.corpus, manifest, hcorpus, hmanifest', hclean⟩,
    runVerify_ok hcorpus hmanifest' (fun hnil => h.packages_ne_nil ?_) fun path hpath => ?_⟩
  · rw [hnil] at hfound
    exact List.map_eq_nil_iff.mp hfound.nil_eq.symm
  · obtain ⟨p, hp, rfl⟩ := List.mem_map.mp (hfound.mem_iff.mp hpath)
    exact ⟨p, hload p hp, hclean p hp⟩

theorem avoids_of_verified (hv : Verifiable config d)
    (h : Succeeded cores config stamp d o d' load manifest packages)
    (hverified : Verified s config.paths packages d') :
    config.paths.output.Avoids d.here (stagingPlace config.paths.output d.here) ∧
      config.paths.rules.Avoids d.here (stagingPlace config.paths.output d.here) ∧
      config.paths.manifest.Avoids d.here (stagingPlace config.paths.output d.here) := by
  obtain ⟨p, hp⟩ := List.exists_mem_of_ne_nil _ h.packages_ne_nil
  obtain ⟨corpus, manifest', hcorpus, hmanifest, _⟩ := hverified.accepted
  refine ⟨(loadPackage_ok_iff hv h hp).mp (hverified.loaded p hp), ?_, ?_⟩
  · obtain ⟨load', hload, _⟩ := referenceCorpus_ok_iff.mp hcorpus
    exact h.keeps.avoids_of_loadCorpus hload
  · exact h.keeps.avoids_of_loadManifest hmanifest

end

/-- What a build has published can be verified, with the cards and the manifest of the build, exactly if
neither the output path nor those of the cards and the manifest lead through the staging directory. -/
theorem verified_iff (cores : Nat) (config : Config) (stamp : Stamp) (d : Disk) (s : Surroundings)
    (hv : Verifiable config d) (hok : (Build.compile cores config stamp d).1.failed = false) :
    let o := (Build.compile cores config stamp d).1
    let d' := (Build.compile cores config stamp d).2
    let zone := stagingPlace config.paths.output d.here
    o.published = o.packages.map (Publication.published config.paths.output) ∧
    (Verified s config.paths o.packages d' ↔
      config.paths.output.Avoids d.here zone ∧ config.paths.rules.Avoids d.here zone ∧
        config.paths.manifest.Avoids d.here zone) := by
  intro o d' zone
  have hcompile : Build.compile cores config stamp d = (o, d') := rfl
  rcases Build.compile_cases hv.wellFormed hcompile with
    ⟨hfailed, _⟩ | ⟨_, load, manifest, packages, hdone⟩
  · rw [show o.failed = false from hok] at hfailed
    cases hfailed
  · have hpackages : o.packages = packages := by
      rw [Outcome.packages, hdone.compiled]
      rfl
    rw [hpackages]
    refine ⟨hdone.published, avoids_of_verified s hv hdone, ?_⟩
    rintro ⟨houtput, hrules, hmanifest⟩
    exact verified_of_avoids s hv hdone houtput hrules hmanifest

section

open Build (project into roundabout)

theorem verifiable_project {output : Path} (h : output ∈ [⟨"out"⟩, roundabout]) :
    Verifiable (into output) project := by
  have hlength : ∀ output ∈ [⟨"out"⟩, roundabout], (output.placeFrom project.here).length = 1 := by
    decide
  obtain ⟨hcards, hcorpus, hagents⟩ :
      (∀ output ∈ [⟨"out"⟩, roundabout],
        ((Discovery.cardPaths project ⟨"rules"⟩).toOption.map fun paths => paths.all fun p =>
          decide (Outside (stagingPlace output project.here) (p.placeFrom project.here))) =
        some true) ∧
      ((Discovery.cardPaths project ⟨"rules"⟩).toOption.map fun paths =>
        (CorpusLoad.ofResults false (paths.map project.loadCard)).corpus.toList.all fun loaded =>
          Json.membersIntegral loaded.card.defaults) = some true ∧
      ((project.loadManifest ⟨"agents.yaml"⟩).toOption.map fun manifest =>
        manifest.agents.all fun agent => Json.membersIntegral agent.policy.defaults) =
      some true := by
    decide +kernel
  refine ⟨by decide, rfl, ?_, fun paths hpaths p hp => ?_,
    fun cores options load hload loaded hloaded => ?_, fun manifest hmanifest agent hagent => ?_⟩
  · rintro ⟨name, _, heq⟩
    have hplaces : (Path.placeFrom project.here ⟨"agents.yaml"⟩).length =
        (output.placeFrom project.here).length + 1 :=
      (congrArg List.length heq).trans List.length_append
    rw [hlength output h] at hplaces
    exact absurd hplaces (by decide)
  · have hall := hcards output h
    rw [show Discovery.cardPaths project ⟨"rules"⟩ = .ok paths from hpaths] at hall
    exact of_decide_eq_true (List.all_eq_true.mp (Option.some.inj hall) p hp)
  · obtain ⟨paths, hpaths, rfl⟩ := Disk.loadCorpus_ok_iff.mp hload
    rw [show Discovery.cardPaths project ⟨"rules"⟩ = .ok paths from hpaths] at hcorpus
    rw [CorpusLoad.corpus_ofResults, ← CorpusLoad.corpus_ofResults false] at hloaded
    exact List.all_eq_true.mp (Option.some.inj hcorpus) loaded hloaded
  · rw [show project.loadManifest ⟨"agents.yaml"⟩ = .ok manifest from hmanifest] at hagents
    exact List.all_eq_true.mp (Option.some.inj hagents) agent hagent

/-- The package of the project is accepted in one place and out of reach in another. -/
theorem verified_iff_project :
    (Verifiable (into ⟨"out"⟩) project ∧
      (Build.compile 1 (into ⟨"out"⟩) (.ofSeconds 0) project).1.failed = false ∧
      Verified ⟨1, 0, none⟩ (into ⟨"out"⟩).paths
        (Build.compile 1 (into ⟨"out"⟩) (.ofSeconds 0) project).1.packages
        (Build.compile 1 (into ⟨"out"⟩) (.ofSeconds 0) project).2) ∧
    (Verifiable (into roundabout) project ∧
      (Build.compile 1 (into roundabout) (.ofSeconds 0) project).1.failed = false ∧
      ¬ Verified ⟨1, 0, none⟩ (into roundabout).paths
        (Build.compile 1 (into roundabout) (.ofSeconds 0) project).1.packages
        (Build.compile 1 (into roundabout) (.ofSeconds 0) project).2) := by
  have hout : Verifiable (into ⟨"out"⟩) project := verifiable_project (by simp)
  have hroundabout : Verifiable (into roundabout) project := verifiable_project (by simp)
  have hsucceeded := Build.failed_project ⟨"out"⟩ (by simp)
  have hsucceeded' := Build.failed_project roundabout (by simp)
  refine ⟨⟨hout, hsucceeded, ?_⟩, hroundabout, hsucceeded', fun hverified => ?_⟩
  · have havoids : ∀ p : Path, p ∈ [⟨"out"⟩, ⟨"rules"⟩, ⟨"agents.yaml"⟩] →
        p.Avoids project.here (stagingPlace ⟨"out"⟩ project.here) := by decide +kernel
    exact (verified_iff 1 _ _ project ⟨1, 0, none⟩ hout hsucceeded).2.mpr ⟨havoids ⟨"out"⟩ (by simp),
      havoids ⟨"rules"⟩ (by simp), havoids ⟨"agents.yaml"⟩ (by simp)⟩
  · exact Build.through_roundabout
      ((verified_iff 1 _ _ project ⟨1, 0, none⟩ hroundabout hsucceeded').2.mp hverified).1

end

end Rulebook.Command
