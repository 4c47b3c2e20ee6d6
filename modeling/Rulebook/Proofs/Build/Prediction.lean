import Rulebook.Command.Run
import Rulebook.Proofs.Build.Outcome
import Rulebook.Proofs.Build.Workers

/-!
# Validation predicts the build

Validating a project with a manifest is building it up to the point where the packages would be written.
What the build may add is one error of the writer, which is about a path that the writer makes or fills.
-/

namespace Rulebook

set_option autoImplicit false

/-! ## Errors of the writer -/

namespace Publication

/-- The paths that the writer makes, fills or empties. -/
inductive Handles (output : Path) : Path → Prop
  | parent : Handles output (parentOf output)
  | staging : Handles output (stagingOf output)
  | fresh : Handles output (freshOf output)
  | previous : Handles output (previousOf output)
  | staged (name : String) : Handles output ((freshOf output).join ⟨name⟩)
  | output : Handles output output
  | package (name : String) : Handles output (output.join ⟨name⟩)

/-- The system has refused something at one of the paths. -/
inductive IsRefusal (output : Path) : CompileError → Prop
  | io {path : Path} (hpath : Handles output path) (reason : DiskError) :
      IsRefusal output (.io path reason.message)

variable {output : Path} {packages : List Package} {e : CompileError} {d d' : Disk}

theorem makeDirectories_error {p : Path} (hp : Handles output p)
    (h : makeDirectories p d = (.error e, d')) : IsRefusal output e := by
  rw [makeDirectories] at h
  split at h
  · cases h
  · cases h
    exact .io hp _

theorem prepare_error (h : prepare output d = (.error e, d')) : IsRefusal output e := by
  unfold prepare at h
  split at h
  · rename_i hparent
    cases h
    exact makeDirectories_error .parent hparent
  · dsimp only at h
    split at h
    · cases h
      exact .io .staging _
    · split at h
      · rename_i hfresh
        cases h
        exact makeDirectories_error .fresh hfresh
      · exact makeDirectories_error .previous h

theorem stage_error (h : stage output packages d = (.error e, d')) : IsRefusal output e := by
  induction packages generalizing d with
  | nil => cases h
  | cons p packages ih =>
    rw [stage_cons] at h
    split at h
    · exact ih h
    · cases h
      exact .io (.staged p.fileName) _

theorem mem_of_moveAll_failed {moves : List (Path × Path)} {move : Path × Path} {reason : DiskError}
    (h : (moveAll moves d).failed = some (move, reason)) : move ∈ moves := by
  induction moves generalizing d with
  | nil => cases h
  | cons first moves ih =>
    obtain ⟨source, destination⟩ := first
    rw [moveAll] at h
    split at h
    · obtain ⟨rfl, -⟩ := Prod.mk.inj (Option.some.inj h)
      exact List.mem_cons_self
    · exact List.mem_cons_of_mem _ (ih h)

theorem handles_of_mem_inDirectory {directory : Path} {paths : List Path} {move : Path × Path}
    (hpaths : ∀ p ∈ paths, Handles output p) (h : move ∈ inDirectory directory paths) :
    Handles output move.1 := by
  obtain ⟨p, hp, hmove⟩ := List.mem_filterMap.mp h
  obtain ⟨name, -, rfl⟩ := Option.map_eq_some_iff.mp hmove
  exact hpaths p hp

theorem handles_of_mem_existing {paths : List Path} (h : existing output d = .ok paths) :
    ∀ p ∈ paths, Handles output p := by
  rw [existing] at h
  cases hnames : d.names output with
  | error reason =>
    rw [hnames] at h
    cases h
  | ok names =>
    rw [hnames] at h
    intro p hp
    rw [← Except.ok.inj h] at hp
    obtain ⟨name, -, rfl⟩ := List.mem_map.mp (List.mem_of_mem_filter hp)
    exact .package name

theorem install_error {aside : Moves} (h : install output packages aside = (.error e, d')) :
    IsRefusal output e := by
  rw [install] at h
  split at h
  · rename_i hfailed
    obtain ⟨move, hmove, hswap⟩ := List.mem_map.mp (mem_of_moveAll_failed hfailed)
    have hpackages : ∀ p ∈ packages.map fun p => output.join ⟨p.fileName⟩, Handles output p := by
      intro p hp
      obtain ⟨package, -, rfl⟩ := List.mem_map.mp hp
      exact .package package.fileName
    have hplace := handles_of_mem_inDirectory hpackages hmove
    cases h
    rw [show move.1 = _ from congrArg Prod.snd hswap] at hplace
    exact .io hplace _
  · cases h

theorem commit_error (h : commit output packages d = (.error e, d')) : IsRefusal output e := by
  rw [commit] at h
  split at h
  · rename_i houtput
    cases h
    exact makeDirectories_error .output houtput
  · split at h
    · cases h
      exact .io .output _
    · rename_i hexisting
      dsimp only at h
      split at h
      · rename_i hfailed
        cases h
        exact .io (handles_of_mem_inDirectory (handles_of_mem_existing hexisting)
          (mem_of_moveAll_failed hfailed)) _
      · exact install_error h

theorem run_error (h : run output packages d = (.error e, d')) : IsRefusal output e := by
  unfold run at h
  dsimp only at h
  split at h
  · rename_i hstage
    cases h
    exact stage_error hstage
  · exact commit_error (Prod.ext (Prod.mk.inj h).1 rfl)

theorem isRefusal_of_publish (h : publish output packages d = (.error e, d')) : IsRefusal output e := by
  unfold publish at h
  split at h
  · rename_i hprepare
    cases h
    exact prepare_error hprepare
  · split at h
    · rename_i hrun
      cases h
      exact run_error hrun
    · cases h

end Publication

/-! ## Predictions -/

namespace Build

variable {cores cores' : Nat} {config : Config} {stamp : Stamp} {d : Disk}

structure SameFindings (o v : Outcome) : Prop where
  discovered : o.discovered = v.discovered
  validCards : o.validCards = v.validCards
  assignments : o.assignments = v.assignments
  orphans : o.orphans = v.orphans
  compiled : o.compiled = v.compiled

/-- How a build that comes to an outcome and a disk goes on from what validation has found. -/
inductive Continues (output : Path) (v : Outcome) (d : Disk) : Outcome → Disk → Prop
  | stopped (hfailed : v.failed = true) (hpublished : v.published = []) : Continues output v d v d
  | wrote {packages : List Package} {published : List Published} {d' : Disk}
      (hfailed : v.failed = false) (hcompiled : v.compiled = some packages)
      (hpublish : Publication.publish output packages d = (.ok published, d')) :
      Continues output v d { v with published } d'
  | refused {packages : List Package} {path : Path} {reason : String} {d' : Disk}
      (hfailed : v.failed = false) (hcompiled : v.compiled = some packages)
      (hpublish : Publication.publish output packages d = (.error (.io path reason), d'))
      (hpath : Publication.Handles output path) (hpublished : v.published = []) :
      Continues output v d (v.add [(CompileError.io path reason).diagnostic]) d'

theorem examine_cores (required : Bool) :
    examine cores required config stamp d = examine cores' required config stamp d :=
  examine_withWorkers cores cores' required config config.build.workers config.build.workers stamp d

theorem examine_of_contains (h : d.contains config.paths.manifest = true) :
    examine cores false config stamp d = examine cores true config stamp d := by
  simp only [examine, h, Bool.not_true, Bool.and_false]

theorem compile_eq (h : d.contains config.paths.manifest = true) :
    compile cores' config stamp d = publish config (validate cores config stamp d) d := by
  rw [compile, validate, examine_of_contains h, examine_cores]

theorem publish_continues (h : d.contains config.paths.manifest = true) {o : Outcome} {d' : Disk}
    (hpublish : publish config (validate cores config stamp d) d = (o, d')) :
    Continues config.paths.output (validate cores config stamp d) d o d' := by
  have hvalidate : validate cores config stamp d = examine cores true config stamp d :=
    examine_of_contains h
  have hpublished := examine_published cores config stamp d
  have hexamined := examine_examined cores config stamp d
  rw [hvalidate] at hpublish ⊢
  cases hexamined with
  | failed hfailed hcompiled =>
    rw [publish_of_none hcompiled] at hpublish
    obtain ⟨rfl, rfl⟩ := Prod.mk.inj hpublish
    exact .stopped hfailed hpublished
  | done _ _ packages _ _ _ _ _ hfailed hcompiled =>
    rw [publish_of_some hcompiled] at hpublish
    split at hpublish
    · rename_i hwrite
      obtain ⟨rfl, rfl⟩ := Prod.mk.inj hpublish
      exact .wrote hfailed hcompiled hwrite
    · rename_i hwrite
      obtain ⟨rfl, rfl⟩ := Prod.mk.inj hpublish
      cases Publication.isRefusal_of_publish hwrite with
      | io hpath reason => exact .refused hfailed hcompiled hwrite hpath hpublished

theorem compile_continues (cores cores' : Nat) (config : Config) (stamp : Stamp) (d : Disk)
    (h : d.contains config.paths.manifest = true) :
    Continues config.paths.output (validate cores config stamp d) d
      (compile cores' config stamp d).1 (compile cores' config stamp d).2 := by
  rw [compile_eq h]
  exact publish_continues h rfl

theorem Continues.sameFindings {output : Path} {v o : Outcome} {d' : Disk}
    (h : Continues output v d o d') : SameFindings o v := by
  cases h <;> exact ⟨rfl, rfl, rfl, rfl, rfl⟩

theorem Continues.failed {output : Path} {v o : Outcome} {d' : Disk} (h : Continues output v d o d')
    (hv : v.failed = true) : o.failed = true := by
  cases h with
  | stopped => exact hv
  | wrote => exact hv
  | refused => exact (Outcome.failed_add _ _).mpr (.inl hv)

/-- Where the writer cannot even begin, its error is the one that is added. -/
theorem Continues.report_of_prepare {output : Path} {v o : Outcome} {d' : Disk} {e : CompileError}
    (h : Continues output v d o d') (hv : v.failed = false)
    (hprepare : (Publication.prepare output d).1 = .error e) :
    o.report = v.report.add [e.diagnostic] := by
  have hpublish (packages : List Package) : (Publication.publish output packages d).1 = .error e := by
    unfold Publication.publish
    cases hrun : Publication.prepare output d with
    | mk result d₁ =>
      rw [hrun] at hprepare
      dsimp only at hprepare
      rw [hprepare]
  cases h with
  | stopped hfailed =>
    rw [hv] at hfailed
    cases hfailed
  | wrote _ _ hwrote => cases (congrArg Prod.fst hwrote).symm.trans (hpublish _)
  | refused _ _ hrefused =>
    cases (congrArg Prod.fst hrefused).symm.trans (hpublish _)
    rfl

theorem run_validate {s : Surroundings} {i : Invocation} {build : BuildArguments}
    (h : i.command = .validate build) : (Invocation.run s i d).2 = d := by
  unfold Invocation.run
  cases d.projectConfig (Invocation.rootOf d i.root) with
  | error e => rfl
  | ok config =>
    dsimp only
    rw [h]

/-- Where the packages are to go makes no difference to what is found. -/
theorem validate_output (cores : Nat) (config : Config) (output : Path) (stamp : Stamp) (d : Disk) :
    validate cores { config with paths := { config.paths with output } } stamp d =
      validate cores config stamp d := rfl

/-- Without a manifest to build from, the build stops, whatever validation says of the cards. -/
theorem compile_of_absent (h : d.contains config.paths.manifest = false) :
    (compile cores config stamp d).1.failed = true ∧ (compile cores config stamp d).2 = d := by
  have hunread : ∀ manifest, d.loadManifest config.paths.manifest ≠ .ok manifest := by
    intro manifest hload
    cases hfetch : d.fetch config.paths.manifest with
    | ok e =>
      rw [Disk.contains, hfetch] at h
      cases h
    | error reason =>
      have htext : d.readText config.paths.manifest = .error reason := by
        rw [Disk.readText, Disk.read, hfetch]
        rfl
      rw [Disk.loadManifest, htext] at hload
      cases hload
  rw [compile]
  cases examine_examined cores config stamp d with
  | failed hfailed hcompiled =>
    rw [publish_of_none hcompiled]
    exact ⟨hfailed, rfl⟩
  | done _ manifest _ _ _ hmanifest => exact absurd hmanifest (hunread manifest)

/-- Validation changes nothing, and finds what the build finds. The build stops where validation has found an
error, and otherwise writes the packages that validation has compiled; then it reports what validation
reports, and one error more if the writer is refused something. -/
theorem validate_predicts (cores cores' : Nat) (config : Config) (stamp : Stamp) (d : Disk) :
    (∀ s i build, i.command = .validate build → (Invocation.run s i d).2 = d) ∧
    (d.contains config.paths.manifest = true →
      let v := validate cores config stamp d
      let o := (compile cores' config stamp d).1
      let d' := (compile cores' config stamp d).2
      SameFindings o v ∧ Continues config.paths.output v d o d') := by
  refine ⟨fun _ _ _ => run_validate, fun hmanifest => ?_⟩
  have hcontinues := compile_continues cores cores' config stamp d hmanifest
  exact ⟨hcontinues.sameFindings, hcontinues⟩

def below : Config := into ⟨"agents.yaml/x"⟩

theorem contains_below : project.contains below.paths.manifest = true := by
  decide +kernel

theorem failed_below : (validate 1 below (.ofSeconds 0) project).failed = false := by
  have hbuilt := failed_project ⟨"out"⟩ List.mem_cons_self
  have hcontinues := compile_continues 1 1 (into ⟨"out"⟩) (.ofSeconds 0) project contains_below
  apply Bool.eq_false_iff.mpr
  intro hv
  rw [← validate_output 1 below ⟨"out"⟩] at hv
  exact absurd (hcontinues.failed hv) (Bool.eq_false_iff.mp hbuilt)

/-- Validation finds nothing wrong, and the build ends with the error of the writer. -/
theorem validate_predicts_below :
    let v := validate 1 below (.ofSeconds 0) project
    let o := (compile 1 below (.ofSeconds 0) project).1
    project.contains below.paths.manifest = true ∧ v.failed = false ∧ SameFindings o v ∧
    o.report = v.report.add [(CompileError.io ⟨"agents.yaml"⟩ "File exists (os error 17)").diagnostic] := by
  intro v o
  have hprepare : (Publication.prepare below.paths.output project).1 =
      .error (.io ⟨"agents.yaml"⟩ "File exists (os error 17)") := by decide +kernel
  obtain ⟨hsame, hcontinues⟩ :=
    (validate_predicts 1 1 below (.ofSeconds 0) project).2 contains_below
  exact ⟨contains_below, failed_below, hsame,
    hcontinues.report_of_prepare failed_below hprepare⟩

end Build

end Rulebook
