import Rulebook.Proofs.Build.Stages
import Rulebook.Proofs.Publication.Reading

/-!
# All or nothing

A build either reports no error and has published a package for every agent, or it reports an error
and has published nothing.
-/

namespace Rulebook.Build

set_option autoImplicit false

open Publication (Outside stagingPlace Completed publish_spec)

variable {cores : Nat} {config : Config} {stamp : Stamp} {d d' : Disk} {o : Outcome}

/-- What a build without errors has done. -/
structure Succeeded (cores : Nat) (config : Config) (stamp : Stamp) (d : Disk) (o : Outcome)
    (d' : Disk) (load : CorpusLoad) (manifest : Manifest) (packages : List Package) : Prop where
  loaded : d.loadCorpus cores ⟨config.build.lenient, config.build.workers⟩ config.paths.rules =
    .ok load
  clean : load.errors = []
  accepted : d.loadManifest config.paths.manifest = .ok manifest
  complete : (Resolution.resolve manifest load.corpus).isComplete = true
  compiles : Compiles config stamp load.corpus manifest packages
  compiled : o.compiled = some packages
  published : o.published = packages.map (Publication.published config.paths.output)
  completed : ∃ dStaged d₁ d₂ dEnd O names,
    Completed config.paths.output packages d dStaged d₁ d₂ dEnd O names ∧
      d' = Publication.discard config.paths.output dEnd

/-- A build without errors has come to its end, and any other one has stopped with an error. -/
theorem compile_cases (hd : d.WellFormed) (h : compile cores config stamp d = (o, d')) :
    (o.failed = true ∧ o.published = [] ∧
      d.GainsDirectories (Outside (stagingPlace config.paths.output d.here)) d') ∨
    (o.failed = false ∧ ∃ load manifest packages,
      Succeeded cores config stamp d o d' load manifest packages) := by
  have hpublished := examine_published cores config stamp d
  rw [compile] at h
  cases examine_examined cores config stamp d with
  | failed hfailed hcompiled =>
    rw [publish_of_none hcompiled] at h
    obtain ⟨ho, hd'⟩ := Prod.mk.inj h
    rw [← ho, ← hd']
    exact .inl ⟨hfailed, hpublished, .refl _ d⟩
  | done load manifest packages hload hclean hmanifest hcomplete hcompiles hfailed hcompiled =>
    rw [publish_of_some hcompiled] at h
    have haccepted := Disk.loadManifest_accepted hmanifest
    cases hrun : Publication.publish config.paths.output packages d with
    | mk result dAfter =>
      rw [hrun] at h
      rcases publish_spec hd (hcompiles.validIds haccepted) hrun with
        ⟨e, rfl, hgains⟩ | ⟨rfl, hcompleted⟩
      · obtain ⟨ho, hd'⟩ := Prod.mk.inj h
        rw [← ho, ← hd']
        refine .inl ⟨(Outcome.failed_add _ _).mpr (.inr ⟨_, List.mem_cons_self, rfl⟩), hpublished,
          hgains⟩
      · obtain ⟨ho, hd'⟩ := Prod.mk.inj h
        rw [← hd', ← ho]
        exact .inr ⟨hfailed, load, manifest, packages,
          ⟨hload, hclean, hmanifest, hcomplete, hcompiles, hcompiled, rfl, hcompleted⟩⟩

/-- A project of one rule and one agent. -/
def project : Disk :=
  ⟨.directory [
    ("agents.yaml", .file (
      "a:\n  name: A\n  rule_selector:\n    scopes: [c]\n  policy:\n    targets: [\"*\"]\n").toUTF8),
    ("rules", .directory [("core.yaml", .file (
      "id: A-B-001\ntitle: A rule\nseverity: low\nscope: c\nrequirement: Keep to it.\n" ++
      "do: [d]\ndont: [e]\nverify:\n  tests: [v]\n").toUTF8)])], []⟩

def into (output : Path) : Config := ⟨⟨⟨"rules"⟩, ⟨"agents.yaml"⟩, output⟩, ⟨"", false, 1⟩⟩

/-- A path through the staging directory, which is gone in the end. -/
def roundabout : Path := ⟨".x.staging/../x"⟩

theorem failed_project : ∀ output ∈ [⟨"out"⟩, roundabout],
    (compile 1 (into output) (.ofSeconds 0) project).1.failed = false := by
  decide +kernel

theorem through_roundabout :
    ¬ roundabout.Avoids project.here (stagingPlace roundabout project.here) := by
  decide +kernel

end Rulebook.Build
