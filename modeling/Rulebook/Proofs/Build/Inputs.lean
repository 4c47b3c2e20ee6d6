import Rulebook.Proofs.Build.Outcome
import Rulebook.Proofs.Build.Packages
import Rulebook.Proofs.Corpus.Reload

/-!
# The inputs after a build

A build publishes without regard to where its inputs lie. What lies in or behind the staging place is
lost, and so is a manifest in the place of a package; every other input is kept as it was.
-/

namespace Rulebook

set_option autoImplicit false

open Publication (IsPackagePlace Keeps stagingPlace)

namespace Discovery

variable {d : Disk} {root p output : Path} {paths : List Path}

theorem not_isPackagePlace_of_mem (hd : d.WellFormed) (hpaths : cardPaths d root = .ok paths)
    (hp : p ∈ paths) : ¬ IsPackagePlace output d.here (p.placeFrom d.here) := by
  obtain ⟨R, entries, base, hlocate, hentry, hbase, rfl⟩ :=
    (cardPaths_ok_iff (List.ne_nil_of_mem hp)).mp hpaths
  rw [inOrder, List.mem_mergeSort, List.mem_map] at hp
  obtain ⟨l, hl, rfl⟩ := hp
  have hleads : d.Leads root R := ⟨hlocate, by rw [Disk.kind?_eq, hentry]; rfl⟩
  obtain ⟨-, hnonempty, -⟩ := base?_mono rfl hleads.way hbase
  obtain ⟨hnames, hlast⟩ := cardFile_spec hd hentry hl
  have hcomponents : ∀ name ∈ l, IsComponent name := fun name hname =>
    (hnames name hname).toIsComponent
  rw [(pathAt_spec hcomponents hnonempty).2.1]
  exact not_isPackagePlace hnames hlast ((mem_cardFiles_iff hd hentry).mp hl).1.1

end Discovery

namespace Publication

variable {output p : Path} {d d' : Disk} {packages : List Package} {content : ByteArray}

/-- The file is not behind the staging place, and neither set aside with the old packages nor replaced
by other bytes. -/
structure Spares (output : Path) (packages : List Package) (d : Disk) (p : Path)
    (content : ByteArray) : Prop where
  avoids : p.Avoids d.here (stagingPlace output d.here)
  package : ∀ name, (⟨name⟩ : Path).extension? = some "json" →
    p.placeFrom d.here = output.placeFrom d.here ++ [name] →
    (∃ package ∈ packages, name = package.fileName ∧ content = package.bytes) ∨ ¬ output.Fits name

theorem spares_iff_avoids (h : ¬ IsPackagePlace output d.here (p.placeFrom d.here)) :
    Spares output packages d p content ↔ p.Avoids d.here (stagingPlace output d.here) := by
  constructor
  · exact Spares.avoids
  · intro havoids
    refine ⟨havoids, fun name hextension hplace => ?_⟩
    exact absurd ⟨name, hextension, hplace⟩ h

theorem Completed.read_iff_spares {dStaged d₁ d₂ dEnd : Disk} {O : Location} {names : List String}
    (h : Completed output packages d dStaged d₁ d₂ dEnd O names)
    (hids : ∀ package ∈ packages, Manifest.validAgentId package.id = true)
    (hdistinct : (packages.map (·.id)).Nodup) (hread : d.read p = .ok content) :
    (discard output dEnd).read p = .ok content ↔ Spares output packages d p content := by
  have hkeeps := h.keeps hids hdistinct
  have hreplaces := h.replaces hids hdistinct
  have hbefore := Disk.file_of_read hread
  constructor
  · intro hafter
    refine ⟨hkeeps.avoids_of_read hafter, fun name hextension hplace => ?_⟩
    have hfile := Disk.file_of_read hafter
    rw [hkeeps.here, hplace] at hfile
    exact ((hreplaces.package name content hextension).mp hfile).imp_right And.left
  · rintro ⟨havoids, hspared⟩
    by_cases hpackage : IsPackagePlace output d.here (p.placeFrom d.here)
    · obtain ⟨name, hextension, hplace⟩ := hpackage
      apply Disk.read_mono hread hkeeps.here
      · intro m hm hdirectory
        exact hkeeps.directory m (havoids m hm) hdirectory
      · rw [hplace] at hbefore ⊢
        apply (hreplaces.package name content hextension).mpr
        exact (hspared name hextension hplace).imp_right fun hlong => ⟨hlong, hbefore⟩
    · exact hkeeps.read havoids hpackage hread

namespace Keeps

theorem loadManifest {manifest : Manifest} (h : Keeps output d d')
    (hp : p.Avoids d.here (stagingPlace output d.here))
    (hplace : ¬ IsPackagePlace output d.here (p.placeFrom d.here))
    (hload : d.loadManifest p = .ok manifest) : d'.loadManifest p = .ok manifest := by
  rw [Disk.loadManifest] at hload ⊢
  split at hload
  · rename_i text hread
    rw [h.readText hp hplace hread]
    exact hload
  · cases hload

theorem avoids_of_loadManifest {manifest : Manifest} (h : Keeps output d d')
    (hload : d'.loadManifest p = .ok manifest) :
    p.Avoids d.here (stagingPlace output d.here) := by
  rw [Disk.loadManifest, Disk.readText] at hload
  split at hload
  · rename_i text htext
    obtain ⟨content, hread, -⟩ := Except.bind_ok htext
    exact h.avoids_of_read hread
  · cases hload

end Keeps

end Publication

namespace Build

open Publication (Spares spares_iff_avoids)

variable {cores : Nat} {config : Config} {stamp : Stamp} {d d' : Disk} {o : Outcome} {p : Path}

/-- A build finds the card file. -/
def Finds (config : Config) (d : Disk) (p : Path) : Prop :=
  ∃ paths, Discovery.cardPaths d config.paths.rules = .ok paths ∧ p ∈ paths

/-- What a build does to the files it reads. A failed one does the same to all files. -/
structure InputsAfter (config : Config) (d : Disk) (o : Outcome) (d' : Disk) : Prop where
  idle : o.compiled = none → d' = d
  failed : o.failed = true → ∀ p content, d.read p = .ok content →
    p.Avoids d.here (stagingPlace config.paths.output d.here) → d'.read p = .ok content
  card : o.failed = false → ∀ p content, Finds config d p → d.read p = .ok content →
    (d'.read p = .ok content ↔ p.Avoids d.here (stagingPlace config.paths.output d.here))
  manifest : o.failed = false → ∀ content, d.read config.paths.manifest = .ok content →
    (d'.read config.paths.manifest = .ok content ↔
      Spares config.paths.output o.packages d config.paths.manifest content)

theorem eq_of_compiled_none (h : compile cores config stamp d = (o, d'))
    (hnone : o.compiled = none) : d' = d := by
  rw [compile, publish] at h
  cases hcompiled : (examine cores true config stamp d).compiled with
  | none =>
    rw [hcompiled] at h
    exact (Prod.mk.inj h).2.symm
  | some packages =>
    rw [hcompiled] at h
    dsimp only at h
    split at h
    · obtain ⟨rfl, -⟩ := Prod.mk.inj h
      cases hnone
    · obtain ⟨rfl, -⟩ := Prod.mk.inj h
      rw [Outcome.add, hcompiled] at hnone
      cases hnone

namespace Succeeded

variable {load : CorpusLoad} {manifest : Manifest} {packages : List Package}

theorem validIds (h : Succeeded cores config stamp d o d' load manifest packages) :
    ∀ package ∈ packages, Manifest.validAgentId package.id = true :=
  h.compiles.validIds (Disk.loadManifest_accepted h.accepted)

theorem nodup_ids (h : Succeeded cores config stamp d o d' load manifest packages) :
    (packages.map (·.id)).Nodup :=
  h.compiles.nodup_ids (Disk.loadManifest_accepted h.accepted)

theorem packages_eq (h : Succeeded cores config stamp d o d' load manifest packages) :
    o.packages = packages := by
  rw [Outcome.packages, h.compiled]
  rfl

theorem packages_ne_nil (h : Succeeded cores config stamp d o d' load manifest packages) :
    packages ≠ [] := by
  intro hnil
  have hids := h.compiles.ids_eq
  rw [hnil] at hids
  exact (Disk.loadManifest_accepted h.accepted).agents_ne_nil (List.map_eq_nil_iff.mp hids.symm)

theorem corpus_ne_nil (h : Succeeded cores config stamp d o d' load manifest packages) :
    load.corpus.toList ≠ [] := by
  obtain ⟨package, hpackage⟩ := List.exists_mem_of_ne_nil _ h.packages_ne_nil
  obtain ⟨agent, _, hne, _⟩ := h.compiles.eq_ofCards (Disk.loadManifest_accepted h.accepted)
    (Disk.loadCorpus_sound h.loaded) hpackage
  obtain ⟨loaded, hselected⟩ := List.exists_mem_of_ne_nil _ hne
  exact List.ne_nil_of_mem (Resolution.mem_selection hselected).1

theorem keeps (h : Succeeded cores config stamp d o d' load manifest packages) :
    Keeps config.paths.output d d' := by
  obtain ⟨_, _, _, _, _, _, hcompleted, hd'⟩ := h.completed
  rw [hd']
  exact hcompleted.keeps h.validIds h.nodup_ids

theorem read_iff_spares (h : Succeeded cores config stamp d o d' load manifest packages)
    {content : ByteArray} (hread : d.read p = .ok content) :
    d'.read p = .ok content ↔ Spares config.paths.output o.packages d p content := by
  obtain ⟨dStaged, d₁, d₂, dEnd, O, names, hcompleted, rfl⟩ := h.completed
  rw [h.packages_eq]
  exact hcompleted.read_iff_spares h.validIds h.nodup_ids hread

end Succeeded

/-- A build that compiles nothing changes nothing, and one that fails later keeps every input that is
not behind the staging place. One that succeeds keeps exactly the cards that are not behind the staging
place, and the manifest exactly if the publication spares it. -/
theorem compile_inputs (cores : Nat) (config : Config) (stamp : Stamp) (d : Disk)
    (hd : d.WellFormed) :
    InputsAfter config d (compile cores config stamp d).1 (compile cores config stamp d).2 := by
  generalize hcompile : compile cores config stamp d = result
  obtain ⟨o, d'⟩ := result
  have hcases := compile_cases hd hcompile
  refine ⟨eq_of_compiled_none hcompile, ?_, ?_, ?_⟩
  · intro hfailed p content hread havoids
    rcases hcases with ⟨-, -, hgains⟩ | ⟨hsucceeded, -⟩
    · exact hgains.read havoids hread
    · rw [hfailed] at hsucceeded
      cases hsucceeded
  · rintro hsucceeded p content ⟨paths, hpaths, hp⟩ hread
    rcases hcases with ⟨hfailed, -⟩ | ⟨-, load, manifest, packages, hdone⟩
    · rw [hsucceeded] at hfailed
      cases hfailed
    · rw [hdone.read_iff_spares hread]
      exact spares_iff_avoids (Discovery.not_isPackagePlace_of_mem hd hpaths hp)
  · intro hsucceeded content hread
    rcases hcases with ⟨hfailed, -⟩ | ⟨-, load, manifest, packages, hdone⟩
    · rw [hsucceeded] at hfailed
      cases hfailed
    · exact hdone.read_iff_spares hread

/-- A project whose rules lie in the staging place, and whose manifest among the packages. -/
def misplaced : Disk :=
  ⟨.directory [
    (".out.staging", .directory [("core.yaml", .file (
      "id: A-B-001\ntitle: A rule\nseverity: low\nscope: c\nrequirement: Keep to it.\n" ++
      "do: [d]\ndont: [e]\nverify:\n  tests: [v]\n").toUTF8)]),
    ("out", .directory [("agents.json", .file (
      "a:\n  name: A\n  rule_selector:\n    scopes: [c]\n  policy:\n" ++
      "    targets: [\"*\"]\n").toUTF8)])], []⟩

def misplacing : Config :=
  ⟨⟨⟨".out.staging"⟩, ⟨"out/agents.json"⟩, ⟨"out"⟩⟩, ⟨"", false, 1⟩⟩

def misplacedCard : Path := ⟨".out.staging/core.yaml"⟩

theorem compile_inputs_misplaced :
    misplaced.WellFormed ∧ (compile 1 misplacing (.ofSeconds 0) misplaced).1.failed = false ∧
    Finds misplacing misplaced misplacedCard ∧
    (∃ content, misplaced.read misplacedCard = .ok content ∧
      (compile 1 misplacing (.ofSeconds 0) misplaced).2.read misplacedCard ≠ .ok content) ∧
    ∃ content, misplaced.read ⟨"out/agents.json"⟩ = .ok content ∧
      (compile 1 misplacing (.ofSeconds 0) misplaced).2.read ⟨"out/agents.json"⟩ ≠ .ok content := by
  have hd : misplaced.WellFormed := by decide
  have hrun : (compile 1 misplacing (.ofSeconds 0) misplaced).1.failed = false ∧
      (compile 1 misplacing (.ofSeconds 0) misplaced).1.packages.map (·.fileName) = ["a.json"] := by
    decide +kernel
  obtain ⟨hsucceeded, hnames⟩ := hrun
  have hinputs := compile_inputs 1 misplacing (.ofSeconds 0) misplaced hd
  have hfinds : Finds misplacing misplaced misplacedCard :=
    ⟨[misplacedCard], by decide +kernel, List.mem_singleton_self _⟩
  refine ⟨hd, hsucceeded, hfinds, ⟨_, rfl, ?_⟩, ⟨_, rfl, ?_⟩⟩
  · rw [ne_eq, hinputs.card hsucceeded _ _ hfinds rfl]
    decide +kernel
  · rw [ne_eq]
    intro hkept
    obtain ⟨-, hpackage⟩ := (hinputs.manifest hsucceeded _ rfl).mp hkept
    rcases hpackage "agents.json" (by decide) (by decide) with ⟨package, hmem, hname, -⟩ | hlong
    · have hmem := List.mem_map_of_mem (f := (·.fileName)) hmem
      rw [hnames, ← hname] at hmem
      simp at hmem
    · exact hlong (by decide)

end Build

end Rulebook
