import Rulebook.Proofs.Build.Outcome
import Rulebook.Proofs.Build.Workers
import Rulebook.Proofs.Corpus.Claims

/-!
# Lenient loads

A lenient load skips the cards that break the schema. It is the strict load in everything else: the same
cards are found and kept, and files that cannot be read and ids that are taken are still errors. So where
a strict load finds nothing wrong, a lenient build is the strict one.
-/

namespace Rulebook

set_option autoImplicit false

/-- A file that cannot be read, or an id that is taken. -/
inductive CardError.IsFatal : CardError → Prop
  | unread (path : Path) (reason : String) : IsFatal (.io path reason)
  | taken (id : String) (first second : Path) : IsFatal (.duplicateId id first second)

theorem CardError.IsFatal.not_schema {e : CardError} (h : e.IsFatal) :
    CorpusLoad.isSchemaError e = false := by
  cases h <;> rfl

theorem Disk.fatal_of_loadCard {d : Disk} {path : Path} {e : CardError}
    (h : d.loadCard path = .error e) (hnot : CorpusLoad.isSchemaError e = false) : e.IsFatal := by
  rw [loadCard] at h
  split at h
  · cases h
    exact .unread path _
  · split at h
    · cases h
    · cases h
      cases hnot

namespace CorpusLoad

variable {strict lenient : CorpusLoad} {results : List (Except CardError LoadedCard)}

/-- The lenient load skips what breaks the schema, and is the strict load in everything else. -/
structure Demotes (strict lenient : CorpusLoad) : Prop where
  corpus : lenient.corpus = strict.corpus
  discovered : lenient.discovered = strict.discovered
  complete : strict.skipped = []
  skipped : lenient.skipped = strict.errors.filter isSchemaError
  errors : lenient.errors = strict.errors.filter (!isSchemaError ·)
  fatal : ∀ e, e ∈ lenient.errors ↔ e ∈ strict.errors ∧ e.IsFatal

/-- Both loads fail for one reason, or the lenient one demotes what the strict one has found. -/
inductive Agree : Except CardError CorpusLoad → Except CardError CorpusLoad → Prop
  | failed (e : CardError) : Agree (.error e) (.error e)
  | loaded {strict lenient : CorpusLoad} (h : Demotes strict lenient) : Agree (.ok strict) (.ok lenient)

theorem fatal_of_mem_build {cards : List LoadedCard} {e : CardError}
    (h : e ∈ (Corpus.build cards).2) : e.IsFatal := by
  obtain ⟨loaded, -, first, rfl⟩ := Corpus.lostBy_of_mem_errors h
  exact .taken _ _ _

theorem demotes_ofResults
    (h : ∀ e, .error e ∈ results → isSchemaError e = false → e.IsFatal) :
    Demotes (ofResults false results) (ofResults true results) := by
  let taken := (Corpus.build (cardsOf results)).2
  have hstrict : (ofResults false results).errors = failuresOf results ++ taken := by
    simp [ofResults_eq, taken]
  -- the ids that are taken are told from the same cards, and none of these errors is demoted
  have htaken : ∀ e ∈ taken, isSchemaError e = false :=
    fun e he => (fatal_of_mem_build he).not_schema
  have hnone : taken.filter isSchemaError = [] :=
    List.filter_eq_nil_iff.mpr fun e he => by rw [htaken e he]; exact Bool.false_ne_true
  have hall : taken.filter (!isSchemaError ·) = taken :=
    List.filter_eq_self.mpr fun e he => by rw [htaken e he, Bool.not_false]
  have herrors : (ofResults true results).errors =
      (ofResults false results).errors.filter (!isSchemaError ·) := by
    rw [hstrict, List.filter_append, hall]
    simp [ofResults_eq, taken]
  constructor
  · rw [corpus_ofResults, corpus_ofResults]
  · rfl
  · simp [ofResults_eq]
  · rw [hstrict, List.filter_append, hnone, List.append_nil]
    simp [ofResults_eq]
  · exact herrors
  · intro e
    rw [herrors, List.mem_filter, Bool.not_eq_true']
    refine and_congr_right fun he => ⟨fun hnot => ?_, fun hfatal => hfatal.not_schema⟩
    rw [hstrict] at he
    rcases List.mem_append.mp he with he | he
    · exact h e (mem_failuresOf.mp he) hnot
    · exact fatal_of_mem_build he

/-- With nothing to demote, the loads are the same. -/
theorem Demotes.eq (h : Demotes strict lenient) (hclean : strict.isClean) : lenient = strict := by
  have herrors : strict.errors = [] := List.isEmpty_iff.mp hclean
  have hskipped := h.skipped
  have hkept := h.errors
  rw [herrors] at hskipped hkept
  cases strict
  cases lenient
  rw [CorpusLoad.mk.injEq]
  exact ⟨h.corpus, hkept.trans herrors.symm, hskipped.trans h.complete.symm, h.discovered⟩

end CorpusLoad

theorem Disk.agree_loadCorpus (cores cores' workers workers' : Nat) (d : Disk) (root : Path) :
    CorpusLoad.Agree (d.loadCorpus cores ⟨false, workers⟩ root)
      (d.loadCorpus cores' ⟨true, workers'⟩ root) := by
  rw [loadCorpus_eq, loadCorpus_eq]
  cases Discovery.cardPaths d root with
  | error e => exact .failed e
  | ok paths =>
    refine .loaded (CorpusLoad.demotes_ofResults fun e he hnot => ?_)
    obtain ⟨path, -, hload⟩ := List.mem_map.mp he
    exact fatal_of_loadCard hload hnot

theorem Disk.loadCorpus_lenient {cores workers : Nat} {d : Disk} {root : Path} {strict : CorpusLoad}
    (hload : d.loadCorpus cores ⟨false, workers⟩ root = .ok strict) (hclean : strict.isClean)
    (cores' workers' : Nat) : d.loadCorpus cores' ⟨true, workers'⟩ root = .ok strict := by
  have hagree := agree_loadCorpus cores cores' workers workers' d root
  rw [hload] at hagree
  generalize d.loadCorpus cores' ⟨true, workers'⟩ root = result at hagree ⊢
  cases hagree with
  | loaded hdemotes => rw [hdemotes.eq hclean]

namespace Build

/-- A configuration that asks for a strict or a lenient load. -/
def withMode (config : Config) (lenient : Bool) : Config :=
  { config with build := { config.build with lenient } }

variable {cores : Nat} {config : Config} {d : Disk}

/-- The mode is only read by the load. -/
theorem examine_withMode (config : Config) (required : Bool) (stamp : Stamp)
    (h : d.loadCorpus cores ⟨false, config.build.workers⟩ config.paths.rules =
      d.loadCorpus cores ⟨true, config.build.workers⟩ config.paths.rules) :
    examine cores required (withMode config false) stamp d =
      examine cores required (withMode config true) stamp d := by
  rw [examine, examine]
  simp only [withMode]
  rw [h]
  rfl

theorem examine_lenient {workers : Nat} {strict : CorpusLoad}
    (hload : d.loadCorpus cores ⟨false, workers⟩ config.paths.rules = .ok strict)
    (hclean : strict.isClean) (cores' workers' : Nat) (required : Bool) (stamp : Stamp) :
    examine cores required (withWorkers (withMode config false) workers) stamp d =
      examine cores' required (withWorkers (withMode config true) workers') stamp d := by
  have hsame : d.loadCorpus cores' ⟨false, workers'⟩ config.paths.rules =
      d.loadCorpus cores' ⟨true, workers'⟩ config.paths.rules := by
    rw [Disk.loadCorpus_lenient hload hclean, ← hload, Disk.loadCorpus_eq, Disk.loadCorpus_eq]
  rw [examine_withWorkers cores cores' required (withMode config false) workers workers']
  exact examine_withMode (withWorkers config workers') required stamp hsame

/-- Whatever the workers, a lenient load demotes the cards that break the schema and nothing else. If
the strict load is clean, both modes make the same packages of the project. -/
theorem lenient_demotes (cores cores' workers workers' : Nat) (d : Disk) :
    (∀ root, CorpusLoad.Agree (d.loadCorpus cores ⟨false, workers⟩ root)
      (d.loadCorpus cores' ⟨true, workers'⟩ root)) ∧
    ∀ (config : Config) (stamp : Stamp) (strict : CorpusLoad),
      d.loadCorpus cores ⟨false, workers⟩ config.paths.rules = .ok strict → strict.isClean →
      validate cores (withWorkers (withMode config false) workers) stamp d =
          validate cores' (withWorkers (withMode config true) workers') stamp d ∧
        compile cores (withWorkers (withMode config false) workers) stamp d =
          compile cores' (withWorkers (withMode config true) workers') stamp d := by
  refine ⟨Disk.agree_loadCorpus cores cores' workers workers' d, ?_⟩
  intro config stamp strict hload hclean
  have hexamine := examine_lenient hload hclean cores' workers'
  constructor
  · exact hexamine false stamp
  · rw [compile, hexamine true stamp, compile]
    rfl

theorem clean_of_succeeded {stamp : Stamp} (hd : d.WellFormed)
    (hok : (compile cores config stamp d).1.failed = false) :
    ∃ load, d.loadCorpus cores ⟨config.build.lenient, config.build.workers⟩ config.paths.rules =
      .ok load ∧ load.isClean := by
  cases hrun : compile cores config stamp d with
  | mk o d' =>
    rw [hrun] at hok
    rcases compile_cases hd hrun with ⟨hfailed, _⟩ | ⟨_, load, manifest, packages, hdone⟩
    · rw [hok] at hfailed
      cases hfailed
    · exact ⟨load, hdone.loaded, List.isEmpty_iff.mpr hdone.clean⟩

/-- The project of one rule has a clean strict load. -/
theorem lenient_demotes_project :
    ∃ strict, project.loadCorpus 1 ⟨false, 1⟩ ⟨"rules"⟩ = .ok strict ∧ strict.isClean ∧
      compile 1 (into ⟨"out"⟩) (.ofSeconds 0) project =
        compile 4 (withWorkers (withMode (into ⟨"out"⟩) true) 3) (.ofSeconds 0) project := by
  have hd : project.WellFormed := by decide
  obtain ⟨strict, hload, hclean⟩ := clean_of_succeeded hd (failed_project ⟨"out"⟩ (by simp))
  have hboth := (lenient_demotes 1 4 1 3 project).2 (into ⟨"out"⟩) (.ofSeconds 0) strict hload hclean
  exact ⟨strict, hload, hclean, hboth.2⟩

end Build

end Rulebook
