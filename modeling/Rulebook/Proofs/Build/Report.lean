import Rulebook.Build
import Rulebook.Proofs.Corpus.Basic
import Rulebook.Proofs.Manifest

/-!
# No error goes unreported

Every error that a stage of a build ends with becomes at least one diagnostic that is an error. Two
kinds of error are lists of complaints, and those are never empty.
-/

namespace Rulebook

set_option autoImplicit false

namespace Report

theorem hasErrors_iff (report : Report) :
    report.hasErrors = true ↔ ∃ d ∈ report.diagnostics, d.level = .error := by
  rw [hasErrors, Bool.not_eq_true', ← Bool.not_eq_true, List.isEmpty_iff, errors, atLevel,
    List.filter_eq_nil_iff]
  simp

theorem hasErrors_add (report : Report) (more : List Diagnostic) :
    (report.add more).hasErrors = true ↔
      report.hasErrors = true ∨ ∃ d ∈ more, d.level = .error := by
  simp only [hasErrors_iff, add, List.mem_append, or_and_right, exists_or]

end Report

/-- The errors among the diagnostics. -/
def HasError (ds : List Diagnostic) : Prop := ∃ d ∈ ds, d.level = .error

theorem hasError_append (xs ys : List Diagnostic) :
    HasError (xs ++ ys) ↔ HasError xs ∨ HasError ys := by
  simp only [HasError, List.mem_append, or_and_right, exists_or]

theorem hasError_flatMap {α : Type} (f : α → List Diagnostic) (xs : List α) :
    HasError (xs.flatMap f) ↔ ∃ x ∈ xs, HasError (f x) := by
  simp only [HasError, List.mem_flatMap]
  constructor
  · rintro ⟨d, ⟨x, hx, hd⟩, hlevel⟩
    exact ⟨x, hx, d, hd, hlevel⟩
  · rintro ⟨x, hx, d, hd, hlevel⟩
    exact ⟨d, ⟨x, hx, hd⟩, hlevel⟩

namespace Outcome

theorem failed_add (o : Outcome) (more : List Diagnostic) :
    (o.add more).failed = true ↔ o.failed = true ∨ HasError more :=
  Report.hasErrors_add o.report more

theorem not_failed_empty : Outcome.empty.failed = false := rfl

end Outcome

/-! ## Cards -/

namespace CardError

/-- The error says at least one thing that is wrong. -/
def Speaks : CardError → Prop
  | .schema _ violations => violations ≠ []
  | _ => True

theorem hasError_diagnostics {e : CardError} (h : e.Speaks) : HasError (e.diagnostics .error) := by
  cases e with
  | schema path violations =>
    obtain ⟨v, rest, rfl⟩ := List.exists_cons_of_ne_nil h
    exact ⟨_, List.mem_cons_self, rfl⟩
  | io | duplicateId | invalidPattern | serialization => exact ⟨_, List.mem_cons_self, rfl⟩

theorem level_diagnostics (level : Level) (e : CardError) :
    ∀ d ∈ e.diagnostics level, d.level = level := by
  cases e <;> simp [diagnostics]

end CardError

theorem Card.ofYaml_error {text : String} {violations : List Violation}
    (h : Card.ofYaml text = .error violations) : violations ≠ [] := by
  rw [Card.ofYaml] at h
  split at h
  · exact Card.validate_error h
  · cases h
    exact List.cons_ne_nil _ _

theorem Disk.loadCard_error {d : Disk} {path : Path} {e : CardError}
    (h : d.loadCard path = .error e) : e.Speaks := by
  rw [Disk.loadCard] at h
  split at h
  · cases h
    trivial
  · split at h
    · cases h
    · rename_i hcard
      cases h
      exact Card.ofYaml_error hcard

theorem Corpus.build_errors (cards : List LoadedCard) : ∀ e ∈ (Corpus.build cards).2, e.Speaks := by
  rw [Corpus.build]
  have hadd : ∀ built : Corpus × List CardError, (∀ e ∈ built.2, e.Speaks) →
      ∀ e ∈ (cards.foldl Corpus.add built).2, e.Speaks := by
    induction cards with
    | nil => exact fun built hbuilt => hbuilt
    | cons card rest ih =>
      intro built hbuilt
      refine ih _ ?_
      rw [Corpus.add]
      split
      · exact hbuilt
      · intro e he
        rcases List.mem_append.mp he with he | he
        · exact hbuilt e he
        · rw [List.mem_singleton.mp he]
          trivial
  exact hadd _ (by simp)

theorem CorpusLoad.ofResults_errors {lenient : Bool} {results : List (Except CardError LoadedCard)}
    (h : ∀ e, .error e ∈ results → e.Speaks) :
    ∀ e ∈ (CorpusLoad.ofResults lenient results).errors, e.Speaks := by
  intro e he
  rw [CorpusLoad.ofResults_eq] at he
  rcases List.mem_append.mp he with he | he
  · obtain ⟨hfailure, _⟩ := List.mem_filter.mp he
    exact h e (CorpusLoad.mem_failuresOf.mp hfailure)
  · exact Corpus.build_errors _ e he

theorem Disk.loadCorpus_errors {cores : Nat} {options : LoadOptions} {d : Disk} {root : Path}
    {load : CorpusLoad} (h : d.loadCorpus cores options root = .ok load) :
    ∀ e ∈ load.errors, e.Speaks := by
  obtain ⟨paths, _, rfl⟩ := Disk.loadCorpus_ok_iff.mp h
  refine CorpusLoad.ofResults_errors fun e he => ?_
  obtain ⟨path, _, hload⟩ := List.mem_map.mp he
  exact Disk.loadCard_error hload

theorem Discovery.cardPaths_error {d : Disk} {root : Path} {e : CardError}
    (h : Discovery.cardPaths d root = .error e) : e.Speaks := by
  rw [Discovery.cardPaths] at h
  split at h
  · split at h <;> cases h
  · cases h
    trivial

theorem Disk.loadCorpus_error {cores : Nat} {options : LoadOptions} {d : Disk} {root : Path}
    {e : CardError} (h : d.loadCorpus cores options root = .error e) : e.Speaks := by
  rw [Disk.loadCorpus_eq] at h
  cases hpaths : Discovery.cardPaths d root with
  | error e' =>
    rw [hpaths] at h
    cases h
    exact Discovery.cardPaths_error hpaths
  | ok paths => rw [hpaths] at h; cases h

/-! ## Manifests -/

namespace ManifestError

def Speaks : ManifestError → Prop
  | .invalid _ issues => issues ≠ []
  | _ => True

theorem hasError_diagnostics {e : ManifestError} (h : e.Speaks) (path : Path) :
    HasError (e.diagnostics path) := by
  cases e with
  | invalid path issues =>
    obtain ⟨issue, rest, rfl⟩ := List.exists_cons_of_ne_nil h
    exact ⟨_, List.mem_cons_self, rfl⟩
  | io | parse | emptyAgent => exact ⟨_, List.mem_cons_self, rfl⟩

end ManifestError

theorem Manifest.ofNode_error {path : Path} {root : Yaml.Node} {e : ManifestError}
    (h : Manifest.ofNode path root = .error e) : e.Speaks := by
  cases htable : Manifest.agentTable root with
  | none =>
    rw [Manifest.ofNode, htable] at h
    cases h
    exact List.cons_ne_nil _ _
  | some entries =>
    rw [Manifest.ofNode_of_table path htable] at h
    split at h
    · cases h
    · rename_i hissues
      cases h
      exact hissues

theorem Disk.loadManifest_error {d : Disk} {path : Path} {e : ManifestError}
    (h : d.loadManifest path = .error e) : e.Speaks := by
  rw [Disk.loadManifest] at h
  split at h
  · rw [Manifest.parse] at h
    split at h
    · exact Manifest.ofNode_error h
    · cases h
      trivial
  · cases h
    trivial

theorem Resolution.errors_speak (manifest : Manifest) (corpus : Corpus) :
    ∀ e ∈ (Resolution.resolve manifest corpus).errors, e.Speaks := by
  intro e he
  obtain ⟨agent, _, hsome⟩ := List.mem_filterMap.mp he
  split at hsome
  · cases hsome
    trivial
  · cases hsome

end Rulebook
