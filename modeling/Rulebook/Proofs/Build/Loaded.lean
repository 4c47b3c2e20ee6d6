import Rulebook.Proofs.Build.Report
import Rulebook.Proofs.Corpus.Claims
import Rulebook.Proofs.Corpus.Reload

/-!
# What is reported of the card files

Loading the cards sorts what has failed by mode and kind of error, and adds the ids that are taken. On each
topic the report still goes through the files in their order, and says of each one what is wrong with
it alone.
-/

namespace Rulebook

set_option autoImplicit false

theorem flatMap_filter_of_nil {α β : Type} {f : α → List β} {xs : List α} {p : α → Bool}
    (h : ∀ x, p x = false → f x = []) :
    (xs.filter p).flatMap f = xs.flatMap f := by
  induction xs with
  | nil => rfl
  | cons x rest ih =>
    cases hp : p x with
    | true => rw [List.filter_cons_of_pos hp, List.flatMap_cons, List.flatMap_cons, ih]
    | false => rw [List.filter_cons_of_neg (by rw [hp]; decide), List.flatMap_cons, h x hp, ih,
        List.nil_append]

namespace Report

/-- What is said on a topic about a file. -/
def on (report : Report) (topic : Topic) (path : Path) : List Diagnostic :=
  (report.about topic).filter (·.path == some path)

theorem about_add (report : Report) (more : List Diagnostic) (topic : Topic) :
    (report.add more).about topic = report.about topic ++ more.filter (·.topic == topic) :=
  List.filter_append _ _

end Report

/-! ## Card files -/

namespace Disk

variable {d : Disk} {p : Path}

/-- What is wrong with a file as a card. -/
def violations (d : Disk) (path : Path) : List Violation :=
  match d.readText path with
  | .error _ => []
  | .ok text =>
    match Card.ofYaml text with
    | .ok _ => []
    | .error violations => violations

/-- What is reported of a file that cannot be read. -/
def unread (d : Disk) (path : Path) : List Diagnostic :=
  match d.readText path with
  | .error e => [⟨.error, .io, some path, none, e.message⟩]
  | .ok _ => []

/-- The cards among some files. -/
def cardsAt (d : Disk) (paths : List Path) : List LoadedCard :=
  paths.filterMap fun p => (d.loadCard p).toOption

theorem loadCard_path {loaded : LoadedCard} (h : d.loadCard p = .ok loaded) : loaded.path = p := by
  rw [loadCard] at h
  split at h
  · cases h
  · split at h
    · cases h
      rfl
    · cases h

/-- What is reported of a file that comes after others: whether its id is taken. -/
def taken (d : Disk) (before : List Path) (path : Path) : List Diagnostic :=
  match d.loadCard path with
  | .error _ => []
  | .ok loaded =>
    match Corpus.claimant? (d.cardsAt before) loaded.id with
    | none => []
    | some first =>
      [⟨.error, .duplicateId, some path, some "id",
        "rule id '" ++ loaded.id ++ "' is declared in both " ++ first.path.text ++ " and " ++
          path.text⟩]

end Disk

/-- The diagnostic of one violation in a file. -/
def Violation.diagnostic (level : Level) (path : Path) (v : Violation) : Diagnostic :=
  ⟨level, .schema, some path, some v.field, v.kind.message⟩

namespace CardError

/-- What an error says on a topic. -/
def on (topic : Topic) (level : Level) (e : CardError) : List Diagnostic :=
  (e.diagnostics level).filter (·.topic == topic)

variable {e : CardError} {topic : Topic} {level : Level}

theorem on_schema_of_not (h : CorpusLoad.isSchemaError e = false) : e.on .schema level = [] := by
  cases e with
  | schema => cases h
  | io | duplicateId | invalidPattern | serialization => rfl

theorem on_schema (path : Path) (violations : List Violation) :
    (schema path violations).on .schema level = violations.map (·.diagnostic level path) := by
  simp [on, diagnostics, Violation.diagnostic]

theorem on_of_lostBy {loaded : LoadedCard} (h : Corpus.LostBy e loaded) :
    e.on topic .error = if topic = .duplicateId then e.diagnostics .error else [] := by
  obtain ⟨first, rfl⟩ := h
  split
  · rename_i htopic
    rw [htopic]
    rfl
  · rename_i htopic
    simp [on, diagnostics, Ne.symm htopic]

end CardError

namespace CorpusLoad

variable {d : Disk} {paths : List Path} {lenient : Bool} {topic : Topic}

/-- What is said of the files that are no cards. -/
def ofFailures (d : Disk) (paths : List Path) (say : CardError → List Diagnostic) :
    List Diagnostic :=
  (failuresOf (paths.map d.loadCard)).flatMap say

theorem ofFailures_eq (say : CardError → List Diagnostic) :
    ofFailures d paths say = paths.flatMap fun p =>
      match d.readText p with
      | .error e => say (.io p e.message)
      | .ok text =>
        match Card.ofYaml text with
        | .ok _ => []
        | .error violations => say (.schema p violations) := by
  rw [ofFailures, failuresOf, List.filterMap_map, List.filterMap_eq_flatMap_toList, List.flatMap_assoc]
  refine List.flatMap_congr fun p _ => ?_
  rw [Function.comp_apply, Disk.loadCard]
  cases d.readText p with
  | error e => exact List.append_nil _
  | ok text =>
    dsimp only
    cases Card.ofYaml text with
    | ok card => rfl
    | error violations => exact List.append_nil _

theorem cardsOf_eq : cardsOf (paths.map d.loadCard) = d.cardsAt paths := by
  rw [cardsOf, List.filterMap_map]
  rfl

theorem errors_on (topic : Topic) :
    (ofResults lenient (paths.map d.loadCard)).errors.flatMap (·.on topic .error) =
      ((failuresOf (paths.map d.loadCard)).filter
        fun e => !(lenient && isSchemaError e)).flatMap (·.on topic .error) ++
      if topic = .duplicateId then
        (Corpus.build (d.cardsAt paths)).2.flatMap (·.diagnostics .error)
      else [] := by
  have hlost : (Corpus.build (d.cardsAt paths)).2.flatMap (·.on topic .error) =
      (Corpus.build (d.cardsAt paths)).2.flatMap fun e =>
        if topic = .duplicateId then e.diagnostics .error else [] := by
    refine List.flatMap_congr fun e he => ?_
    obtain ⟨loaded, -, hlost⟩ := Corpus.lostBy_of_mem_errors he
    exact CardError.on_of_lostBy hlost
  rw [ofResults_eq, cardsOf_eq, List.flatMap_append, hlost]
  split
  · rfl
  · rw [List.flatMap_eq_nil_iff.mpr fun _ _ => rfl]

end CorpusLoad

namespace Build

open CorpusLoad

variable {d : Disk} {paths : List Path} {lenient : Bool}

theorem about_ofLoad (load : CorpusLoad) {topic : Topic} (htopic : topic ≠ .disabledCard) :
    (ofLoad load).report.about topic =
      load.errors.flatMap (·.on topic .error) ++ load.skipped.flatMap (·.on topic .warning) := by
  have hnotes : (load.corpus.disabled.map (·.disabledNote)).filter (·.topic == topic) = [] := by
    rw [List.filter_eq_nil_iff]
    intro x hx
    obtain ⟨loaded, -, rfl⟩ := List.mem_map.mp hx
    simp [LoadedCard.disabledNote, htopic.symm]
  have hreport : (ofLoad load).report = Report.empty.add (load.errors.flatMap (·.diagnostics .error) ++
    load.skipped.flatMap (·.diagnostics .warning) ++ load.corpus.disabled.map (·.disabledNote)) := rfl
  rw [hreport, Report.about_add, List.filter_append, List.filter_append, hnotes, List.append_nil,
    List.filter_flatMap, List.filter_flatMap]
  rfl

/-- Broken cards are reported on one level, whatever else is reported. -/
theorem about_schema_ofLoad :
    (ofLoad (.ofResults lenient (paths.map d.loadCard))).report.about .schema =
      paths.flatMap fun p =>
        (d.violations p).map (·.diagnostic (if lenient then .warning else .error) p) := by
  have hfailures : (ofLoad (.ofResults lenient (paths.map d.loadCard))).report.about .schema =
      ofFailures d paths (·.on .schema (if lenient then .warning else .error)) := by
    rw [about_ofLoad _ (by decide), errors_on, if_neg (by decide), List.append_nil, ofResults_eq,
      ofFailures]
    cases lenient with
    | false => simp
    | true =>
      simp only [Bool.true_and, if_true]
      rw [flatMap_filter_of_nil (p := isSchemaError) fun e he => CardError.on_schema_of_not he,
        List.flatMap_eq_nil_iff.mpr, List.nil_append]
      intro e he
      have hnot := (List.mem_filter.mp he).2
      rw [Bool.not_eq_true'] at hnot
      exact CardError.on_schema_of_not hnot
  rw [hfailures, ofFailures_eq]
  refine List.flatMap_congr fun p _ => ?_
  rw [Disk.violations]
  cases d.readText p with
  | error e => rfl
  | ok text =>
    dsimp only
    cases Card.ofYaml text with
    | ok card => rfl
    | error violations => exact CardError.on_schema p violations

end Build

end Rulebook
