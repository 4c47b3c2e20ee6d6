import Rulebook.Proofs.Build.Everything
import Rulebook.Proofs.Build.Wording

/-!
# Rendered reports, line by line

A rendered report holds the texts of its diagnostics, in their order, and then the summary on a line of its
own. A diagnostic is on one line exactly if none of the texts that it repeats has a line break; texts of
cards and of the manifest are repeated as they stand, so one of them can add lines to the report.
-/

namespace Rulebook

set_option autoImplicit false

open Text (IsLine lines)

namespace Report

variable {report : Report} {least : Level}

/-- The diagnostics from a level on. -/
def shown (report : Report) (least : Level) : List Diagnostic :=
  report.diagnostics.filter fun x => least.rank ≤ x.level.rank

theorem isLine_summary (report : Report) : IsLine report.summary := by
  have hverdict : IsLine (if report.hasErrors then "FAILED" else "OK") := by
    split <;> decide
  exact .append (.append (.append (.append (.append hverdict (by decide)) (isLine_toString_nat _))
    (by decide)) (isLine_toString_nat _)) (by decide)

/-- The lines of each diagnostic from the level on, and then the summary as the last line. -/
theorem lines_render (report : Report) (least : Level) :
    lines (report.render least) =
      (report.shown least).flatMap (fun x => lines x.text) ++ [report.summary, ""] := by
  have hrender : report.render least =
      String.join (((report.shown least).map (·.text) ++ [report.summary]).map (· ++ "\n")) := rfl
  rw [hrender, Text.lines_join, List.flatMap_append, List.flatMap_singleton, List.flatMap_map,
    Text.lines_of_isLine report.isLine_summary, List.append_assoc]
  rfl

theorem lines_render_eq_iff :
    lines (report.render least) = (report.shown least).map (·.text) ++ [report.summary, ""] ↔
      ∀ x ∈ report.shown least, IsLine x.text := by
  rw [lines_render, List.append_left_inj, ← List.flatMap_map, Text.flatMap_lines_eq_self_iff,
    List.forall_mem_map]

end Report

namespace Diagnostic

variable {x : Diagnostic} {s : String}

theorem infix_message (h : s.toList <:+: x.message.toList) : s.toList <:+: x.text.toList :=
  Text.infix_right h _

theorem infix_field {field : String} (hfield : x.field = some field) (h : s.toList <:+: field.toList) :
    s.toList <:+: x.text.toList := by
  rw [text, hfield]
  exact Text.infix_left (Text.infix_left (Text.infix_right (Text.infix_left (Text.infix_right h _) _) _) _) _

end Diagnostic

/-! ## What a build reports for certain -/

theorem Disk.contains_of_readText {d : Disk} {p : Path} {text : String} (h : d.readText p = .ok text) :
    d.contains p = true := by
  obtain ⟨content, hread, -⟩ := Except.bind_ok h
  obtain ⟨e, hfetch, -⟩ := Except.bind_ok hread
  rw [contains, hfetch]
  rfl

theorem Disk.violations_of_parse {d : Disk} {p : Path} {text : String} {document : Yaml.Node}
    (htext : d.readText p = .ok text) (hparse : Yaml.Node.parse text = .ok document) :
    d.violations p = Card.violations document := by
  rw [violations, htext]
  dsimp only
  rw [Card.ofYaml, hparse]
  rfl

namespace Build

variable {cores : Nat} {required : Bool} {config : Config} {stamp : Stamp} {d : Disk} {p : Path}
  {x : Diagnostic} {s : String}

/-- The texts that stand in a diagnostic about a file whatever they are: ids, severities and keys of a card
file that the schema refuses, and the ids in a manifest that are none for an agent. -/
inductive Shows (config : Config) (d : Disk) : Path → String → Prop
  | card {paths : List Path} {p : Path} {text s : String} {document : Yaml.Node}
      (hpaths : Discovery.cardPaths d config.paths.rules = .ok paths) (hp : p ∈ paths)
      (htext : d.readText p = .ok text) (hparse : Yaml.Node.parse text = .ok document)
      (hs : Card.Rejects document s) : Shows config d p s
  | manifest {paths : List Path} {text s : String} {root : Yaml.Node}
      (hpaths : Discovery.cardPaths d config.paths.rules = .ok paths)
      (htext : d.readText config.paths.manifest = .ok text) (hparse : Yaml.Node.parse text = .ok root)
      (hs : Manifest.Rejects root s) : Shows config d config.paths.manifest s

theorem Extends.mem {o o' : Outcome} (h : Extends o o') (hx : x ∈ o.report.diagnostics) :
    x ∈ o'.report.diagnostics := by
  obtain ⟨more, hreport, -⟩ := h
  rw [hreport]
  exact List.mem_append_left _ hx

theorem extends_examine {load : CorpusLoad}
    (hload : d.loadCorpus cores ⟨config.build.lenient, config.build.workers⟩ config.paths.rules = .ok load) :
    Extends (ofLoad load) (examine cores required config stamp d) := by
  rw [examine, hload]
  dsimp only
  split
  · exact .refl _
  · split
    · exact extends_add _ (offCards_manifest _)
    · split
      · exact extends_resolveAndCompile _ _ _
      · exact .refl _

theorem mem_examine_of_loadManifest {load : CorpusLoad} {e : ManifestError}
    (hload : d.loadCorpus cores ⟨config.build.lenient, config.build.workers⟩ config.paths.rules = .ok load)
    (hthere : d.contains config.paths.manifest = true)
    (hmanifest : d.loadManifest config.paths.manifest = .error e)
    (hx : x ∈ e.diagnostics config.paths.manifest) :
    x ∈ (examine cores required config stamp d).report.diagnostics := by
  rw [examine, hload]
  dsimp only
  rw [hthere, Bool.not_true, Bool.and_false, if_neg Bool.false_ne_true, hmanifest]
  exact List.mem_append_right _ hx

theorem loadCorpus_of_cardPaths (cores : Nat) {paths : List Path}
    (h : Discovery.cardPaths d config.paths.rules = .ok paths) :
    d.loadCorpus cores ⟨config.build.lenient, config.build.workers⟩ config.paths.rules =
      .ok (.ofResults config.build.lenient (paths.map d.loadCard)) :=
  Disk.loadCorpus_ok_iff.mpr ⟨paths, h, rfl⟩

theorem shown_examine (h : Shows config d p s) :
    ∃ x ∈ (examine cores required config stamp d).report.diagnostics,
      x.path = some p ∧ s.toList <:+: x.text.toList := by
  cases h with
  | @card paths p text s document hpaths hp htext hparse hs =>
    have hload := loadCorpus_of_cardPaths cores hpaths
    obtain ⟨v, hv, hin⟩ := Card.exists_violation_of_rejects hs
    rw [← Disk.violations_of_parse htext hparse] at hv
    -- a lenient build shows the violation as a warning
    let level : Level := if config.build.lenient then .warning else .error
    have hmem : v.diagnostic level p ∈
        (ofLoad (.ofResults config.build.lenient (paths.map d.loadCard))).report.about .schema := by
      rw [about_schema_ofLoad]
      exact List.mem_flatMap.mpr ⟨p, hp, List.mem_map_of_mem hv⟩
    refine ⟨v.diagnostic level p, (extends_examine hload).mem (List.mem_of_mem_filter hmem), rfl, ?_⟩
    rcases hin with hin | hin
    · exact Diagnostic.infix_field rfl hin
    · exact Diagnostic.infix_message hin
  | @manifest paths text s root hpaths htext hparse hs =>
    have hload := loadCorpus_of_cardPaths cores hpaths
    obtain ⟨issues, hinvalid, issue, hissue, hin⟩ := Manifest.exists_issue_of_rejects config.paths.manifest hs
    have hmanifest : d.loadManifest config.paths.manifest = .error (.invalid config.paths.manifest issues) := by
      rw [Disk.loadManifest, htext]
      dsimp only
      rw [Manifest.parse, hparse]
      exact hinvalid
    refine ⟨⟨.error, .manifest, some config.paths.manifest, some issue.place, issue.message⟩, ?_, rfl,
      Diagnostic.infix_field rfl hin⟩
    exact mem_examine_of_loadManifest hload (Disk.contains_of_readText htext) hmanifest
      (List.mem_map.mpr ⟨issue, hissue, rfl⟩)

/-! ## Rendered reports -/

/-- What is on the lines of a rendered report of a project. -/
structure Rendered (config : Config) (d : Disk) (least : Level) (report : Report) : Prop where
  /-- The lines of the diagnostics in their order, and then the summary as the last line. -/
  inOrder : lines (report.render least) =
    (report.shown least).flatMap (fun x => lines x.text) ++ [report.summary, ""]
  /-- Only texts that a diagnostic repeats can make more than one line of it. -/
  diagnostic : ∀ x ∈ report.diagnostics, lines x.text = [x.text] ↔
    ∀ s, Echoes config d x s → s.toList <:+: x.text.toList → IsLine s
  /-- There is one line for each diagnostic and one for the summary, unless such a text is shown. -/
  byLine : lines (report.render least) = (report.shown least).map (·.text) ++ [report.summary, ""] ↔
    ∀ x ∈ report.shown least, ∀ s, Echoes config d x s → s.toList <:+: x.text.toList → IsLine s
  /-- What is refused in a file is shown as it is, and with a line break in it the diagnostic is not on one
  line. -/
  refused : ∀ p s, Shows config d p s → ∃ x ∈ report.diagnostics, x.path = some p ∧
    s.toList <:+: x.text.toList ∧ (¬ IsLine s → lines x.text ≠ [x.text])

theorem rendered_of_accounted {report : Report} (h : Accounted config d report.diagnostics)
    (hshown : ∀ p s, Shows config d p s → ∃ x ∈ report.diagnostics, x.path = some p ∧
      s.toList <:+: x.text.toList) (least : Level) : Rendered config d least report := by
  have hline : ∀ x ∈ report.diagnostics, IsLine x.text ↔
      ∀ s, Echoes config d x s → s.toList <:+: x.text.toList → IsLine s := by
    intro x hx
    exact (Diagnostic.isComposed_text (h x hx) fun p hp => .path hp).isLine_iff
  constructor
  · exact report.lines_render least
  · intro x hx
    rw [Text.lines_eq_singleton_iff, hline x hx]
  · rw [Report.lines_render_eq_iff]
    exact forall₂_congr fun x hx => hline x (List.mem_of_mem_filter hx)
  · intro p s hs
    obtain ⟨x, hx, hpath, hin⟩ := hshown p s hs
    refine ⟨x, hx, hpath, hin, fun hbreak hlines => ?_⟩
    exact hbreak ((Text.lines_eq_singleton_iff.mp hlines).of_isInfix hin)

/-- The report of a build or of a validation is written in the order of its diagnostics, with the summary as
its last line. A diagnostic is on one line exactly if the texts that it repeats are; ids, severities and keys
that are refused are among them, so a line break in one of them breaks the line. -/
theorem reports_rendered (cores : Nat) (config : Config) (stamp : Stamp) (d : Disk) (least : Level) :
    Rendered config d least (compile cores config stamp d).1.report ∧
      Rendered config d least (validate cores config stamp d).report := by
  constructor
  · refine rendered_of_accounted accounted_compile (fun p s hs => ?_) least
    obtain ⟨x, hx, hshown⟩ : ∃ x ∈ (examine cores true config stamp d).report.diagnostics,
        x.path = some p ∧ s.toList <:+: x.text.toList := shown_examine hs
    exact ⟨x, (extends_publish _).mem hx, hshown⟩
  · exact rendered_of_accounted accounted_validate (fun p s => shown_examine) least

/-- The entries of a card with a line break in its severity. -/
def tornEntries : Card.Entries :=
  [(.string "id", .string "A-B-001"), (.string "title", .string "A rule"),
    (.string "severity", .string "hi\ngh"), (.string "scope", .string "c"),
    (.string "requirement", .string "Keep to it."), (.string "do", .sequence [.string "d"]),
    (.string "dont", .sequence [.string "e"]),
    (.string "verify", .mapping [(.string "tests", .sequence [.string "v"])])]

def tornText : String :=
  "id: A-B-001\ntitle: A rule\nseverity: \"hi\\ngh\"\nscope: c\nrequirement: Keep to it.\n" ++
  "do: [d]\ndont: [e]\nverify:\n  tests: [v]\n"

def torn : Disk :=
  ⟨.directory [("rules", .directory [("core.yaml", .file tornText.toUTF8)])], []⟩

theorem shows_torn : Shows (into ⟨"out"⟩) torn ⟨"rules/core.yaml"⟩ "hi\ngh" := by
  have hparse : Yaml.Node.parse tornText = .ok (.mapping tornEntries) :=
    Except.toOption_eq_some_iff.mp (by decide +kernel)
  have hpaths : Discovery.cardPaths torn ⟨"rules"⟩ = .ok [⟨"rules/core.yaml"⟩] := by decide +kernel
  have hread : torn.readText ⟨"rules/core.yaml"⟩ = .ok tornText := by decide +kernel
  have hvalue : (Yaml.Node.mapping tornEntries).member? "severity" = some (.string "hi\ngh") := rfl
  have hrejects : Card.Rejects (.mapping tornEntries) (Text.trim "hi\ngh") :=
    .severity hvalue rfl (by decide) (by decide)
  exact .card hpaths (List.mem_singleton_self _) hread hparse hrejects

/-- The only diagnostic of the project takes two lines of the report. -/
theorem reports_rendered_torn :
    let report := (validate 1 (into ⟨"out"⟩) (.ofSeconds 0) torn).report
    Shows (into ⟨"out"⟩) torn ⟨"rules/core.yaml"⟩ "hi\ngh" ∧ report.diagnostics.length = 1 ∧
    lines (report.render .info) =
      ["error[schema] rules/core.yaml (severity): 'hi", "gh' is not one of: low, medium, high, critical",
        "FAILED: 1 error(s), 0 warning(s)", ""] ∧
    lines (report.render .info) ≠ (report.shown .info).map (·.text) ++ [report.summary, ""] := by
  intro report
  have hreport : report = ⟨[⟨.error, .schema, some ⟨"rules/core.yaml"⟩, some "severity",
      "'hi\ngh' is not one of: low, medium, high, critical"⟩]⟩ := by
    decide +kernel
  obtain ⟨-, hrendered⟩ := reports_rendered 1 (into ⟨"out"⟩) (.ofSeconds 0) torn .info
  refine ⟨shows_torn, ?_, ?_, fun hlines => ?_⟩
  · rw [hreport]
    rfl
  · rw [hrendered.inOrder]
    show (report.shown .info).flatMap _ ++ [report.summary, ""] = _
    rw [hreport]
    decide +kernel
  · obtain ⟨x, hx, -, -, hbroken⟩ := hrendered.refused _ _ shows_torn
    have hshown : x ∈ report.shown .info := List.mem_filter.mpr ⟨hx, by simp [Level.rank]⟩
    exact hbroken (by decide) ((hrendered.diagnostic x hx).mpr (hrendered.byLine.mp hlines x hshown))

end Build

end Rulebook
