import Rulebook.Proofs.Build.Loaded
import Rulebook.Proofs.Build.Prediction
import Rulebook.Proofs.Card.Id
import Rulebook.Proofs.Card.Wording
import Rulebook.Proofs.Corpus.Claims
import Rulebook.Proofs.Manifest.Wording
import Rulebook.Proofs.Package.Path
import Rulebook.Proofs.Package.Recompile

/-!
# Wording of reports

Everything in the diagnostics of a build is on one line, apart from paths, from texts of the file that is
broken, and from the names of defaults that cards and agents differ on: these are repeated as they stand.
-/

namespace Rulebook

set_option autoImplicit false

open Text (IsLine IsComposed)

theorem RuleId.isLine_of_valid {id : String} (h : valid id = true) : IsLine id := by
  intro hmem
  rcases mem_of_valid h hmem with hhyphen | hword
  · exact absurd hhyphen (by decide)
  · exact absurd hword (by decide)

theorem Manifest.isLine_of_valid {id : String} (h : validAgentId id = true) : IsLine id :=
  fun hmem => absurd (isAgentIdTail_of_valid h hmem) (by decide)

theorem Disk.valid_of_loadCard {d : Disk} {path : Path} {loaded : LoadedCard}
    (h : d.loadCard path = .ok loaded) : RuleId.valid loaded.id = true := by
  rw [loadCard] at h
  split at h
  · cases h
  · split at h
    · rename_i hcard
      cases h
      rw [Card.ofYaml] at hcard
      split at hcard
      · obtain ⟨entries, -, -, hfields⟩ := Card.validate_eq_ok_iff.mp hcard
        exact hfields.id.2
      · cases hcard
    · cases h

/-! ## Diagnostics -/

namespace Diagnostic

/-- The field and the message are put together from wording and from texts of a kind. -/
structure Tells (repeated : String → Prop) (x : Diagnostic) : Prop where
  field : ∀ field ∈ x.field, IsComposed repeated field
  message : IsComposed repeated x.message

variable {repeated : String → Prop} {level : Level} {topic : Topic} {path : Option Path}
  {field message : String} {x : Diagnostic}

theorem tells_unplaced (hmessage : IsComposed repeated message) :
    (⟨level, topic, path, none, message⟩ : Diagnostic).Tells repeated :=
  ⟨(fun _ h => nomatch h), hmessage⟩

theorem tells_placed (hfield : IsComposed repeated field) (hmessage : IsComposed repeated message) :
    (⟨level, topic, path, some field, message⟩ : Diagnostic).Tells repeated := by
  refine ⟨?_, hmessage⟩
  rintro _ ⟨⟩
  exact hfield

/-- What a diagnostic adds to its parts is on one line. -/
theorem isComposed_text (h : x.Tells repeated) (hpath : ∀ p ∈ x.path, repeated p.text) :
    IsComposed repeated x.text := by
  have hlevel : IsLine x.level.name := by
    cases x.level <;> decide
  have htopic : IsLine x.topic.label := by
    cases x.topic <;> decide
  have hhead : IsLine (x.level.name ++ "[" ++ x.topic.label ++ "]") :=
    .append (.append (.append hlevel (by decide)) htopic) (by decide)
  refine .append (.append (.append (.append (.wording hhead) ?place) ?field) (.wording (by decide))) h.message
  case place =>
    cases hsome : x.path with
    | none => exact .wording (by decide)
    | some path => exact .append (.wording (by decide)) (.part (hpath path hsome))
  case field =>
    cases hsome : x.field with
    | none => exact .wording (by decide)
    | some field =>
      exact .append (.append (.wording (by decide)) (h.field field hsome)) (.wording (by decide))

end Diagnostic

namespace Build

/-- The texts that a diagnostic of a build repeats as they stand: its path, for an id that is taken the path
that took it, what is wrong in a card or in the manifest, and the default that is set twice. -/
inductive Echoes (config : Config) (d : Disk) (x : Diagnostic) : String → Prop
  | path {p : Path} (hpath : x.path = some p) : Echoes config d x p.text
  | claimant {p : Path} {loaded : LoadedCard} (htopic : x.topic = .duplicateId)
      (hload : d.loadCard p = .ok loaded) : Echoes config d x p.text
  | card {p : Path} {text s : String} (htopic : x.topic = .schema) (hpath : x.path = some p)
      (htext : d.readText p = .ok text) (hs : Yaml.TextEchoes Card.Echoes text s) : Echoes config d x s
  | manifest {text s : String} (htopic : x.topic = .manifest)
      (htext : d.readText config.paths.manifest = .ok text)
      (hs : Yaml.TextEchoes Manifest.Echoes text s) : Echoes config d x s
  | defaultName {p : Path} {loaded : LoadedCard} {name : String} (htopic : x.topic = .defaultsConflict)
      (hload : d.loadCard p = .ok loaded) (hname : name ∈ loaded.card.defaults.keys) :
      Echoes config d x name

/-- The diagnostics repeat nothing else. -/
def Accounted (config : Config) (d : Disk) (xs : List Diagnostic) : Prop :=
  ∀ x ∈ xs, x.Tells (Echoes config d x)

variable {cores : Nat} {config : Config} {stamp : Stamp} {d : Disk}

/-! ## Cards -/

theorem accounted_append {xs ys : List Diagnostic} :
    Accounted config d (xs ++ ys) ↔ Accounted config d xs ∧ Accounted config d ys :=
  List.forall_mem_append

theorem accounted_loadCard {p : Path} {e : CardError} (h : d.loadCard p = .error e) (level : Level) :
    Accounted config d (e.diagnostics level) := by
  rw [Disk.loadCard] at h
  split at h
  · rename_i reason _
    cases h
    exact List.forall_mem_singleton.mpr (Diagnostic.tells_unplaced (.wording reason.isLine_message))
  · rename_i text htext
    split at h
    · cases h
    · rename_i violations hviolations
      cases h
      intro x hx
      obtain ⟨v, hv, rfl⟩ := List.mem_map.mp hx
      have htells := Card.ofYaml_tells hviolations v hv
      have hsub (s : String) (hs : Yaml.TextEchoes Card.Echoes text s) :
          Echoes config d ⟨level, .schema, some p, some v.field, v.kind.message⟩ s :=
        .card rfl rfl htext hs
      exact Diagnostic.tells_placed (htells.field.mono hsub) (htells.message.mono hsub)

/-- Every card of the corpus is loaded from a file. -/
def LoadedFrom (d : Disk) (corpus : Corpus) : Prop :=
  ∀ loaded ∈ corpus.toList, ∃ p, d.loadCard p = .ok loaded

theorem accounted_duplicate {p q : Path} {loaded claimant : LoadedCard} (hloaded : d.loadCard p = .ok loaded)
    (hclaimant : d.loadCard q = .ok claimant) :
    Accounted config d ((CardError.duplicateId loaded.id claimant.path loaded.path).diagnostics .error) := by
  have hfirst := hclaimant
  rw [← Disk.loadCard_path hclaimant] at hfirst
  have hid := RuleId.isLine_of_valid (Disk.valid_of_loadCard hloaded)
  refine List.forall_mem_singleton.mpr (Diagnostic.tells_placed (.wording (by decide)) ?_)
  exact .append (.append (.append (.append (.append (.wording (by decide)) (.wording hid)) (.wording (by decide)))
    (.part (.claimant rfl hfirst))) (.wording (by decide))) (.part (.path rfl))

theorem loadedFrom_of_loadCorpus {options : LoadOptions} {root : Path} {load : CorpusLoad}
    (h : d.loadCorpus cores options root = .ok load) : LoadedFrom d load.corpus := by
  obtain ⟨paths, -, rfl⟩ := Disk.loadCorpus_ok_iff.mp h
  intro loaded hloaded
  rw [CorpusLoad.corpus_ofResults] at hloaded
  obtain ⟨entry, hentry, rfl⟩ := List.mem_map.mp hloaded
  obtain ⟨p, -, hload⟩ := List.mem_map.mp (CorpusLoad.mem_cardsOf.mp (Corpus.mem_of_mem_build hentry))
  exact ⟨p, hload⟩

theorem accounted_ofLoad {options : LoadOptions} {root : Path} {load : CorpusLoad}
    (h : d.loadCorpus cores options root = .ok load) :
    Accounted config d (ofLoad load).report.diagnostics := by
  have hcorpus := loadedFrom_of_loadCorpus h
  obtain ⟨paths, -, rfl⟩ := Disk.loadCorpus_ok_iff.mp h
  have hcards : ∀ loaded ∈ CorpusLoad.cardsOf (paths.map d.loadCard), ∃ p, d.loadCard p = .ok loaded := by
    intro loaded hloaded
    obtain ⟨p, -, hload⟩ := List.mem_map.mp (CorpusLoad.mem_cardsOf.mp hloaded)
    exact ⟨p, hload⟩
  have hfailures (level : Level) : ∀ e ∈ CorpusLoad.failuresOf (paths.map d.loadCard),
      Accounted config d (e.diagnostics level) := by
    intro e he
    obtain ⟨p, -, hload⟩ := List.mem_map.mp (CorpusLoad.mem_failuresOf.mp he)
    exact accounted_loadCard hload level
  have hduplicates : ∀ e ∈ (Corpus.build (CorpusLoad.cardsOf (paths.map d.loadCard))).2,
      Accounted config d (e.diagnostics .error) := by
    intro e he
    obtain ⟨loaded, hloaded, claimant, hclaimant, rfl⟩ := Corpus.duplicate_of_mem_errors he
    obtain ⟨p, hp⟩ := hcards loaded hloaded
    obtain ⟨q, hq⟩ := hcards claimant hclaimant
    exact accounted_duplicate hp hq
  -- errors, then skipped files, then cards that are turned off
  refine List.forall_mem_append.mpr ⟨List.forall_mem_nil _, ?_⟩
  refine List.forall_mem_append.mpr ⟨List.forall_mem_append.mpr ⟨?_, ?_⟩, ?_⟩
  · rw [CorpusLoad.ofResults_eq, List.flatMap_append]
    refine List.forall_mem_append.mpr ⟨?_, ?_⟩
    · exact List.forall_mem_flatMap.mpr fun e he => hfailures .error e (List.mem_of_mem_filter he)
    · exact List.forall_mem_flatMap.mpr hduplicates
  · rw [CorpusLoad.ofResults_eq]
    exact List.forall_mem_flatMap.mpr fun e he => hfailures .warning e (List.mem_of_mem_filter he)
  · intro x hx
    obtain ⟨loaded, hloaded, rfl⟩ := List.mem_map.mp hx
    obtain ⟨p, hp⟩ := hcorpus loaded (List.mem_of_mem_filter hloaded)
    have hid := RuleId.isLine_of_valid (Disk.valid_of_loadCard hp)
    exact Diagnostic.tells_unplaced (.wording (.append (.append (by decide) hid) (by decide)))

theorem accounted_cardPaths {root : Path} {e : CardError} (h : Discovery.cardPaths d root = .error e) :
    Accounted config d (e.diagnostics .error) := by
  rw [Discovery.cardPaths] at h
  split at h
  · split at h <;> cases h
  · cases h
    exact List.forall_mem_singleton.mpr (Diagnostic.tells_unplaced (.wording (by decide)))

/-! ## The manifest and who gets which cards -/

theorem accounted_loadManifest {e : ManifestError}
    (h : d.loadManifest config.paths.manifest = .error e) :
    Accounted config d (e.diagnostics config.paths.manifest) := by
  rw [Disk.loadManifest] at h
  split at h
  · rename_i text htext
    have htells := Manifest.parse_failsOnly config.paths.manifest text e h
    have hsub {x : Diagnostic} (hx : x.topic = .manifest) (s : String)
        (hs : Yaml.TextEchoes Manifest.Echoes text s) : Echoes config d x s := .manifest hx htext hs
    cases e with
    | io | emptyAgent => exact htells.elim
    | parse path reason =>
      exact List.forall_mem_singleton.mpr (Diagnostic.tells_unplaced (htells.mono (hsub rfl)))
    | invalid path issues =>
      intro x hx
      obtain ⟨issue, hissue, rfl⟩ := List.mem_map.mp hx
      have hone := htells issue hissue
      exact Diagnostic.tells_placed (hone.place.mono (hsub rfl)) (hone.message.mono (hsub rfl))
  · rename_i reason _
    cases h
    exact List.forall_mem_singleton.mpr (Diagnostic.tells_unplaced (.wording reason.isLine_message))

theorem isLine_selector (selector : Selector) : IsLine selector.text := by
  refine .intercalate (by decide) fun part hpart => ?_
  obtain ⟨m, -, rfl⟩ := List.mem_map.mp hpart
  cases m with
  | scopeIs s | scopeStartsWith s | categoryIs s => exact .append (by decide) (Text.isLine_quoted s)
  | scopeLike glob => exact .append (by decide) (Text.isLine_quoted glob.text)

variable {corpus : Corpus} {manifest : Manifest}

theorem accounted_emptyAgents (corpus : Corpus) (hmanifest : manifest.Accepted) :
    Accounted config d
      ((Resolution.resolve manifest corpus).errors.flatMap (·.diagnostics config.paths.manifest)) := by
  refine List.forall_mem_flatMap.mpr fun e he => ?_
  obtain ⟨agent, hagent, hsome⟩ := List.mem_filterMap.mp he
  rw [Option.ite_none_right_eq_some] at hsome
  obtain ⟨-, ⟨⟩⟩ := hsome
  have hid := Manifest.isLine_of_valid (hmanifest.validId hagent)
  have hmessage : IsLine ("agent '" ++ agent.id ++ "' matches no rule cards (selector: " ++
      agent.selector.text ++ ")") :=
    .append (.append (.append (.append (by decide) hid) (by decide)) (isLine_selector _)) (by decide)
  exact List.forall_mem_singleton.mpr (Diagnostic.tells_placed (.wording hid) (.wording hmessage))

theorem accounted_conflict (hcorpus : LoadedFrom d corpus) {agent : Agent}
    (hagent : Manifest.validAgentId agent.id = true) {loaded : LoadedCard} (hloaded : loaded ∈ corpus.toList)
    {w : ResolveWarning} (hw : w ∈ Resolution.cardConflicts agent loaded) :
    w.diagnostic.Tells (Echoes config d w.diagnostic) := by
  obtain ⟨⟨key, cardValue⟩, hkey, hsome⟩ := List.mem_filterMap.mp hw
  dsimp only at hsome
  split at hsome
  · split at hsome
    · cases hsome
    · rename_i manifestValue _ _
      cases hsome
      obtain ⟨p, hp⟩ := hcorpus loaded hloaded
      have hid := Manifest.isLine_of_valid hagent
      have hrule := RuleId.isLine_of_valid (Disk.valid_of_loadCard hp)
      have hname : Echoes config d
          (ResolveWarning.diagnostic (.conflict ⟨agent.id, loaded.id, key, manifestValue, cardValue⟩)) key :=
        .defaultName rfl hp (List.mem_map_of_mem hkey)
      have hfront : IsLine ("agent '" ++ agent.id ++ "': rule '" ++ loaded.id ++ "' sets default '") :=
        .append (.append (.append (.append (by decide) hid) (by decide)) hrule) (by decide)
      refine Diagnostic.tells_placed (.append (.wording (.append hid (by decide))) (.part hname)) ?_
      exact .append (.append (.append (.append (.append (.append (.wording hfront) (.part hname))
        (.wording (by decide))) (.wording (Json.isLine_compact cardValue))) (.wording (by decide)))
        (.wording (Json.isLine_compact manifestValue))) (.wording (by decide))
  · cases hsome

theorem accounted_warnings (hcorpus : LoadedFrom d corpus) (hmanifest : manifest.Accepted) :
    Accounted config d ((Resolution.resolve manifest corpus).warnings.map (·.diagnostic)) := by
  intro x hx
  obtain ⟨w, hw, rfl⟩ := List.mem_map.mp hx
  rcases List.mem_append.mp hw with hw | hw
  · obtain ⟨agent, hagent, hw⟩ := List.mem_flatMap.mp hw
    obtain ⟨loaded, hloaded, hw⟩ := List.mem_flatMap.mp hw
    exact accounted_conflict hcorpus (hmanifest.validId hagent) (Resolution.mem_selection hloaded).1 hw
  · obtain ⟨loaded, hloaded, rfl⟩ := List.mem_map.mp hw
    have hactive := List.mem_of_mem_filter hloaded
    obtain ⟨p, hp⟩ := hcorpus loaded (List.mem_of_mem_filter hactive)
    have hrule := RuleId.isLine_of_valid (Disk.valid_of_loadCard hp)
    refine Diagnostic.tells_unplaced ?_
    exact .append (.append (.wording (.append (.append (by decide) hrule) (by decide)))
      (.part (.path rfl))) (.wording (by decide))

/-! ## Packages -/

/-- Where every agent gets cards of a sound corpus, every package can be compiled. -/
theorem compileFailures_eq_nil (hcorpus : corpus.IsKeyed) (hmanifest : manifest.Accepted)
    (hcomplete : (Resolution.resolve manifest corpus).isComplete = true) :
    (compileAll cores config stamp corpus (Resolution.resolve manifest corpus) manifest).filterMap
      compileFailure? = [] := by
  rw [compileAll_eq, List.filterMap_eq_nil_iff]
  intro result hresult
  obtain ⟨agent, hagent, rfl⟩ := List.mem_map.mp hresult
  have hselection : Resolution.selection corpus agent ≠ [] := by
    intro hnil
    have hempty : ManifestError.emptyAgent agent.id agent.selector.text ∈
        (Resolution.resolve manifest corpus).errors :=
      List.mem_filterMap.mpr ⟨agent, hagent, by rw [hnil]; rfl⟩
    rw [List.isEmpty_iff.mp hcomplete] at hempty
    cases hempty
  rw [compileAgent, Resolution.cardsFor_resolve hmanifest.isKeyed hagent,
    Package.compile_selection hcorpus hselection]
  rfl

theorem accounted_resolveAndCompile (hcorpus : LoadedFrom d corpus) (hkeyed : corpus.IsKeyed)
    (hmanifest : manifest.Accepted) {o : Outcome} (ho : Accounted config d o.report.diagnostics) :
    Accounted config d (resolveAndCompile cores config stamp corpus manifest o).report.diagnostics := by
  have hresolved := accounted_append.mpr ⟨ho, accounted_append.mpr
    ⟨accounted_emptyAgents corpus hmanifest, accounted_warnings hcorpus hmanifest⟩⟩
  rw [resolveAndCompile]
  dsimp only
  split
  · exact hresolved
  · rename_i hcomplete
    rw [Bool.not_eq_true', Bool.not_eq_false] at hcomplete
    -- no package fails to compile here, so nothing is said about any
    rw [compileFailures_eq_nil hkeyed hmanifest hcomplete]
    have hnothing : Accounted config d (List.map CompileError.diagnostic []) := List.forall_mem_nil _
    have hall := accounted_append.mpr ⟨hresolved, hnothing⟩
    split <;> exact hall

/-- What an examination finds is accounted for, whether or not the manifest must be there. -/
theorem accounted_examine (required : Bool) :
    Accounted config d (examine cores required config stamp d).report.diagnostics := by
  rw [examine]
  dsimp only
  cases hload : d.loadCorpus cores ⟨config.build.lenient, config.build.workers⟩ config.paths.rules with
  | error e =>
    rw [Disk.loadCorpus_eq] at hload
    cases hpaths : Discovery.cardPaths d config.paths.rules with
    | ok paths =>
      rw [hpaths] at hload
      cases hload
    | error e' =>
      rw [hpaths] at hload
      cases hload
      exact accounted_cardPaths hpaths
  | ok load =>
    have hfound : Accounted config d (ofLoad load).report.diagnostics := accounted_ofLoad hload
    dsimp only
    split
    · exact hfound
    · cases hmanifest : d.loadManifest config.paths.manifest with
      | error e => exact accounted_append.mpr ⟨hfound, accounted_loadManifest hmanifest⟩
      | ok manifest =>
        dsimp only
        split
        · exact accounted_resolveAndCompile (loadedFrom_of_loadCorpus hload)
            (Disk.loadCorpus_sound hload).isKeyed (Disk.loadManifest_accepted hmanifest) hfound
        · exact hfound

theorem accounted_publish {o : Outcome} (ho : Accounted config d o.report.diagnostics) :
    Accounted config d (publish config o d).1.report.diagnostics := by
  rw [publish]
  split
  · exact ho
  · split
    · exact ho
    · rename_i hpublish
      refine accounted_append.mpr ⟨ho, ?_⟩
      cases Publication.isRefusal_of_publish hpublish with
      | io hpath reason =>
        refine List.forall_mem_singleton.mpr (Diagnostic.tells_unplaced ?_)
        exact .append (.append (.append (.wording (by decide)) (.part (.path rfl))) (.wording (by decide)))
          (.wording reason.isLine_message)

theorem accounted_compile : Accounted config d (compile cores config stamp d).1.report.diagnostics :=
  accounted_publish (accounted_examine true)

theorem accounted_validate : Accounted config d (validate cores config stamp d).report.diagnostics :=
  accounted_examine false

end Build

end Rulebook
