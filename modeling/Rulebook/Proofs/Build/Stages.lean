import Rulebook.Proofs.Build.Report

/-!
# The stages of a build

A build has failed as soon as one of its stages has found an error, and it has compiled packages
only if none has. Then there is a package for every agent of the manifest.
-/

namespace Rulebook

set_option autoImplicit false

namespace Package

theorem compile_ok {agent : Agent} {cards : List LoadedCard} {corpus : Corpus} {stamp : Stamp}
    {attribution : String} {p : Package}
    (h : compile agent cards corpus stamp attribution = .ok p) :
    cards ≠ [] ∧ firstRepeated (inOrder cards) = none ∧
      (∀ loaded ∈ inOrder cards, isKnown corpus loaded = true) ∧
      p = ofCards agent (inOrder cards) stamp attribution := by
  rw [compile] at h
  split at h
  · cases h
  · rename_i hne
    dsimp only at h
    split at h
    · cases h
    · rename_i hrepeated
      split at h
      · cases h
      · rename_i hfind
        cases h
        refine ⟨fun hnil => hne (by rw [hnil]; rfl), hrepeated, fun loaded hloaded => ?_, rfl⟩
        simpa using List.find?_eq_none.mp hfind loaded hloaded

end Package

namespace Build

theorem hasError_ofLoad {load : CorpusLoad} (hspeak : ∀ e ∈ load.errors, e.Speaks) :
    (ofLoad load).failed = true ↔ load.errors ≠ [] := by
  have hfound : (ofLoad load).failed = true ↔
      Outcome.empty.failed = true ∨ HasError (load.errors.flatMap (·.diagnostics .error) ++
        load.skipped.flatMap (·.diagnostics .warning) ++
        load.corpus.disabled.map (·.disabledNote)) := Outcome.failed_add _ _
  rw [hfound, hasError_append, hasError_append, hasError_flatMap, Outcome.not_failed_empty]
  constructor
  · rintro (h | (⟨e, he, _⟩ | ⟨d, hd, hlevel⟩) | ⟨d, hd, hlevel⟩)
    · cases h
    · exact List.ne_nil_of_mem he
    · obtain ⟨e, _, hd⟩ := List.mem_flatMap.mp hd
      rw [CardError.level_diagnostics .warning e d hd] at hlevel
      cases hlevel
    · obtain ⟨loaded, _, rfl⟩ := List.mem_map.mp hd
      cases hlevel
  · intro hne
    obtain ⟨e, he⟩ := List.exists_mem_of_ne_nil _ hne
    exact .inr (.inl (.inl ⟨e, he, CardError.hasError_diagnostics (hspeak e he)⟩))

theorem compileAll_eq (cores : Nat) (config : Config) (stamp : Stamp) (corpus : Corpus)
    (r : Resolution) (manifest : Manifest) :
    compileAll cores config stamp corpus r manifest =
      manifest.agents.map (compileAgent config stamp corpus r) :=
  shareOut_eq_map (effectiveWorkers_pos _ _ _) _ _

/-- The packages of a manifest, one for each agent. -/
def Compiles (config : Config) (stamp : Stamp) (corpus : Corpus) (manifest : Manifest)
    (packages : List Package) : Prop :=
  List.Forall₂ (fun agent p =>
    compileAgent config stamp corpus (Resolution.resolve manifest corpus) agent = .ok p)
    manifest.agents packages

theorem hasError_failures {results : List (Except CompileError Package)} :
    HasError ((results.filterMap compileFailure?).map (·.diagnostic)) ↔ ∃ e, .error e ∈ results := by
  constructor
  · rintro ⟨d, hd, _⟩
    obtain ⟨e, he, _⟩ := List.mem_map.mp hd
    obtain ⟨result, hresult, hsome⟩ := List.mem_filterMap.mp he
    cases result with
    | ok p => cases hsome
    | error e' => exact ⟨e', hresult⟩
  · rintro ⟨e, he⟩
    refine ⟨e.diagnostic, List.mem_map_of_mem (List.mem_filterMap.mpr ⟨.error e, he, rfl⟩), ?_⟩
    rfl

theorem forall₂_toOption {α : Type} {f : α → Except CompileError Package} {xs : List α}
    (h : ¬ ∃ e, .error e ∈ xs.map f) :
    List.Forall₂ (fun x p => f x = .ok p) xs ((xs.map f).filterMap (·.toOption)) := by
  induction xs with
  | nil => exact .nil
  | cons x xs ih =>
    cases hx : f x with
    | error e => exact absurd ⟨e, by rw [List.map_cons, hx]; exact List.mem_cons_self⟩ h
    | ok p =>
      rw [List.map_cons, hx]
      refine .cons hx (ih ?_)
      rintro ⟨e, he⟩
      exact h ⟨e, List.mem_cons_of_mem _ he⟩

theorem level_diagnostic (w : ResolveWarning) : w.diagnostic.level = .warning := by
  cases w <;> rfl

theorem hasError_resolution (manifest : Manifest) (corpus : Corpus) (path : Path) :
    HasError ((Resolution.resolve manifest corpus).errors.flatMap (·.diagnostics path) ++
        (Resolution.resolve manifest corpus).warnings.map (·.diagnostic)) ↔
      (Resolution.resolve manifest corpus).errors ≠ [] := by
  rw [hasError_append, hasError_flatMap]
  constructor
  · rintro (⟨e, he, _⟩ | ⟨d, hd, hlevel⟩)
    · exact List.ne_nil_of_mem he
    · obtain ⟨w, _, rfl⟩ := List.mem_map.mp hd
      rw [level_diagnostic] at hlevel
      cases hlevel
  · intro hne
    obtain ⟨e, he⟩ := List.exists_mem_of_ne_nil _ hne
    exact .inl ⟨e, he, ManifestError.hasError_diagnostics
      (Resolution.errors_speak manifest corpus e he) path⟩

/-- A stage has found an error, or there are packages. -/
inductive Result (config : Config) (stamp : Stamp) (corpus : Corpus) (manifest : Manifest)
    (o : Outcome) : Prop where
  | failed (hfailed : o.failed = true) (hcompiled : o.compiled = none)
  | done (packages : List Package) (hfailed : o.failed = false)
      (hcomplete : (Resolution.resolve manifest corpus).isComplete = true)
      (hcompiles : Compiles config stamp corpus manifest packages)
      (hcompiled : o.compiled = some packages)

theorem resolveAndCompile_result (cores : Nat) (config : Config) (stamp : Stamp) (corpus : Corpus)
    (manifest : Manifest) {o : Outcome} (ho : o.failed = false) (hnone : o.compiled = none) :
    Result config stamp corpus manifest
      (resolveAndCompile cores config stamp corpus manifest o) := by
  have hresolved := Outcome.failed_add o
    ((Resolution.resolve manifest corpus).errors.flatMap (·.diagnostics config.paths.manifest) ++
      (Resolution.resolve manifest corpus).warnings.map (·.diagnostic))
  rw [hasError_resolution, ho] at hresolved
  rw [resolveAndCompile]
  dsimp only
  split
  · rename_i hincomplete
    refine .failed (hresolved.mpr (.inr fun hnil => ?_)) hnone
    rw [Resolution.isComplete, hnil] at hincomplete
    cases hincomplete
  · rename_i hcomplete
    rw [Bool.not_eq_true', Bool.not_eq_false] at hcomplete
    have hnoErrors := List.isEmpty_iff.mp hcomplete
    split
    · rename_i hfailed
      exact .failed hfailed hnone
    · rename_i hfailed
      have hsound : ¬ ∃ e, .error e ∈ compileAll cores config stamp corpus
          (Resolution.resolve manifest corpus) manifest := by
        intro herror
        exact hfailed ((Outcome.failed_add _ _).mpr (.inr (hasError_failures.mpr herror)))
      refine .done _ (Bool.eq_false_iff.mpr hfailed) hcomplete ?_ rfl
      rw [compileAll_eq] at hsound ⊢
      exact forall₂_toOption hsound

theorem resolveAndCompile_published (cores : Nat) (config : Config) (stamp : Stamp)
    (corpus : Corpus) (manifest : Manifest) (o : Outcome) :
    (resolveAndCompile cores config stamp corpus manifest o).published = o.published := by
  rw [resolveAndCompile]
  dsimp only
  split
  · rfl
  · split <;> rfl

/-- What the examination of a project comes to. -/
inductive Examined (cores : Nat) (config : Config) (stamp : Stamp) (d : Disk) (o : Outcome) :
    Prop where
  | failed (hfailed : o.failed = true) (hcompiled : o.compiled = none)
  | done (load : CorpusLoad) (manifest : Manifest) (packages : List Package)
      (hload : d.loadCorpus cores ⟨config.build.lenient, config.build.workers⟩ config.paths.rules =
        .ok load)
      (hclean : load.errors = [])
      (hmanifest : d.loadManifest config.paths.manifest = .ok manifest)
      (hcomplete : (Resolution.resolve manifest load.corpus).isComplete = true)
      (hcompiles : Compiles config stamp load.corpus manifest packages)
      (hfailed : o.failed = false) (hcompiled : o.compiled = some packages)

theorem examine_examined (cores : Nat) (config : Config) (stamp : Stamp) (d : Disk) :
    Examined cores config stamp d (examine cores true config stamp d) := by
  rw [examine]
  dsimp only
  split
  · rename_i e hload
    refine .failed ((Outcome.failed_add _ _).mpr (.inr ?_)) rfl
    exact CardError.hasError_diagnostics (Disk.loadCorpus_error hload)
  · rename_i load hload
    have hspeak := Disk.loadCorpus_errors hload
    rw [Bool.not_true, Bool.false_and, if_neg Bool.false_ne_true]
    split
    · rename_i e hmanifest
      refine .failed ((Outcome.failed_add _ _).mpr (.inr ?_)) rfl
      exact ManifestError.hasError_diagnostics (Disk.loadManifest_error hmanifest) _
    · rename_i manifest hmanifest
      split
      · rename_i hclean
        have hclean := List.isEmpty_iff.mp hclean
        have hsound : (ofLoad load).failed = false :=
          Bool.eq_false_iff.mpr fun hfailed => (hasError_ofLoad hspeak).mp hfailed hclean
        cases resolveAndCompile_result cores config stamp load.corpus manifest hsound rfl with
        | failed hfailed hcompiled => exact .failed hfailed hcompiled
        | done packages hfailed hcomplete hcompiles hcompiled =>
          exact .done load manifest packages hload hclean hmanifest hcomplete hcompiles hfailed
            hcompiled
      · rename_i hclean
        refine .failed ((hasError_ofLoad hspeak).mpr fun hnil => hclean ?_) rfl
        rw [CorpusLoad.isClean, hnil]
        rfl

theorem examine_published (cores : Nat) (config : Config) (stamp : Stamp) (d : Disk) :
    (examine cores true config stamp d).published = [] := by
  rw [examine]
  dsimp only
  split
  · rfl
  · rw [Bool.not_true, Bool.false_and, if_neg Bool.false_ne_true]
    split
    · rfl
    · split
      · rw [resolveAndCompile_published]
        rfl
      · rfl

theorem publish_of_none {config : Config} {o : Outcome} {d : Disk} (h : o.compiled = none) :
    publish config o d = (o, d) := by
  rw [publish]
  split
  · rfl
  · rename_i hsome
    rw [h] at hsome
    cases hsome

theorem publish_of_some {config : Config} {o : Outcome} {d : Disk} {packages : List Package}
    (h : o.compiled = some packages) : publish config o d =
      match Publication.publish config.paths.output packages d with
      | (.ok published, d) => ({ o with published }, d)
      | (.error e, d) => (o.add [e.diagnostic], d) := by
  rw [publish]
  split
  · rename_i hnone
    rw [h] at hnone
    cases hnone
  · rename_i hsome
    obtain rfl := Option.some.inj (h.symm.trans hsome)
    rfl

namespace Compiles

variable {config : Config} {stamp : Stamp} {corpus : Corpus} {manifest : Manifest}
  {packages : List Package}

theorem id_of_compileAgent {r : Resolution} {agent : Agent} {p : Package}
    (h : compileAgent config stamp corpus r agent = .ok p) : p.id = agent.id := by
  obtain ⟨_, _, _, hp⟩ := Package.compile_ok h
  rw [hp]
  rfl

theorem ids_eq (h : Compiles config stamp corpus manifest packages) :
    packages.map (·.id) = manifest.agents.map (·.id) := by
  rw [Compiles] at h
  generalize manifest.agents = agents at h ⊢
  induction h with
  | nil => rfl
  | cons hp _ ih => rw [List.map_cons, List.map_cons, id_of_compileAgent hp, ih]

theorem exists_agent (h : Compiles config stamp corpus manifest packages) {p : Package}
    (hp : p ∈ packages) : ∃ agent ∈ manifest.agents,
      compileAgent config stamp corpus (Resolution.resolve manifest corpus) agent = .ok p := by
  rw [Compiles] at h
  generalize manifest.agents = agents at h ⊢
  induction h with
  | nil => cases hp
  | cons hfirst _ ih =>
    rcases List.mem_cons.mp hp with rfl | hp
    · exact ⟨_, List.mem_cons_self, hfirst⟩
    · obtain ⟨agent, hagent, hcompile⟩ := ih hp
      exact ⟨agent, List.mem_cons_of_mem _ hagent, hcompile⟩

theorem validIds (h : Compiles config stamp corpus manifest packages) (hm : manifest.Accepted) :
    ∀ p ∈ packages, Manifest.validAgentId p.id = true := by
  intro p hp
  obtain ⟨agent, hagent, hcompile⟩ := h.exists_agent hp
  rw [id_of_compileAgent hcompile]
  exact hm.validId hagent

theorem nodup_ids (h : Compiles config stamp corpus manifest packages) (hm : manifest.Accepted) :
    (packages.map (·.id)).Nodup := by
  rw [h.ids_eq]
  exact hm.isKeyed.nodup_ids

end Compiles

end Build

end Rulebook
