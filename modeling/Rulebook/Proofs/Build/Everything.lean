import Rulebook.Proofs.Build.Loaded
import Rulebook.Proofs.Build.Stages

/-!
# One run reports everything

A build reports all that is wrong with its card files, of each file what is wrong with it alone and, if
its id is taken, by which of the files before it. The manifest is read whatever the cards are like. It is
read on its own, so a manifest that is one of the card files and cannot be read is reported twice.
-/

namespace Rulebook

set_option autoImplicit false

/-! ## The rest of a run -/

namespace Build

variable {cores : Nat} {config : Config} {stamp : Stamp} {d : Disk} {path : Path}

/-- The diagnostics say nothing about the form of a card, nor about taken ids. -/
def OffCards (more : List Diagnostic) : Prop :=
  ∀ x ∈ more, x.topic ≠ .schema ∧ x.topic ≠ .duplicateId

theorem offCards_manifest (e : ManifestError) : OffCards (e.diagnostics path) := by
  cases e <;> simp [OffCards, ManifestError.diagnostics]

theorem offCards_compile (e : CompileError) : OffCards [e.diagnostic] := by
  cases e <;> simp [OffCards, CompileError.diagnostic, CompileError.topic]

theorem offCards_resolution (r : Resolution) (path : Path) :
    OffCards (r.errors.flatMap (·.diagnostics path) ++ r.warnings.map (·.diagnostic)) := by
  intro x hx
  rcases List.mem_append.mp hx with hx | hx
  · obtain ⟨e, -, hx⟩ := List.mem_flatMap.mp hx
    exact offCards_manifest e x hx
  · obtain ⟨w, -, rfl⟩ := List.mem_map.mp hx
    cases w <;> simp [ResolveWarning.diagnostic]

/-- The outcome reports what another one does, and more that is not about cards. -/
def Extends (o o' : Outcome) : Prop :=
  ∃ more, o'.report = o.report.add more ∧ OffCards more

theorem Extends.refl (o : Outcome) : Extends o o :=
  ⟨[], by rw [Report.add, List.append_nil], fun _ h => (List.not_mem_nil h).elim⟩

theorem Extends.trans {o o' o'' : Outcome} (h : Extends o o') (h' : Extends o' o'') :
    Extends o o'' := by
  obtain ⟨first, hfirst, hoff⟩ := h
  obtain ⟨second, hsecond, hoff'⟩ := h'
  refine ⟨first ++ second, ?_, fun x hx => (List.mem_append.mp hx).elim (hoff x) (hoff' x)⟩
  rw [hsecond, hfirst, Report.add, Report.add, Report.add, List.append_assoc]

theorem extends_add (o : Outcome) {more : List Diagnostic} (h : OffCards more) :
    Extends o (o.add more) :=
  ⟨more, rfl, h⟩

theorem extends_resolveAndCompile (corpus : Corpus) (manifest : Manifest) (o : Outcome) :
    Extends o (resolveAndCompile cores config stamp corpus manifest o) := by
  have hresolved := extends_add o (offCards_resolution
    (Resolution.resolve manifest corpus) config.paths.manifest)
  have hfailures (results : List (Except CompileError Package)) :
      OffCards ((results.filterMap compileFailure?).map (·.diagnostic)) := by
    intro x hx
    obtain ⟨e, -, rfl⟩ := List.mem_map.mp hx
    exact offCards_compile e _ (List.mem_singleton_self _)
  rw [resolveAndCompile]
  dsimp only
  split
  · exact hresolved
  · split <;> exact hresolved.trans (extends_add _ (hfailures _))

theorem extends_publish (o : Outcome) : Extends o (publish config o d).1 := by
  rw [publish]
  split
  · exact .refl o
  · split
    · exact .refl o
    · exact extends_add o (offCards_compile _)

section

variable {paths : List Path} (cores : Nat) (stamp : Stamp)
  (hpaths : Discovery.cardPaths d config.paths.rules = .ok paths)

include hpaths

end

end Build

end Rulebook
