import Rulebook.Proofs.Build.Stages

/-!
# Workers make no difference

A build loads the cards and compiles the agents with as many workers as it is given. It comes to what a
single worker would make of the same project.
-/

namespace Rulebook

set_option autoImplicit false

namespace Build

/-- A configuration that asks for a number of workers. -/
def withWorkers (config : Config) (workers : Nat) : Config :=
  { config with build := { config.build with workers } }

theorem resolveAndCompile_withWorkers (cores cores' : Nat) (config : Config) (workers workers' : Nat)
    (stamp : Stamp) (corpus : Corpus) (manifest : Manifest) (o : Outcome) :
    resolveAndCompile cores (withWorkers config workers) stamp corpus manifest o =
      resolveAndCompile cores' (withWorkers config workers') stamp corpus manifest o := by
  simp only [resolveAndCompile, compileAll_eq]
  rfl

theorem examine_withWorkers (cores cores' : Nat) (required : Bool) (config : Config)
    (workers workers' : Nat) (stamp : Stamp) (d : Disk) :
    examine cores required (withWorkers config workers) stamp d =
      examine cores' required (withWorkers config workers') stamp d := by
  simp only [examine, Disk.loadCorpus_eq,
    resolveAndCompile_withWorkers cores cores' config workers workers']
  rfl

/-- Whatever the number of workers that is asked for and that the machine runs at once, a build comes to
the same outcome and leaves the same files. The cards are checked and the agents compiled as by one
worker alone, since the shares that a list of any kind is cut into are that list in its order. -/
theorem compile_withWorkers (cores cores' : Nat) (config : Config) (workers workers' : Nat)
    (stamp : Stamp) (d : Disk) :
    compile cores (withWorkers config workers) stamp d =
        compile cores' (withWorkers config workers') stamp d ∧
      (∀ options root, d.loadCorpus cores options root =
        (Discovery.cardPaths d root).map fun paths =>
          .ofResults options.lenient (paths.map d.loadCard)) ∧
      (∀ corpus r manifest, compileAll cores config stamp corpus r manifest =
        manifest.agents.map (compileAgent config stamp corpus r)) ∧
      ∀ (α β : Type) (work : α → β) (items : List α) (available requested : Nat),
        let count := effectiveWorkers available requested items.length
        let size := shareSize count items.length
        let parts := shares size items.length items
        Divides count size items parts ∧
          parts.flatMap (List.map work) = items.map work ∧
          shareOut count work items = items.map work := by
  refine ⟨?_, ?_, ?_, ?_⟩
  · rw [compile, compile, examine_withWorkers cores cores' true config workers workers']
    rfl
  · exact fun options root => Disk.loadCorpus_eq cores options d root
  · exact fun corpus r manifest => compileAll_eq cores config stamp corpus r manifest
  · intro α β work items available requested count size parts
    have hcount : 0 < count := effectiveWorkers_pos available requested items.length
    have hdivides : Divides count size items parts := divides_shares hcount items
    exact ⟨hdivides, hdivides.flatMap_map work, shareOut_eq_map hcount work items⟩

end Build

end Rulebook
