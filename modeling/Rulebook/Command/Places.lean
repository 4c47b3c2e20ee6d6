import Rulebook.Command.Run

/-!
# The places of a command

Which parts of a disk a command looks at. It behaves the same on a disk that has nothing else.
-/

namespace Rulebook.Invocation

set_option autoImplicit false

/-- Where the configuration is. -/
def configPlace (i : Invocation) : Path := i.root.join ⟨Config.fileName⟩

def buildPlaces (build : BuildArguments) (config : Config) : List Path :=
  let paths := (build.apply config).paths
  [paths.rules, paths.manifest]

def places (i : Invocation) (config : Config) : List Path :=
  match i.command with
  | .validate build | .list build => buildPlaces build config
  | .compile build _ _ =>
    let output := (build.apply config).paths.output
    buildPlaces build config ++ [Publication.stagingOf output, output]
  | .verify packages rules manifest => packages ++ rules.toList ++ manifest.toList

end Rulebook.Invocation
