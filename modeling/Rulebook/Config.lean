import Rulebook.Decode.Record
import Rulebook.Disk.Path
import Rulebook.Toml.Reader

/-!
# Configuration

Where a project keeps its cards, its manifest and its packages, and how they are built. Everything has
a default. Paths are taken from the root of the project unless they are absolute.
-/

namespace Rulebook

set_option autoImplicit false

structure ProjectPaths where
  rules : Path
  manifest : Path
  output : Path
deriving DecidableEq, Repr

structure BuildOptions where
  attribution : String
  /-- Cards that break the schema are left out and not an error. -/
  lenient : Bool
  /-- None stands for as many workers as the machine runs at once. -/
  workers : Nat
deriving DecidableEq, Repr

structure Config where
  paths : ProjectPaths
  build : BuildOptions
deriving DecidableEq, Repr

/-- Why a configuration is refused, and where. -/
structure ConfigFault where
  place : Option Text.Place
  message : String
deriving DecidableEq, Repr

def ConfigFault.text (fault : ConfigFault) : String :=
  (match fault.place with
    | some place =>
      "TOML parse error at line " ++ toString place.line ++ ", column " ++ toString place.column ++
        "\n"
    | none => "") ++ fault.message ++ "\n"

def defaultAttribution : String := "Compiled from Rule Cards by rulecard"

def ProjectPaths.standard : ProjectPaths := ⟨⟨"rules"⟩, ⟨"agents.yaml"⟩, ⟨"dist/agents"⟩⟩

def BuildOptions.standard : BuildOptions := ⟨defaultAttribution, false, 0⟩

namespace Config

def standard : Config := ⟨.standard, .standard⟩

def fileName : String := "rulecard.toml"

/-- The configuration with its paths taken from a root. -/
def rootedAt (config : Config) (root : Path) : Config :=
  let paths := config.paths
  { config with
    paths := ⟨root.join paths.rules, root.join paths.manifest, root.join paths.output⟩ }

open Decode

def pathText : Decoder Path := fun source =>
  match source.bare with
  | .text s => .ok ⟨s⟩
  | s => .error (mismatch "path string" s)

def count : Decoder Nat := fun source =>
  match source.bare with
  | .number (.whole n) =>
    if 0 ≤ n.val then .ok n.val.toNat else .error (.wrongValue (.whole n.val) "usize")
  | s => .error (mismatch "usize" s)

def pathsLayout : Layout ProjectPaths where
  name := "struct PathsConfig"
  fields := ["rules_dir", "manifest", "output_dir"]
  optional := ["rules_dir", "manifest", "output_dir"]
  strict := true
  blank := .standard
  put paths name value :=
    match name with
    | "rules_dir" => return { paths with rules := ← pathText value }
    | "manifest" => return { paths with manifest := ← pathText value }
    | "output_dir" => return { paths with output := ← pathText value }
    | _ => return paths

def buildLayout : Layout BuildOptions where
  name := "struct BuildConfig"
  fields := ["attribution", "lenient", "workers"]
  optional := ["attribution", "lenient", "workers"]
  strict := true
  blank := .standard
  put build name value :=
    match name with
    | "attribution" => return { build with attribution := ← text value }
    | "lenient" => return { build with lenient := ← flag value }
    | "workers" => return { build with workers := ← count value }
    | _ => return build

def layout : Layout Config where
  name := "struct CompilerConfig"
  fields := ["paths", "build"]
  optional := ["paths", "build"]
  strict := true
  blank := .standard
  put config name value :=
    match name with
    | "paths" => return { config with paths := ← pathsLayout.decode .toml value }
    | "build" => return { config with build := ← buildLayout.decode .toml value }
    | _ => return config

def parse (text : String) : Except ConfigFault Config :=
  let cs := text.toList
  match Toml.readDocument cs with
  | .error left => .error ⟨some (Toml.placeOf cs left), "<syntax>"⟩
  | .ok document =>
    match layout.decode .toml document.toSource with
    | .ok config => .ok config
    | .error e =>
      .error ⟨some (Toml.placeOf cs (document.markAt cs.length e.trail)), e.message .toml⟩

end Config

end Rulebook
