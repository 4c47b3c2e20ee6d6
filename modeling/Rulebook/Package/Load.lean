import Rulebook.Disk.Basic
import Rulebook.Manifest.Text
import Rulebook.Package.Text
import Rulebook.Text.Bytes

/-!
# Loading manifests, configurations and packages
-/

namespace Rulebook.Disk

set_option autoImplicit false

def loadManifest (d : Disk) (path : Path) : Except ManifestError Manifest :=
  match d.readText path with
  | .ok text => Manifest.parse path text
  | .error e => .error (.io path e.message)

def loadConfig (d : Disk) (path : Path) : Except CompileError Config :=
  match d.readText path with
  | .error e => .error (.io path e.message)
  | .ok text =>
    match Config.parse text with
    | .ok config => .ok config
    | .error fault => .error (.config path fault)

/-- The configuration of a project, which need not have a file for it. -/
def projectConfig (d : Disk) (root : Path) : Except CompileError Config := do
  let path := root.join ⟨Config.fileName⟩
  let config ← if d.contains path then d.loadConfig path else pure .standard
  return config.rootedAt root

def loadPackage (d : Disk) (path : Path) : Except CompileError Package :=
  match d.read path with
  | .error e => .error (.io path e.message)
  | .ok bytes =>
    match Package.read (Text.ofBytes bytes) with
    | .ok p => .ok p
    | .error fault => .error (.invalidPackage path fault)

end Rulebook.Disk
