import Rulebook.Package.Error
import Rulebook.Report.Basic
import Rulebook.Resolution

/-!
# Diagnostics of errors and warnings

Each error and each warning becomes diagnostics: a card that breaks the schema one for each
violation, a manifest one for each issue, everything else a single one.
-/

namespace Rulebook

set_option autoImplicit false

def CardError.diagnostics (level : Level) : CardError → List Diagnostic
  | .io path reason => [⟨level, .io, some path, none, reason⟩]
  | .schema path violations =>
    violations.map fun v => ⟨level, .schema, some path, some v.field, v.kind.message⟩
  | .duplicateId id first second =>
    [⟨level, .duplicateId, some second, some "id",
      "rule id '" ++ id ++ "' is declared in both " ++ first.text ++ " and " ++ second.text⟩]
  | .invalidPattern pattern reason =>
    [⟨level, .io, none, none, (CardError.invalidPattern pattern reason).message⟩]
  | .serialization reason => [⟨level, .serialization, none, none, reason⟩]

def ManifestIssue.place (issue : ManifestIssue) : String :=
  match issue.agent with
  | some id => id ++ "." ++ issue.field
  | none => issue.field

/-- The diagnostics of an error about the manifest at a path. -/
def ManifestError.diagnostics (manifest : Path) : ManifestError → List Diagnostic
  | .io path reason => [⟨.error, .io, some path, none, reason⟩]
  | .parse path reason => [⟨.error, .manifest, some path, none, reason⟩]
  | .invalid path issues =>
    issues.map fun issue => ⟨.error, .manifest, some path, some issue.place, issue.message⟩
  | .emptyAgent id selector =>
    [⟨.error, .emptyAgent, some manifest, some id, (ManifestError.emptyAgent id selector).message⟩]

def ResolveWarning.diagnostic (w : ResolveWarning) : Diagnostic :=
  match w with
  | .orphan _ path => ⟨.warning, .orphanCard, some path, none, w.message⟩
  | .conflict c =>
    ⟨.warning, .defaultsConflict, none, some (c.agent ++ ".policy.defaults." ++ c.key), w.message⟩

def CompileError.topic : CompileError → Topic
  | .missingRule .. | .duplicateRule .. | .emptyPackage _ => .missingRule
  | .io .. => .io
  | .serialization _ | .invalidPackage .. => .serialization
  | .config .. | .invalidBuildDate .. => .config

def CompileError.diagnostic (e : CompileError) : Diagnostic :=
  let path := match e with
    | .io path _ => some path
    | _ => none
  ⟨.error, e.topic, path, e.agent?, e.message⟩

/-- The note that a card is disabled. -/
def LoadedCard.disabledNote (loaded : LoadedCard) : Diagnostic :=
  ⟨.info, .disabledCard, some loaded.path, none,
    "rule '" ++ loaded.id ++ "' is disabled and excluded from every agent"⟩

end Rulebook
