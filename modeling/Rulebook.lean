import Rulebook.Build
import Rulebook.Calendar.Date
import Rulebook.Calendar.Timestamp
import Rulebook.Card.Basic
import Rulebook.Card.Error
import Rulebook.Card.Id
import Rulebook.Card.Schema
import Rulebook.Card.Text
import Rulebook.Card.Violation
import Rulebook.Command.Arguments
import Rulebook.Command.Options
import Rulebook.Command.Places
import Rulebook.Command.Run
import Rulebook.Config
import Rulebook.Corpus.Basic
import Rulebook.Corpus.Digest
import Rulebook.Corpus.Discovery
import Rulebook.Corpus.Load
import Rulebook.Corpus.Workers
import Rulebook.Decode.Error
import Rulebook.Decode.Record
import Rulebook.Decode.Source
import Rulebook.Digest.Sha256
import Rulebook.Disk.Basic
import Rulebook.Disk.Change
import Rulebook.Disk.Entry
import Rulebook.Disk.Error
import Rulebook.Disk.Path
import Rulebook.Glob
import Rulebook.Json.Flaw
import Rulebook.Json.Reader
import Rulebook.Json.Text
import Rulebook.Json.Value
import Rulebook.Keyed
import Rulebook.Main
import Rulebook.Manifest.Basic
import Rulebook.Manifest.Text
import Rulebook.Number.Decimal
import Rulebook.Number.Double
import Rulebook.Number.Printed
import Rulebook.Package.Basic
import Rulebook.Package.Compile
import Rulebook.Package.Error
import Rulebook.Package.Load
import Rulebook.Package.Publication
import Rulebook.Package.Stamp
import Rulebook.Package.Text
import Rulebook.Package.Verify
import Rulebook.Proofs.Basic
import Rulebook.Proofs.Build.Again
import Rulebook.Proofs.Build.Everything
import Rulebook.Proofs.Build.Inputs
import Rulebook.Proofs.Build.Lenient
import Rulebook.Proofs.Build.Loaded
import Rulebook.Proofs.Build.Outcome
import Rulebook.Proofs.Build.Packages
import Rulebook.Proofs.Build.Prediction
import Rulebook.Proofs.Build.Rendering
import Rulebook.Proofs.Build.Report
import Rulebook.Proofs.Build.Stages
import Rulebook.Proofs.Build.Wording
import Rulebook.Proofs.Build.Workers
import Rulebook.Proofs.Calendar.Date
import Rulebook.Proofs.Calendar.Digits
import Rulebook.Proofs.Calendar.Order
import Rulebook.Proofs.Calendar.Timestamp
import Rulebook.Proofs.Card.Canonical
import Rulebook.Proofs.Card.Checked
import Rulebook.Proofs.Card.Checks
import Rulebook.Proofs.Card.Collisions
import Rulebook.Proofs.Card.Conforms
import Rulebook.Proofs.Card.Entries
import Rulebook.Proofs.Card.Id
import Rulebook.Proofs.Card.Layout
import Rulebook.Proofs.Card.Normal
import Rulebook.Proofs.Card.Schema
import Rulebook.Proofs.Card.Segments
import Rulebook.Proofs.Card.Strict
import Rulebook.Proofs.Card.Text
import Rulebook.Proofs.Card.Values
import Rulebook.Proofs.Card.Violations
import Rulebook.Proofs.Card.Wording
import Rulebook.Proofs.Command.Verify
import Rulebook.Proofs.Corpus.Basic
import Rulebook.Proofs.Corpus.Build
import Rulebook.Proofs.Corpus.Claims
import Rulebook.Proofs.Corpus.Digest
import Rulebook.Proofs.Corpus.Discovery
import Rulebook.Proofs.Corpus.Found
import Rulebook.Proofs.Corpus.Reload
import Rulebook.Proofs.Corpus.Start
import Rulebook.Proofs.Corpus.Workers
import Rulebook.Proofs.Decode.Flaws
import Rulebook.Proofs.Decode.Origin
import Rulebook.Proofs.Decode.Record
import Rulebook.Proofs.Decode.Shape
import Rulebook.Proofs.Decode.Unknown
import Rulebook.Proofs.Decode.Wording
import Rulebook.Proofs.Disk.Directories
import Rulebook.Proofs.Disk.Files
import Rulebook.Proofs.Disk.Listing
import Rulebook.Proofs.Disk.Open
import Rulebook.Proofs.Disk.Operations
import Rulebook.Proofs.Disk.Order
import Rulebook.Proofs.Disk.Path
import Rulebook.Proofs.Disk.Route
import Rulebook.Proofs.Disk.Steps
import Rulebook.Proofs.Disk.View
import Rulebook.Proofs.Glob
import Rulebook.Proofs.Json.Canonical
import Rulebook.Proofs.Json.Form
import Rulebook.Proofs.Json.Pieces
import Rulebook.Proofs.Json.Pretty
import Rulebook.Proofs.Json.Scalar
import Rulebook.Proofs.Json.Shape
import Rulebook.Proofs.Json.Token
import Rulebook.Proofs.Keyed
import Rulebook.Proofs.Manifest
import Rulebook.Proofs.Manifest.Defaults
import Rulebook.Proofs.Manifest.Entries
import Rulebook.Proofs.Manifest.Issues
import Rulebook.Proofs.Manifest.Wording
import Rulebook.Proofs.Manifest.Wrapper
import Rulebook.Proofs.Manifest.Written
import Rulebook.Proofs.Package.Drift
import Rulebook.Proofs.Package.Hooks
import Rulebook.Proofs.Package.Path
import Rulebook.Proofs.Package.Pinned
import Rulebook.Proofs.Package.Rebuild
import Rulebook.Proofs.Package.Recompile
import Rulebook.Proofs.Package.Resolved
import Rulebook.Proofs.Package.Stamp
import Rulebook.Proofs.Package.Text
import Rulebook.Proofs.Package.Unhashed
import Rulebook.Proofs.Package.Unordered
import Rulebook.Proofs.Package.Verify
import Rulebook.Proofs.Publication.Again
import Rulebook.Proofs.Publication.Clearing
import Rulebook.Proofs.Publication.Commit
import Rulebook.Proofs.Publication.Kept
import Rulebook.Proofs.Publication.Moves
import Rulebook.Proofs.Publication.Outcome
import Rulebook.Proofs.Publication.Places
import Rulebook.Proofs.Publication.Preparation
import Rulebook.Proofs.Publication.Reading
import Rulebook.Proofs.Resolution
import Rulebook.Proofs.Resolution.Cover
import Rulebook.Proofs.Selector
import Rulebook.Proofs.Selector.Union
import Rulebook.Proofs.Text.Lines
import Rulebook.Proofs.Text.Printed
import Rulebook.Proofs.Yaml.Depth
import Rulebook.Proofs.Yaml.Reader
import Rulebook.Proofs.Yaml.Tree
import Rulebook.Proofs.Yaml.Wording
import Rulebook.Report.Basic
import Rulebook.Report.Causes
import Rulebook.Resolution
import Rulebook.Selector
import Rulebook.Text.Blank
import Rulebook.Text.Bytes
import Rulebook.Text.Place
import Rulebook.Text.Quoted
import Rulebook.Toml.Node
import Rulebook.Toml.Reader
import Rulebook.Yaml.Cursor
import Rulebook.Yaml.Event
import Rulebook.Yaml.Event.Grammar
import Rulebook.Yaml.Node
import Rulebook.Yaml.Node.Reader
import Rulebook.Yaml.Node.Scalar
import Rulebook.Yaml.Token
import Rulebook.Yaml.Token.Lexer
import Rulebook.Yaml.Token.Property
import Rulebook.Yaml.Token.Scalar
