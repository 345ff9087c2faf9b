import SchemaPlan.Assoc
import SchemaPlan.Callback
import SchemaPlan.Checksum.Crc32
import SchemaPlan.Checksum.Policy
import SchemaPlan.Cli.Arguments
import SchemaPlan.Cli.Log
import SchemaPlan.Cli.Run
import SchemaPlan.Cli.Style
import SchemaPlan.CodeUnit
import SchemaPlan.Config
import SchemaPlan.Config.Toml
import SchemaPlan.Dict
import SchemaPlan.Distinct
import SchemaPlan.Environment
import SchemaPlan.Executor
import SchemaPlan.JsonValue
import SchemaPlan.Location
import SchemaPlan.Location.Json
import SchemaPlan.Location.Roots
import SchemaPlan.Main
import SchemaPlan.Migration
import SchemaPlan.NameScheme
import SchemaPlan.Plan
import SchemaPlan.Plan.Composite
import SchemaPlan.Plan.Planner
import SchemaPlan.PlanError
import SchemaPlan.Replacer
import SchemaPlan.Resolver
import SchemaPlan.Resolver.Registry
import SchemaPlan.Resolver.Sql
import SchemaPlan.Resolver.Units
import SchemaPlan.Storage
import SchemaPlan.Storage.Bundle
import SchemaPlan.Storage.FileTree
import SchemaPlan.Storage.Resource
import SchemaPlan.Storage.Scanner
import SchemaPlan.Text.Blank
import SchemaPlan.Text.Lines
import SchemaPlan.Text.Quoted
import SchemaPlan.Text.Search
import SchemaPlan.Text.Unprintable
import SchemaPlan.Text.Utf8
import SchemaPlan.Title
import SchemaPlan.Toml.Document
import SchemaPlan.Toml.Scalar
import SchemaPlan.Toml.Text
import SchemaPlan.Toml.Value
import SchemaPlan.Toml.Writer
import SchemaPlan.Trace
import SchemaPlan.Version
import SchemaPlan.Proofs.Version.Order
import SchemaPlan.Proofs.Distinct
import SchemaPlan.Proofs.Migration.Order
import SchemaPlan.Proofs.Plan.Making
import SchemaPlan.Proofs.Plan.Passes
import SchemaPlan.Proofs.Location.Roots
import SchemaPlan.Proofs.Plan.Building
import SchemaPlan.Proofs.Resolver.Units
import SchemaPlan.Proofs.Plan.Rearrangement
import SchemaPlan.Proofs.Text.Search
import SchemaPlan.Proofs.Resolver.Sql
import SchemaPlan.Proofs.Storage.Bundle
import SchemaPlan.Proofs.Plan.Standalone
import SchemaPlan.Proofs.NameScheme
import SchemaPlan.Proofs.Storage.Scanner
import SchemaPlan.Proofs.Resolver.Kinds
import SchemaPlan.Proofs.Location.Coverage
import SchemaPlan.Proofs.Selection
import SchemaPlan.Proofs.Plan.Coverage
import SchemaPlan.Proofs.Storage.FileTree
import SchemaPlan.Proofs.Storage.Holds
import SchemaPlan.Proofs.InStep
import SchemaPlan.Proofs.Resolver.Relocation
import SchemaPlan.Proofs.Location.ReadingBack
import SchemaPlan.Proofs.Storage.Places
import SchemaPlan.Proofs.Location.Nesting
import SchemaPlan.Proofs.Plan.Overlap
import SchemaPlan.Proofs.Plan.Faults
import SchemaPlan.Proofs.Plan.Defaults
import SchemaPlan.Proofs.Plan.Placeholders
import SchemaPlan.Proofs.Resolver.Sharing
import SchemaPlan.Proofs.Storage.Additions
import SchemaPlan.Proofs.Storage.Packages
import SchemaPlan.Proofs.Storage.Walk
import SchemaPlan.Proofs.Plan.Callbacks
import SchemaPlan.Proofs.Checksum.Resaving
import SchemaPlan.Proofs.Plan.Copies
import SchemaPlan.Proofs.Toml.Strings
import SchemaPlan.Proofs.Toml.Documents
import SchemaPlan.Proofs.Config.Toml
import SchemaPlan.Proofs.Resolver.Naming
import SchemaPlan.Proofs.Plan.Insertion
import SchemaPlan.Proofs.Plan.Acceptance
import SchemaPlan.Proofs.Cli.Status
import SchemaPlan.Proofs.Version.Grammar
import SchemaPlan.Proofs.Version.Numbers
import SchemaPlan.Proofs.Migration.Fingerprint
import SchemaPlan.Proofs.NameScheme.Spelling
import SchemaPlan.Proofs.Text.ByteOrder
import SchemaPlan.Proofs.Replacer
import SchemaPlan.Proofs.Checksum.Lines
import SchemaPlan.Proofs.Checksum.Edits
import SchemaPlan.Proofs.Location.NormalForm
import SchemaPlan.Proofs.Text.Replacing
import SchemaPlan.Proofs.Environment
import SchemaPlan.Proofs.Replacer.Lines
import SchemaPlan.Proofs.NameScheme.Samples
import SchemaPlan.Proofs.Plan.Questions
import SchemaPlan.Proofs.Plan.Sorting
import SchemaPlan.Proofs.Location.NormalPaths
import SchemaPlan.Proofs.Location.Enclosing
import SchemaPlan.Proofs.Location.Segments
import SchemaPlan.Proofs.Location.Directories
