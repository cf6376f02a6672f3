/-
**A shelf of JSON documents.**

All modules of the library.
-/

import JsonShelf.Binary64.Basic
import JsonShelf.Binary64.Nearest
import JsonShelf.CommandLine.Arguments
import JsonShelf.CommandLine.Program
import JsonShelf.Config.File
import JsonShelf.Config.Settings
import JsonShelf.Decimal.Rounding
import JsonShelf.Decimal.Shortest
import JsonShelf.Files.Call
import JsonShelf.Files.FileSystem
import JsonShelf.Files.Tree
import JsonShelf.Glob.Basic
import JsonShelf.Glob.Parser
import JsonShelf.Health
import JsonShelf.Json.Basic
import JsonShelf.Json.Members
import JsonShelf.Json.Number
import JsonShelf.Json.ParseError
import JsonShelf.Json.Parser
import JsonShelf.Json.Path
import JsonShelf.Json.Payload
import JsonShelf.Json.Printer
import JsonShelf.Json.TextList
import JsonShelf.JsonSchema.Basic
import JsonShelf.JsonSchema.Published
import JsonShelf.Listing
import JsonShelf.Main
import JsonShelf.Maintenance.Conformance
import JsonShelf.Maintenance.Console
import JsonShelf.Maintenance.Program
import JsonShelf.Maintenance.Schemas
import JsonShelf.Paths.Components
import JsonShelf.Paths.DocPath
import JsonShelf.Records.Identity
import JsonShelf.Records.Mutation
import JsonShelf.Report.Markdown
import JsonShelf.Report.Size
import JsonShelf.Report.Text
import JsonShelf.Scan.Discovery
import JsonShelf.Scan.Policy
import JsonShelf.Script
import JsonShelf.Sha256
import JsonShelf.Shape.Basic
import JsonShelf.Shape.Document
import JsonShelf.Shape.Infer
import JsonShelf.Shelf.Documents
import JsonShelf.Shelf.Error
import JsonShelf.Shelf.Inspection
import JsonShelf.Shelf.Records
import JsonShelf.Snapshot
import JsonShelf.Store.Call
import JsonShelf.Store.Directory
import JsonShelf.Store.Memory
import JsonShelf.Text.Blank
import JsonShelf.Text.Invisible
import JsonShelf.Text.Layout
import JsonShelf.Text.Position
import JsonShelf.Text.Quoted
import JsonShelf.Timestamp
import JsonShelf.Toml.Parser
import JsonShelf.Toml.Scalar
import JsonShelf.Toml.Table
import JsonShelf.Toml.Text
import JsonShelf.Toml.Value
import JsonShelf.Validation.Check
import JsonShelf.Validation.Issue
import JsonShelf.Zod.Expression
import JsonShelf.Zod.Literal
import JsonShelf.Zod.Module
import JsonShelf.Zod.Names
import JsonShelf.Proofs.Binary64.Rounding
import JsonShelf.Proofs.Decimal.Digits
import JsonShelf.Proofs.Decimal.ReadsBack
import JsonShelf.Proofs.Json.NumberText
import JsonShelf.Proofs.Json.Members
import JsonShelf.Proofs.Json.Nesting
import JsonShelf.Proofs.Json.StringText
import JsonShelf.Proofs.Computation
import JsonShelf.Proofs.Json.RoundTrip
import JsonShelf.Proofs.Files.ReadAfterWrite
import JsonShelf.Proofs.Store.Faithful
import JsonShelf.Proofs.Records.Depth
import JsonShelf.Proofs.Shelf.Readable
import JsonShelf.Proofs.Binary64.Order
import JsonShelf.Proofs.Records.NextId
import JsonShelf.Proofs.Records.FreshId
import JsonShelf.Proofs.Records.Identified
import JsonShelf.Proofs.Records.AssignedId
import JsonShelf.Proofs.Json.Paths
import JsonShelf.Proofs.Json.ReadingOrder
import JsonShelf.Proofs.Json.Reordering
import JsonShelf.Proofs.Shape.Union
import JsonShelf.Proofs.Shape.NormalForm
import JsonShelf.Proofs.Shape.NormalUnion
import JsonShelf.Proofs.Shape.UnionLaws
import JsonShelf.Proofs.Shape.Parts
import JsonShelf.Proofs.Shape.Pruning
import JsonShelf.Proofs.Shape.Steps
import JsonShelf.Proofs.Validation.Conformance
import JsonShelf.Proofs.Validation.Findings
import JsonShelf.Proofs.Validation.IssueOrder
import JsonShelf.Proofs.Validation.KeyOrder
import JsonShelf.Proofs.Validation.Reasons
import JsonShelf.Proofs.Validation.SelfCheck
import JsonShelf.Proofs.Text.Lines
import JsonShelf.Proofs.Zod.Literals
import JsonShelf.Proofs.Zod.Parts
import JsonShelf.Proofs.Zod.Reader
import JsonShelf.Proofs.Zod.Reading
import JsonShelf.Proofs.Zod.Expressions
import JsonShelf.Proofs.Zod.OwnKeys
import JsonShelf.Proofs.Zod.Acceptance
import JsonShelf.Proofs.Zod.Samples
import JsonShelf.Proofs.Zod.Sampling
import JsonShelf.Proofs.Zod.NameForms
import JsonShelf.Proofs.Zod.Clashes
import JsonShelf.Proofs.Zod.Coverage
import JsonShelf.Proofs.Zod.NameOrder
import JsonShelf.Proofs.Zod.Indentation
import JsonShelf.Proofs.Zod.Declarations
import JsonShelf.Proofs.Zod.Injection
import JsonShelf.Proofs.Paths.Containment
import JsonShelf.Proofs.Config.SchemaOut
import JsonShelf.Proofs.Paths.Arguments
import JsonShelf.Proofs.CommandLine.Targets
import JsonShelf.Proofs.CommandLine.Verdicts
import JsonShelf.Proofs.Text.ByteOrder
import JsonShelf.Proofs.Scan.Names
import JsonShelf.Proofs.Scan.Walk
import JsonShelf.Proofs.Scan.Order
import JsonShelf.Proofs.Files.Below
import JsonShelf.Proofs.Scan.Listing
import JsonShelf.Proofs.Files.Kinds
import JsonShelf.Proofs.Paths.Parent
import JsonShelf.Proofs.Files.Directories
import JsonShelf.Proofs.Files.NewFile
import JsonShelf.Proofs.Files.OneFile
import JsonShelf.Proofs.Store.Mirror
import JsonShelf.Proofs.Store.Interchange
import JsonShelf.Proofs.Store.Effects
import JsonShelf.Proofs.Shelf.Attempts
import JsonShelf.Proofs.Shelf.Requests
import JsonShelf.Proofs.Shelf.Clients
import JsonShelf.Proofs.Shelf.Stored
import JsonShelf.Proofs.Shelf.Listed
import JsonShelf.Proofs.Zod.Regeneration
import JsonShelf.Proofs.Records.ExactId
import JsonShelf.Proofs.Records.OnePlace
import JsonShelf.Proofs.Records.Patches
import JsonShelf.Proofs.Records.Commuting
import JsonShelf.Proofs.Paths.Spelling
import JsonShelf.Proofs.Scan.Pruning
import JsonShelf.Proofs.Scan.Stricter
import JsonShelf.Proofs.Files.Leftovers
import JsonShelf.Proofs.Store.FailedWrites
import JsonShelf.Proofs.Json.Payload
import JsonShelf.Proofs.Paths.Payloads
import JsonShelf.Proofs.Shape.ReadBack
import JsonShelf.Proofs.Validation.ReadBack
import JsonShelf.Proofs.Json.Places
import JsonShelf.Proofs.Snapshot.Times
import JsonShelf.Proofs.Zod.Escapes
import JsonShelf.Proofs.Json.Depth
import JsonShelf.Proofs.Paths.Normalising
