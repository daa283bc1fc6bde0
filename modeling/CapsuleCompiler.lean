import CapsuleCompiler.Artifact
import CapsuleCompiler.Assembly
import CapsuleCompiler.Cache
import CapsuleCompiler.Capsule
import CapsuleCompiler.Catalog
import CapsuleCompiler.CommandLine.Arguments
import CapsuleCompiler.CommandLine.Report
import CapsuleCompiler.CommandLine.Run
import CapsuleCompiler.CommandLine.Usage
import CapsuleCompiler.Compilation
import CapsuleCompiler.Composition
import CapsuleCompiler.Config
import CapsuleCompiler.Decimal.Binary64
import CapsuleCompiler.Decimal.Layout
import CapsuleCompiler.Decimal.Shortest
import CapsuleCompiler.Diagnostic
import CapsuleCompiler.Dict
import CapsuleCompiler.Digest.Sha256
import CapsuleCompiler.Document.Artifact
import CapsuleCompiler.Document.Basic
import CapsuleCompiler.Document.Capsule
import CapsuleCompiler.Document.Composition
import CapsuleCompiler.Document.Config
import CapsuleCompiler.Document.Diagnostic
import CapsuleCompiler.Error
import CapsuleCompiler.Export
import CapsuleCompiler.Extraction
import CapsuleCompiler.File.Access
import CapsuleCompiler.File.Path
import CapsuleCompiler.File.Tree
import CapsuleCompiler.Fingerprint
import CapsuleCompiler.Generator
import CapsuleCompiler.Graph.Basic
import CapsuleCompiler.Graph.Cycles
import CapsuleCompiler.Graph.Order
import CapsuleCompiler.Host
import CapsuleCompiler.Ident
import CapsuleCompiler.Import.Bindings
import CapsuleCompiler.Import.Line
import CapsuleCompiler.Json.Bracket
import CapsuleCompiler.Json.Fault
import CapsuleCompiler.Json.Number
import CapsuleCompiler.Json.Printer
import CapsuleCompiler.Json.Reader
import CapsuleCompiler.Json.Record
import CapsuleCompiler.Json.Token
import CapsuleCompiler.Json.Value
import CapsuleCompiler.Main
import CapsuleCompiler.Markup.Attribute
import CapsuleCompiler.Markup.Element
import CapsuleCompiler.Markup.Escape
import CapsuleCompiler.Module
import CapsuleCompiler.Naming
import CapsuleCompiler.Plan
import CapsuleCompiler.Port
import CapsuleCompiler.Project
import CapsuleCompiler.Proofs.Compilation.Edges
import CapsuleCompiler.Proofs.Compilation.Extension
import CapsuleCompiler.Proofs.Compilation.Fingerprint
import CapsuleCompiler.Proofs.Compilation.Links
import CapsuleCompiler.Proofs.Compilation.NodeOrder
import CapsuleCompiler.Proofs.Compilation.References
import CapsuleCompiler.Proofs.Compilation.Stages
import CapsuleCompiler.Proofs.Decimal.Interval
import CapsuleCompiler.Proofs.Decimal.Notation
import CapsuleCompiler.Proofs.Decimal.Shortest
import CapsuleCompiler.Proofs.Document.RoundTrip
import CapsuleCompiler.Proofs.Fallible
import CapsuleCompiler.Proofs.File.Components
import CapsuleCompiler.Proofs.File.Downward
import CapsuleCompiler.Proofs.File.Places
import CapsuleCompiler.Proofs.File.Writing
import CapsuleCompiler.Proofs.Generation.Files
import CapsuleCompiler.Proofs.Generation.Flow
import CapsuleCompiler.Proofs.Generation.Guide
import CapsuleCompiler.Proofs.Generation.MainFile
import CapsuleCompiler.Proofs.Generation.Paths
import CapsuleCompiler.Proofs.Generation.Prelude
import CapsuleCompiler.Proofs.Generation.Props
import CapsuleCompiler.Proofs.Generation.ReferenceBindings
import CapsuleCompiler.Proofs.Generation.Rendering
import CapsuleCompiler.Proofs.Generation.Scope
import CapsuleCompiler.Proofs.Generation.State
import CapsuleCompiler.Proofs.Generation.StateNames
import CapsuleCompiler.Proofs.Generation.Success
import CapsuleCompiler.Proofs.Generation.Symbols
import CapsuleCompiler.Proofs.Generation.Title
import CapsuleCompiler.Proofs.Generation.Wiring
import CapsuleCompiler.Proofs.Graph.Adjacency
import CapsuleCompiler.Proofs.Graph.Built
import CapsuleCompiler.Proofs.Graph.CycleSearch
import CapsuleCompiler.Proofs.Graph.DepthFirst
import CapsuleCompiler.Proofs.Graph.FinishOrder
import CapsuleCompiler.Proofs.Graph.FirstPath
import CapsuleCompiler.Proofs.Graph.ReportedCycles
import CapsuleCompiler.Proofs.Host.History
import CapsuleCompiler.Proofs.Host.Interleaving
import CapsuleCompiler.Proofs.Host.Memory
import CapsuleCompiler.Proofs.Host.Sharing
import CapsuleCompiler.Proofs.Import.Bindings
import CapsuleCompiler.Proofs.Import.Grammar
import CapsuleCompiler.Proofs.Import.Merging
import CapsuleCompiler.Proofs.Json.Integers
import CapsuleCompiler.Proofs.Json.Origin
import CapsuleCompiler.Proofs.Json.Printer
import CapsuleCompiler.Proofs.Json.Reader
import CapsuleCompiler.Proofs.Json.Record
import CapsuleCompiler.Proofs.Json.Strings
import CapsuleCompiler.Proofs.Markup.AttributeValues
import CapsuleCompiler.Proofs.Markup.CharacterReferences
import CapsuleCompiler.Proofs.Markup.EscapedText
import CapsuleCompiler.Proofs.Position.Cuts
import CapsuleCompiler.Proofs.Position.InRange
import CapsuleCompiler.Proofs.Position.Kebab
import CapsuleCompiler.Proofs.Position.Marks
import CapsuleCompiler.Proofs.Position.Rendering
import CapsuleCompiler.Proofs.Template.Braces
import CapsuleCompiler.Proofs.Template.Placeholders
import CapsuleCompiler.Proofs.Template.Segments
import CapsuleCompiler.Proofs.Template.Substitution
import CapsuleCompiler.Proofs.Text.CanonicalForm
import CapsuleCompiler.Proofs.Text.Content
import CapsuleCompiler.Proofs.Text.Kebab
import CapsuleCompiler.Proofs.Text.Lines
import CapsuleCompiler.Proofs.Text.Names
import CapsuleCompiler.Proofs.Text.Recovery
import CapsuleCompiler.Proofs.Text.Trimming
import CapsuleCompiler.Proofs.Text.Words
import CapsuleCompiler.Proofs.Unit.Collection
import CapsuleCompiler.Proofs.Unit.Conservation
import CapsuleCompiler.Proofs.Unit.Directive
import CapsuleCompiler.Proofs.Unit.Extraction
import CapsuleCompiler.Proofs.Unit.Gathering
import CapsuleCompiler.Proofs.Unit.Header
import CapsuleCompiler.Proofs.Unit.Modules
import CapsuleCompiler.Proofs.Unit.Prefixes
import CapsuleCompiler.Proofs.Unit.References
import CapsuleCompiler.Proofs.Unit.Stripping
import CapsuleCompiler.Proofs.Validation.Findings
import CapsuleCompiler.Proofs.Validation.Unbinding
import CapsuleCompiler.Reference
import CapsuleCompiler.Report
import CapsuleCompiler.Shape
import CapsuleCompiler.State
import CapsuleCompiler.Template
import CapsuleCompiler.Text.Blank
import CapsuleCompiler.Text.Lines
import CapsuleCompiler.Text.Quoted
import CapsuleCompiler.Text.Visible
import CapsuleCompiler.Unit
import CapsuleCompiler.Validation
