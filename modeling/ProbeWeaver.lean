import ProbeWeaver.CType.Basic
import ProbeWeaver.CType.Integer
import ProbeWeaver.CommandLine.Command
import ProbeWeaver.CommandLine.KeptTree
import ProbeWeaver.CommandLine.Options
import ProbeWeaver.CommandLine.Session
import ProbeWeaver.Config.Decode
import ProbeWeaver.Config.Load
import ProbeWeaver.Config.Settings
import ProbeWeaver.Digest.Fingerprint
import ProbeWeaver.Digest.Xxh3
import ProbeWeaver.Edit.Basic
import ProbeWeaver.Edit.Set
import ProbeWeaver.FileTree.Basic
import ProbeWeaver.FileTree.Changes
import ProbeWeaver.FileTree.Replace
import ProbeWeaver.Main
import ProbeWeaver.Marker.Category
import ProbeWeaver.Marker.Numbering
import ProbeWeaver.Marker.Probe
import ProbeWeaver.Passes.Braces
import ProbeWeaver.Passes.Condition
import ProbeWeaver.Passes.Hooks
import ProbeWeaver.Passes.Observation
import ProbeWeaver.Passes.Relocation
import ProbeWeaver.Passes.Selection
import ProbeWeaver.Passes.Tracing
import ProbeWeaver.Proofs.Config.Overrides
import ProbeWeaver.Proofs.Edit.Accumulation
import ProbeWeaver.Proofs.Edit.Application
import ProbeWeaver.Proofs.Edit.Arithmetic
import ProbeWeaver.Proofs.Edit.Arrangement
import ProbeWeaver.Proofs.Edit.Arrivals
import ProbeWeaver.Proofs.Edit.Chains
import ProbeWeaver.Proofs.Edit.Composition
import ProbeWeaver.Proofs.Edit.Disjoint
import ProbeWeaver.Proofs.Edit.Hulls
import ProbeWeaver.Proofs.Edit.Insertions
import ProbeWeaver.Proofs.Edit.Merging
import ProbeWeaver.Proofs.Edit.Order
import ProbeWeaver.Proofs.Edit.Position
import ProbeWeaver.Proofs.Edit.Rendering
import ProbeWeaver.Proofs.Edit.Splicing
import ProbeWeaver.Proofs.Edit.Staging
import ProbeWeaver.Proofs.Edit.Straddling
import ProbeWeaver.Proofs.Edit.Touching
import ProbeWeaver.Proofs.FileTree.Discovery
import ProbeWeaver.Proofs.FileTree.Paths
import ProbeWeaver.Proofs.FileTree.Replacement
import ProbeWeaver.Proofs.Outcome
import ProbeWeaver.Proofs.Passes.Anchors
import ProbeWeaver.Proofs.Passes.FlagLines
import ProbeWeaver.Proofs.Passes.Flags
import ProbeWeaver.Proofs.Passes.HookLines
import ProbeWeaver.Proofs.Passes.HookOrder
import ProbeWeaver.Proofs.Passes.HookTargets
import ProbeWeaver.Proofs.Passes.HookTexts
import ProbeWeaver.Proofs.Passes.Hygiene
import ProbeWeaver.Proofs.Passes.Insertive
import ProbeWeaver.Proofs.Passes.Marks
import ProbeWeaver.Proofs.Passes.Pieces
import ProbeWeaver.Proofs.Passes.Quiet
import ProbeWeaver.Proofs.Passes.Rules
import ProbeWeaver.Proofs.Passes.Statements
import ProbeWeaver.Proofs.Passes.Texts
import ProbeWeaver.Proofs.Passes.Writes
import ProbeWeaver.Proofs.Query.Caching
import ProbeWeaver.Proofs.Query.Captures
import ProbeWeaver.Proofs.Rule.Choices
import ProbeWeaver.Proofs.Rule.Evaluation
import ProbeWeaver.Proofs.Rule.Insertive
import ProbeWeaver.Proofs.Rule.Offers
import ProbeWeaver.Proofs.Rule.Relations
import ProbeWeaver.Proofs.Rule.Visits
import ProbeWeaver.Proofs.Run.Abandonment
import ProbeWeaver.Proofs.Run.Blocks
import ProbeWeaver.Proofs.Run.Bodies
import ProbeWeaver.Proofs.Run.Bracing
import ProbeWeaver.Proofs.Run.Completion
import ProbeWeaver.Proofs.Run.Copies
import ProbeWeaver.Proofs.Run.Effects
import ProbeWeaver.Proofs.Run.Elements
import ProbeWeaver.Proofs.Run.Enclosures
import ProbeWeaver.Proofs.Run.Failures
import ProbeWeaver.Proofs.Run.Files
import ProbeWeaver.Proofs.Run.Flags
import ProbeWeaver.Proofs.Run.Forwards
import ProbeWeaver.Proofs.Run.Frees
import ProbeWeaver.Proofs.Run.Helpers
import ProbeWeaver.Proofs.Run.History
import ProbeWeaver.Proofs.Run.HookNumbers
import ProbeWeaver.Proofs.Run.HookWraps
import ProbeWeaver.Proofs.Run.Integers
import ProbeWeaver.Proofs.Run.Numbers
import ProbeWeaver.Proofs.Run.Outputs
import ProbeWeaver.Proofs.Run.Relocations
import ProbeWeaver.Proofs.Run.Reports
import ProbeWeaver.Proofs.Run.Separations
import ProbeWeaver.Proofs.Run.Stages
import ProbeWeaver.Proofs.Run.Trials
import ProbeWeaver.Proofs.Run.Wrapped
import ProbeWeaver.Proofs.Run.Writing
import ProbeWeaver.Proofs.Text.Occurrences
import ProbeWeaver.Proofs.Text.Slice
import ProbeWeaver.Proofs.Text.Weaving
import ProbeWeaver.Proofs.Tree.Order
import ProbeWeaver.Proofs.Tree.Places
import ProbeWeaver.Proofs.Tree.Slots
import ProbeWeaver.Proofs.Typing.Binding
import ProbeWeaver.Proofs.Typing.Conversions
import ProbeWeaver.Proofs.Typing.Elements
import ProbeWeaver.Proofs.Typing.Lookups
import ProbeWeaver.Proofs.Typing.OwnParameters
import ProbeWeaver.Proofs.Typing.Resolution
import ProbeWeaver.Proofs.Typing.Scoping
import ProbeWeaver.Proofs.Typing.Sight
import ProbeWeaver.Proofs.Typing.Sketches
import ProbeWeaver.Proofs.Typing.Spelling
import ProbeWeaver.Proofs.Typing.Unwinding
import ProbeWeaver.Query.Cache
import ProbeWeaver.Query.Finding
import ProbeWeaver.Query.Grammar
import ProbeWeaver.Query.Parts
import ProbeWeaver.Query.Pattern
import ProbeWeaver.Query.Reader
import ProbeWeaver.Rule.Basic
import ProbeWeaver.Rule.Match
import ProbeWeaver.Rule.Pass
import ProbeWeaver.Rule.Set
import ProbeWeaver.Run.Pipeline
import ProbeWeaver.Run.Stage
import ProbeWeaver.Run.Summary
import ProbeWeaver.SourceScope
import ProbeWeaver.SourceUnit
import ProbeWeaver.Text.Cut
import ProbeWeaver.Text.Json
import ProbeWeaver.Text.LineDiff
import ProbeWeaver.Text.Middle
import ProbeWeaver.Text.Number
import ProbeWeaver.Text.Position
import ProbeWeaver.Text.Printable
import ProbeWeaver.Text.Quoted
import ProbeWeaver.Text.Search
import ProbeWeaver.Text.Symbol
import ProbeWeaver.Text.Utf8
import ProbeWeaver.Toml.Document
import ProbeWeaver.Toml.Token
import ProbeWeaver.Toml.Value
import ProbeWeaver.Tree.Basic
import ProbeWeaver.Tree.Kind
import ProbeWeaver.Tree.Notation
import ProbeWeaver.Tree.Structure
import ProbeWeaver.Typing.Declarator
import ProbeWeaver.Typing.Expression
import ProbeWeaver.Typing.Literal
import ProbeWeaver.Typing.NameTable
import ProbeWeaver.Typing.Scope
import ProbeWeaver.Proofs.Passes.Balance
import ProbeWeaver.Proofs.Run.Brackets
import ProbeWeaver.Proofs.Text.Parentheses
import ProbeWeaver.Proofs.Typing.Arithmetic
import ProbeWeaver.Proofs.Typing.Legibility
import ProbeWeaver.Proofs.Typing.Lengths
import ProbeWeaver.Proofs.Typing.Literals
