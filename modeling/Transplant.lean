import Transplant.Adapt.Basic
import Transplant.Adapt.Defaults
import Transplant.Adapt.Header
import Transplant.Adapt.Identifiers
import Transplant.Adapt.Specifiers
import Transplant.Adapt.TestAttributes
import Transplant.CommandLine.Arguments
import Transplant.CommandLine.Flag
import Transplant.CommandLine.Job
import Transplant.CommandLine.Program
import Transplant.CommandLine.Token
import Transplant.Component.Analysis
import Transplant.Component.Descriptor
import Transplant.Component.Effects
import Transplant.Component.Error
import Transplant.Component.Expression
import Transplant.Component.Imports
import Transplant.Component.Interactions
import Transplant.Component.Names
import Transplant.Component.Outside
import Transplant.Component.Props
import Transplant.Component.Site
import Transplant.Component.Visibility
import Transplant.Config.Error
import Transplant.Config.File
import Transplant.Config.Settings
import Transplant.Data.Fault
import Transplant.Data.Json
import Transplant.Data.Moment
import Transplant.Data.Table
import Transplant.Data.Value
import Transplant.Diff.Summary
import Transplant.Files.Access
import Transplant.Files.Changes
import Transplant.Files.Tree
import Transplant.Grammar.ClassBody
import Transplant.Grammar.Declaration
import Transplant.Grammar.Expression
import Transplant.Grammar.Language
import Transplant.Grammar.Lexeme
import Transplant.Grammar.LineEnd
import Transplant.Grammar.Literal
import Transplant.Grammar.Markup
import Transplant.Grammar.ModuleItem
import Transplant.Grammar.Parse
import Transplant.Grammar.Pattern
import Transplant.Grammar.Peg
import Transplant.Grammar.Reading
import Transplant.Grammar.Repair
import Transplant.Grammar.Rule
import Transplant.Grammar.Stack
import Transplant.Grammar.Statement
import Transplant.Grammar.Types
import Transplant.Grammar.Word
import Transplant.Main
import Transplant.Migration.Commit
import Transplant.Migration.Discovery
import Transplant.Migration.Failure
import Transplant.Migration.Job
import Transplant.Migration.Run
import Transplant.Migration.Schedule
import Transplant.Migration.Work
import Transplant.Number.Binary64
import Transplant.Number.Integer
import Transplant.Path.Lexical
import Transplant.Path.Pure
import Transplant.Plan.Basic
import Transplant.Plan.Batch
import Transplant.Plan.Naming
import Transplant.Plan.Registry
import Transplant.Plan.Siblings
import Transplant.Project.Metadata
import Transplant.Proofs.Adapt.Again
import Transplant.Proofs.Adapt.Apart
import Transplant.Proofs.Adapt.Mismatch
import Transplant.Proofs.Adapt.NamedImports
import Transplant.Proofs.Adapt.Overlaps
import Transplant.Proofs.Adapt.Placement
import Transplant.Proofs.Adapt.Reading
import Transplant.Proofs.Adapt.Renaming
import Transplant.Proofs.Adapt.Styles
import Transplant.Proofs.Comments.Descriptor
import Transplant.Proofs.Comments.Expression
import Transplant.Proofs.Comments.Props
import Transplant.Proofs.Comments.Site
import Transplant.Proofs.Comments.Tree
import Transplant.Proofs.Component.Binding
import Transplant.Proofs.Component.Closed
import Transplant.Proofs.Component.Declarations
import Transplant.Proofs.Component.Gate
import Transplant.Proofs.Component.Hoisting
import Transplant.Proofs.Component.Places
import Transplant.Proofs.Component.Rendering
import Transplant.Proofs.Component.Schema
import Transplant.Proofs.Component.Writes
import Transplant.Proofs.Config.Validation
import Transplant.Proofs.Data.Digits
import Transplant.Proofs.Defaults.Agreement
import Transplant.Proofs.Defaults.Inventory
import Transplant.Proofs.Defaults.Lifts
import Transplant.Proofs.Defaults.Meaning
import Transplant.Proofs.Defaults.Moves
import Transplant.Proofs.Defaults.Preservation
import Transplant.Proofs.Defaults.Rewriting
import Transplant.Proofs.Defaults.Rewritten
import Transplant.Proofs.Defaults.Schema
import Transplant.Proofs.Defaults.Settled
import Transplant.Proofs.Defaults.Written
import Transplant.Proofs.Files.Growth
import Transplant.Proofs.Files.Listing
import Transplant.Proofs.Files.Outside
import Transplant.Proofs.Files.Written
import Transplant.Proofs.Grammar.ComponentNames
import Transplant.Proofs.Grammar.Derivations
import Transplant.Proofs.Grammar.Layout
import Transplant.Proofs.Grammar.Names
import Transplant.Proofs.Grammar.Plain
import Transplant.Proofs.Grammar.Shapes
import Transplant.Proofs.Migration.Accounting
import Transplant.Proofs.Migration.Beginning
import Transplant.Proofs.Migration.Collisions
import Transplant.Proofs.Migration.Delivery
import Transplant.Proofs.Migration.Discovery
import Transplant.Proofs.Migration.Found
import Transplant.Proofs.Migration.Inside
import Transplant.Proofs.Migration.Namespace
import Transplant.Proofs.Migration.Product
import Transplant.Proofs.Migration.Rehearsal
import Transplant.Proofs.Migration.SecondRun
import Transplant.Proofs.Migration.Sequential
import Transplant.Proofs.Migration.Writing
import Transplant.Proofs.Path.Below
import Transplant.Proofs.Path.Lexical
import Transplant.Proofs.Path.Pure
import Transplant.Proofs.Plan.Lookup
import Transplant.Proofs.Plan.Outputs
import Transplant.Proofs.Plan.Registry
import Transplant.Proofs.Plan.Respelling
import Transplant.Proofs.Plan.Siblings
import Transplant.Proofs.Plan.Target
import Transplant.Proofs.Plan.Ways
import Transplant.Proofs.Project.Metadata
import Transplant.Proofs.Project.Trouble
import Transplant.Proofs.Schedule.Order
import Transplant.Proofs.Schedule.Sequential
import Transplant.Proofs.Source.Edits
import Transplant.Proofs.Specifier.Aliases
import Transplant.Proofs.Specifier.Longest
import Transplant.Proofs.Specifier.Precedence
import Transplant.Proofs.Specifier.Spelling
import Transplant.Proofs.TestSpec.Literal
import Transplant.Proofs.TestSpec.Located
import Transplant.Proofs.TestSpec.Renderings
import Transplant.Proofs.Text.Order
import Transplant.Proofs.Text.Utf8
import Transplant.Proofs.Tree.Traversal
import Transplant.Report.Basic
import Transplant.Report.Event
import Transplant.Report.Log
import Transplant.Source.Basic
import Transplant.Source.Edit
import Transplant.Specifier.Alias
import Transplant.Specifier.Pattern
import Transplant.Specifier.Redirect
import Transplant.TestSpec.Basic
import Transplant.TestSpec.Literal
import Transplant.TestSpec.Module
import Transplant.TestSpec.Scaffold
import Transplant.Text.Basic
import Transplant.Text.Blank
import Transplant.Text.Decimal
import Transplant.Text.Identifier
import Transplant.Text.Lines
import Transplant.Text.Printable
import Transplant.Text.Quoted
import Transplant.Text.Uppercase
import Transplant.Text.Utf8
import Transplant.Toml.Document
import Transplant.Toml.Scalar
import Transplant.Tree.Kind
import Transplant.Tree.Node
import Transplant.Tree.Traversal
import Transplant.Tree.Walk
