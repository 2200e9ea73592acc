import Retype.AliasTable
import Retype.Command.Arguments
import Retype.Command.Execution
import Retype.Command.Invocation
import Retype.Component.Analysis
import Retype.Component.Classification
import Retype.Component.Complexity
import Retype.Component.Hooks
import Retype.Component.Imports
import Retype.Component.LegacyType
import Retype.Component.Literal
import Retype.Component.Pattern
import Retype.Component.Profile
import Retype.Component.Property
import Retype.Component.Record
import Retype.Component.Synthesis
import Retype.Component.TypeText
import Retype.Corpus.Batches
import Retype.Corpus.Discovery
import Retype.Corpus.Graph
import Retype.Corpus.Ignore
import Retype.Corpus.Links
import Retype.Corpus.Planning
import Retype.Corpus.Report
import Retype.Corpus.Threshold
import Retype.Decimal.Binary
import Retype.Decimal.Numeral
import Retype.Decimal.Shortest
import Retype.Edit
import Retype.Fault
import Retype.Json.Comparison
import Retype.Json.Conversion
import Retype.Json.Flaw
import Retype.Json.Literal
import Retype.Json.Printer
import Retype.Json.Reader
import Retype.Json.Value
import Retype.Keyed
import Retype.Language
import Retype.Main
import Retype.Module.Declaration
import Retype.Module.Markup
import Retype.Module.Vocabulary
import Retype.Order
import Retype.Path
import Retype.Project.Config
import Retype.Project.ConfigError
import Retype.Project.Reading
import Retype.Project.Scoring
import Retype.Project.Settings
import Retype.Project.Trouble
import Retype.Project.Workspace
import Retype.Proofs.Component.Finding
import Retype.Proofs.Component.Readings
import Retype.Proofs.Corpus.Arrangement
import Retype.Proofs.Corpus.Dealing
import Retype.Proofs.Corpus.Reach
import Retype.Proofs.Edit.Splicing
import Retype.Proofs.Edit.Survival
import Retype.Proofs.Json.Quoting
import Retype.Proofs.Keyed
import Retype.Proofs.Module.Statements
import Retype.Proofs.Order
import Retype.Proofs.Path.Climbing
import Retype.Proofs.Path.Normal
import Retype.Proofs.Path.Specifier
import Retype.Proofs.Project.Files
import Retype.Proofs.Project.Scores
import Retype.Proofs.Project.Writing
import Retype.Proofs.Retyping.Additions
import Retype.Proofs.Retyping.Collision
import Retype.Proofs.Retyping.Imports
import Retype.Proofs.Retyping.Literals
import Retype.Proofs.Retyping.Places
import Retype.Proofs.Retyping.Rest
import Retype.Proofs.Run.Copying
import Retype.Proofs.Run.Course
import Retype.Proofs.Run.Coverage
import Retype.Proofs.Run.Equivalence
import Retype.Proofs.Run.Flow
import Retype.Proofs.Run.Progress
import Retype.Proofs.Run.Safety
import Retype.Proofs.Run.Shards
import Retype.Proofs.Run.Vault
import Retype.Proofs.Text.Utf8
import Retype.Proofs.Tree.Nesting
import Retype.Resolver
import Retype.Retyping.Edits
import Retype.Retyping.Unit
import Retype.Roadmap.Batch
import Retype.Roadmap.File
import Retype.Run.Archive
import Retype.Run.Checkpoint
import Retype.Run.Column
import Retype.Run.Item
import Retype.Run.Ledger
import Retype.Run.LedgerFile
import Retype.Run.Memory
import Retype.Run.Outcome
import Retype.Run.Phase
import Retype.Run.Progress
import Retype.Run.Runner
import Retype.Run.Shards
import Retype.Run.TypeCheck
import Retype.Text.Affix
import Retype.Text.Alphabet
import Retype.Text.Blank
import Retype.Text.Digest
import Retype.Text.Glob
import Retype.Text.Half
import Retype.Text.Printable
import Retype.Text.Quoted
import Retype.Text.Utf8
import Retype.Tree.Node
import Retype.Tree.Reader
import Retype.Tree.Source
import Retype.Proofs.Corpus.Arrows
import Retype.Proofs.Corpus.Cycles
import Retype.Proofs.Corpus.Dependencies
import Retype.Proofs.Path.Extension
import Retype.Proofs.Run.Targets
import Retype.Proofs.Run.Again
import Retype.Proofs.Run.Failing
import Retype.Proofs.Run.Inheritance
import Retype.Proofs.Run.Keeping
import Retype.Proofs.Run.Calls
import Retype.Proofs.Run.Rehearsal
import Retype.Proofs.Run.Leaving
import Retype.Proofs.Run.Recall
import Retype.Proofs.Edit.Substitution
import Retype.Proofs.Retyping.Prologue
import Retype.Proofs.Path.Shortest
import Retype.Proofs.Run.Records
import Retype.Proofs.Path.Within
import Retype.Proofs.Path.Twice
import Retype.Proofs.Corpus.Probing
import Retype.Proofs.Module.Returns
import Retype.Proofs.Text.Alphabet
import Retype.Proofs.Component.Merging
import Retype.Proofs.Component.Defaults
import Retype.Proofs.Component.Denotation
import Retype.Proofs.Component.RuntimeTypes
import Retype.Proofs.Text.Lines
import Retype.Proofs.Text.Identifier
import Retype.Proofs.Component.Naming
import Retype.Proofs.Retyping.Attachment
import Retype.Proofs.Retyping.Binding
import Retype.Proofs.Tree.Likeness
import Retype.Proofs.Module.Likeness
import Retype.Proofs.Component.Likeness
import Retype.Proofs.Component.Spared
import Retype.Proofs.Component.Ownership
import Retype.Proofs.Component.Filing
import Retype.Proofs.Corpus.Precedence
import Retype.Proofs.Retyping.StateTypes
import Retype.Proofs.Path.Seated
import Retype.Proofs.Project.Deepest
import Retype.Proofs.Project.Retargeting
import Retype.Proofs.Run.Damage
import Retype.Proofs.Project.Loaded
import Retype.Proofs.Roadmap.Acceptance
import Retype.Proofs.Run.History
import Retype.Proofs.Run.Bookkeeping
import Retype.Proofs.Component.Growth
import Retype.Proofs.Corpus.Drawing
import Retype.Proofs.Run.Reporting
import Retype.Proofs.Run.Schedule
