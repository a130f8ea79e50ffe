import ImportSync.Aggregator.Basic
import ImportSync.Aggregator.Harvest
import ImportSync.CommandLine
import ImportSync.Exports
import ImportSync.Failure
import ImportSync.Generated
import ImportSync.Ignore.Glob
import ImportSync.Ignore.Rules
import ImportSync.Json
import ImportSync.Main
import ImportSync.Path
import ImportSync.Report
import ImportSync.Settings.Arguments
import ImportSync.Settings.Basic
import ImportSync.Settings.Load
import ImportSync.Settings.OptionsFile
import ImportSync.Settings.Rules
import ImportSync.Sync.Basic
import ImportSync.Sync.Run
import ImportSync.Syntax.Grammar
import ImportSync.Syntax.Grammar.Classes
import ImportSync.Syntax.Grammar.Declarations
import ImportSync.Syntax.Grammar.Expressions
import ImportSync.Syntax.Grammar.Functions
import ImportSync.Syntax.Grammar.Markup
import ImportSync.Syntax.Grammar.Modules
import ImportSync.Syntax.Grammar.Signatures
import ImportSync.Syntax.Grammar.Statements
import ImportSync.Syntax.Grammar.Types
import ImportSync.Syntax.Parser
import ImportSync.Syntax.Scan
import ImportSync.Syntax.Statement
import ImportSync.Syntax.Token
import ImportSync.Text.Basic
import ImportSync.Text.Identifier
import ImportSync.Text.Lowercase
import ImportSync.Text.Utf8
import ImportSync.Tree
import ImportSync.Proofs.AggregatorNames
import ImportSync.Proofs.Cache
import ImportSync.Proofs.Cleaning
import ImportSync.Proofs.Collecting
import ImportSync.Proofs.Conflicts
import ImportSync.Proofs.Contributions
import ImportSync.Proofs.Denotation
import ImportSync.Proofs.Drafts
import ImportSync.Proofs.Effects
import ImportSync.Proofs.Extensions
import ImportSync.Proofs.Failures
import ImportSync.Proofs.Foresight
import ImportSync.Proofs.Identity
import ImportSync.Proofs.Layering
import ImportSync.Proofs.Layouts
import ImportSync.Proofs.Leniency
import ImportSync.Proofs.Mentions
import ImportSync.Proofs.NameSets
import ImportSync.Proofs.Order
import ImportSync.Proofs.Outcomes
import ImportSync.Proofs.Overlaps
import ImportSync.Proofs.OwnFile
import ImportSync.Proofs.Paths
import ImportSync.Proofs.PlainTrees
import ImportSync.Proofs.Purge
import ImportSync.Proofs.ReadBack
import ImportSync.Proofs.Reading
import ImportSync.Proofs.Recognition
import ImportSync.Proofs.References
import ImportSync.Proofs.Relative
import ImportSync.Proofs.Removal
import ImportSync.Proofs.Renaming
import ImportSync.Proofs.Rerun
import ImportSync.Proofs.Rounds
import ImportSync.Proofs.Scans
import ImportSync.Proofs.Schedules
import ImportSync.Proofs.Sorting
import ImportSync.Proofs.Spelling
import ImportSync.Proofs.Steps
import ImportSync.Proofs.Templates
import ImportSync.Proofs.Text
import ImportSync.Proofs.Trees
import ImportSync.Proofs.Unambiguity
import ImportSync.Proofs.Utf8
import ImportSync.Proofs.Walks
