import EditMining.Abstraction
import EditMining.Abstraction.Assignments
import EditMining.Abstraction.FunctionNames
import EditMining.Abstraction.ReservedNames
import EditMining.Alignment
import EditMining.Alignment.EditScript
import EditMining.Arithmetic
import EditMining.CommandLine.Execution
import EditMining.CommandLine.Options
import EditMining.CommandLine.Report
import EditMining.CommandLine.Request
import EditMining.Confidence
import EditMining.Configuration
import EditMining.Configuration.Files
import EditMining.Configuration.Reading
import EditMining.Configuration.Validity
import EditMining.Configuration.Writing
import EditMining.Configuration.Yaml
import EditMining.Decimal.Integer
import EditMining.Decimal.Layout
import EditMining.Decimal.Natural
import EditMining.Decimal.Real
import EditMining.Decimal.Shortest
import EditMining.Decimal.Tenths
import EditMining.Distinct
import EditMining.Documents
import EditMining.Error
import EditMining.Filter
import EditMining.Hunk
import EditMining.Json.Basic
import EditMining.Json.Fields
import EditMining.Json.Lexeme
import EditMining.Json.Parser
import EditMining.Json.Printer
import EditMining.Language
import EditMining.Language.Lexer
import EditMining.Language.Tokenizer
import EditMining.Main
import EditMining.Mining
import EditMining.Oracle
import EditMining.Oracle.External
import EditMining.Oracle.Lexical
import EditMining.Oracle.Script
import EditMining.Pattern
import EditMining.Pattern.Maximal
import EditMining.Pattern.Merge
import EditMining.Pattern.Validity
import EditMining.Pipeline
import EditMining.Placeholder
import EditMining.Sequencing
import EditMining.Shard
import EditMining.Shard.Store
import EditMining.Shell.Execution
import EditMining.Shell.Expansion
import EditMining.Shell.Format
import EditMining.Shell.Glob
import EditMining.Shell.Machine
import EditMining.Shell.Parser
import EditMining.Shell.Program
import EditMining.Shell.Signal
import EditMining.Shell.Syntax
import EditMining.Shell.Utilities
import EditMining.Storage
import EditMining.Storage.FileTree
import EditMining.Structure.Diff
import EditMining.Structure.Node
import EditMining.Text.Alphanumeric
import EditMining.Text.Blank
import EditMining.Text.Columns
import EditMining.Text.Lines
import EditMining.Text.Pieces
import EditMining.Text.Printable
import EditMining.Text.Quoted
import EditMining.Text.Search
import EditMining.Text.Utf8
import EditMining.Timestamp
import EditMining.Token
import EditMining.TokenDiff
import EditMining.Yaml.Basic
import EditMining.Yaml.Cursor
import EditMining.Yaml.Parser
import EditMining.Yaml.Printer
import EditMining.Yaml.Scalar
import EditMining.Yaml.Scanner
import EditMining.Proofs.Order
import EditMining.Proofs.SearchTree
import EditMining.Proofs.Mining
import EditMining.Proofs.Totals
import EditMining.Proofs.Merge
import EditMining.Proofs.Sessions
import EditMining.Proofs.CountingInPlace
import EditMining.Proofs.RecordOutcomes
import EditMining.Proofs.AcceptedConfigurations
import EditMining.Proofs.PipelineSessions
import EditMining.Proofs.ShardedMining
import EditMining.Proofs.AlignedBlocks
import EditMining.Proofs.EditScript
import EditMining.Proofs.LongestRuns
import EditMining.Proofs.RecursiveAlignment
import EditMining.Proofs.OrderIndependence
import EditMining.Proofs.TokenDiff
import EditMining.Proofs.DiffShape
import EditMining.Proofs.UnchangedSides
import EditMining.Proofs.MaximalRuns
import EditMining.Proofs.PositionSearch
import EditMining.Proofs.Containment
import EditMining.Proofs.Maximal
import EditMining.Proofs.Survivors
import EditMining.Proofs.Matching
import EditMining.Proofs.MergingInStages
import EditMining.Proofs.Filtering
import EditMining.Proofs.FilteredAgain
import EditMining.Proofs.FailedRecords
import EditMining.Proofs.Recognition
import EditMining.Proofs.Runs
import EditMining.Proofs.Lexemes
import EditMining.Proofs.LexicalMatches
import EditMining.Proofs.Placeholders
import EditMining.Proofs.AbstractionTwice
import EditMining.Proofs.PlainValues
import EditMining.Proofs.NameRenaming
import EditMining.Proofs.LineDistinction
import EditMining.Proofs.BoundedReplacement
import EditMining.Proofs.FusedRegex
import EditMining.Proofs.ShardBounds
import EditMining.Proofs.DocumentRoundTrip
import EditMining.Proofs.FileTree
import EditMining.Proofs.ShardStore
import EditMining.Proofs.Commands
import EditMining.Proofs.Preparation
import EditMining.Proofs.UpdatedLines
import EditMining.Proofs.MinedShards
import EditMining.Proofs.Stages
import EditMining.Proofs.ReportingOrder
import EditMining.Proofs.SupportThreshold
import EditMining.Proofs.MiningRounds
import EditMining.Proofs.ProjectedDatabases
import EditMining.Proofs.ShardHistory
import EditMining.Proofs.BracketScan
import EditMining.Proofs.QuotedTokens
import EditMining.Proofs.StoredDocuments
import EditMining.Proofs.FunctionRenaming
import EditMining.Proofs.WrittenNodes
import EditMining.Proofs.BracketPartners
import EditMining.Proofs.SamePieces
import EditMining.Proofs.CorpusValidation
import EditMining.Proofs.OracleCalls
import EditMining.Proofs.ShardPartition
import EditMining.Proofs.PlaceholderNumbering
