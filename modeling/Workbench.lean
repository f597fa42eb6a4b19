import Workbench.Adapter
import Workbench.Cancellation
import Workbench.Catalog
import Workbench.CommandLine.Invocation
import Workbench.CommandLine.Options
import Workbench.CommandLine.Run
import Workbench.Config.Effective
import Workbench.Config.Layer
import Workbench.Config.Server
import Workbench.DetectedFile
import Workbench.Digest
import Workbench.Entries
import Workbench.Exclude
import Workbench.Executor
import Workbench.Executor.Job
import Workbench.Extract
import Workbench.FileTree
import Workbench.Format
import Workbench.Format.Ini
import Workbench.Format.PlainText
import Workbench.Format.Requirements
import Workbench.Format.SetupScript
import Workbench.Format.Toml
import Workbench.Format.Toml.Table
import Workbench.Format.Toml.Value
import Workbench.Format.Yaml
import Workbench.Format.Yaml.Block
import Workbench.Format.Yaml.Document
import Workbench.Format.Yaml.Events
import Workbench.Format.Yaml.Node
import Workbench.Format.Yaml.Place
import Workbench.Format.Yaml.Scalar
import Workbench.Format.Yaml.Token
import Workbench.Format.Yaml.Tokens
import Workbench.Glob
import Workbench.Instant
import Workbench.Json.Basic
import Workbench.Json.Canonical
import Workbench.Json.Decode
import Workbench.Json.Printer
import Workbench.Json.Reader
import Workbench.Locate
import Workbench.Main
import Workbench.Merge
import Workbench.Number.Double
import Workbench.Number.Shortest
import Workbench.Number.Words
import Workbench.Path
import Workbench.Pool
import Workbench.Process
import Workbench.Proofs.Admission
import Workbench.Proofs.Aliases
import Workbench.Proofs.Answering
import Workbench.Proofs.Arrangement
import Workbench.Proofs.Building
import Workbench.Proofs.ByteLines
import Workbench.Proofs.ConfigArguments
import Workbench.Proofs.Deadlines
import Workbench.Proofs.DecimalTexts
import Workbench.Proofs.Declarations
import Workbench.Proofs.Documents
import Workbench.Proofs.DottedKey
import Workbench.Proofs.Entries
import Workbench.Proofs.Exploration
import Workbench.Proofs.FailedFiles
import Workbench.Proofs.FaultyLines
import Workbench.Proofs.FieldOrder
import Workbench.Proofs.FlagNames
import Workbench.Proofs.Flattening
import Workbench.Proofs.Histories
import Workbench.Proofs.HookChoice
import Workbench.Proofs.HookSettings
import Workbench.Proofs.Inspection
import Workbench.Proofs.Interruption
import Workbench.Proofs.Jobs
import Workbench.Proofs.Layers
import Workbench.Proofs.ListOptions
import Workbench.Proofs.LiteralTexts
import Workbench.Proofs.Located
import Workbench.Proofs.LongFlags
import Workbench.Proofs.Malformed
import Workbench.Proofs.Merging
import Workbench.Proofs.OptionTables
import Workbench.Proofs.Overlaying
import Workbench.Proofs.PathNames
import Workbench.Proofs.Plans
import Workbench.Proofs.Purging
import Workbench.Proofs.Records
import Workbench.Proofs.Reporting
import Workbench.Proofs.RequestKeys
import Workbench.Proofs.RequirementCalls
import Workbench.Proofs.RequirementLines
import Workbench.Proofs.Responses
import Workbench.Proofs.Results
import Workbench.Proofs.Rounding
import Workbench.Proofs.Scanning
import Workbench.Proofs.SectionNames
import Workbench.Proofs.SectionOptions
import Workbench.Proofs.Separation
import Workbench.Proofs.Serving
import Workbench.Proofs.Settling
import Workbench.Proofs.Sharing
import Workbench.Proofs.ShortestDecimals
import Workbench.Proofs.Signalling
import Workbench.Proofs.Spellings
import Workbench.Proofs.Standing
import Workbench.Proofs.Stepwise
import Workbench.Proofs.Succession
import Workbench.Proofs.TextLines
import Workbench.Proofs.TomlLiterals
import Workbench.Proofs.TomlNumbers
import Workbench.Proofs.TomlStrings
import Workbench.Proofs.TomlTables
import Workbench.Proofs.ToolSections
import Workbench.Proofs.Tracking
import Workbench.Proofs.TrailingComments
import Workbench.Proofs.Traversal
import Workbench.Proofs.TreeGrowth
import Workbench.Proofs.TreeShape
import Workbench.Proofs.Undisturbed
import Workbench.Proofs.UnknownNames
import Workbench.Proofs.Unset
import Workbench.Proofs.Validity
import Workbench.Proofs.Walk
import Workbench.Proofs.WellFormed
import Workbench.Proofs.WrittenConfig
import Workbench.Report.Run
import Workbench.Report.Text
import Workbench.Report.Workspace
import Workbench.Request
import Workbench.Rpc.Error
import Workbench.Rpc.Message
import Workbench.Rpc.Server
import Workbench.Rpc.Session
import Workbench.Selection
import Workbench.Service
import Workbench.Settings
import Workbench.Shell.Arithmetic
import Workbench.Shell.Builtin
import Workbench.Shell.Child
import Workbench.Shell.Condition
import Workbench.Shell.Eval
import Workbench.Shell.Expand
import Workbench.Shell.Filter
import Workbench.Shell.Launch
import Workbench.Shell.Pattern
import Workbench.Shell.Printing
import Workbench.Shell.Program
import Workbench.Shell.Reader
import Workbench.Shell.Redirect
import Workbench.Shell.Regex
import Workbench.Shell.Start
import Workbench.Shell.State
import Workbench.Shell.Syntax
import Workbench.Shell.Word
import Workbench.Slots
import Workbench.Text.Blank
import Workbench.Text.Cursor
import Workbench.Text.Escaped
import Workbench.Text.LetterTable
import Workbench.Text.Lines
import Workbench.Text.Lower
import Workbench.Text.Raw
import Workbench.Text.Scan
import Workbench.Text.Utf8
import Workbench.Timeouts
