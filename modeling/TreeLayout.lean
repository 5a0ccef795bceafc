import TreeLayout.Command.Project
import TreeLayout.Command.Run
import TreeLayout.Command.Usage
import TreeLayout.Decimal.Binary64
import TreeLayout.FileTree.Basic
import TreeLayout.FileTree.Build
import TreeLayout.FileTree.Capture
import TreeLayout.FileTree.Ignore
import TreeLayout.Glob.Basic
import TreeLayout.Glob.Fault
import TreeLayout.Glob.Parser
import TreeLayout.Glob.Token
import TreeLayout.IgnoreList
import TreeLayout.Json.Record
import TreeLayout.Main
import TreeLayout.Proofs.Command.Asking
import TreeLayout.Proofs.Command.Check
import TreeLayout.Proofs.Command.Codes
import TreeLayout.Proofs.Command.Loading
import TreeLayout.Proofs.FileTree.Contents
import TreeLayout.Proofs.FileTree.Listing
import TreeLayout.Proofs.FileTree.Names
import TreeLayout.Proofs.FileTree.Paths
import TreeLayout.Proofs.FileTree.Walk
import TreeLayout.Proofs.Glob.Between
import TreeLayout.Proofs.Glob.Openings
import TreeLayout.Proofs.Glob.Outline
import TreeLayout.Proofs.Glob.Parts
import TreeLayout.Proofs.Glob.Reading
import TreeLayout.Proofs.Glob.Segmentwise
import TreeLayout.Proofs.Glob.Words
import TreeLayout.Proofs.IgnoreList.File
import TreeLayout.Proofs.IgnoreList.Levels
import TreeLayout.Proofs.IgnoreList.Names
import TreeLayout.Proofs.Inquiry
import TreeLayout.Proofs.Json.Reader
import TreeLayout.Proofs.Json.RoundTrip
import TreeLayout.Proofs.Report.Attribution
import TreeLayout.Proofs.Report.Color
import TreeLayout.Proofs.Report.Columns
import TreeLayout.Proofs.Report.Exchange
import TreeLayout.Proofs.Report.Ingestion
import TreeLayout.Proofs.Report.Naming
import TreeLayout.Proofs.Report.Parts
import TreeLayout.Proofs.Report.Passing
import TreeLayout.Proofs.Report.Records
import TreeLayout.Proofs.Report.Reordering
import TreeLayout.Proofs.Report.Violations
import TreeLayout.Proofs.Rules.Binding
import TreeLayout.Proofs.Rules.Capture
import TreeLayout.Proofs.Rules.Course
import TreeLayout.Proofs.Rules.Expansion
import TreeLayout.Proofs.Rules.Grammar
import TreeLayout.Proofs.Rules.Instances
import TreeLayout.Proofs.Rules.Lines
import TreeLayout.Proofs.Rules.Locality
import TreeLayout.Proofs.Rules.Readings
import TreeLayout.Proofs.Rules.Slashes
import TreeLayout.Proofs.Rules.Snapshots
import TreeLayout.Proofs.Rules.Stages
import TreeLayout.Proofs.Rules.Statement
import TreeLayout.Proofs.Rules.Template
import TreeLayout.Proofs.Rules.Wildcards
import TreeLayout.Proofs.Settings.Output
import TreeLayout.Proofs.Snapshot.Canonical
import TreeLayout.Proofs.Snapshot.DepthFirst
import TreeLayout.Proofs.Snapshot.Entries
import TreeLayout.Proofs.Snapshot.Order
import TreeLayout.Proofs.Snapshot.Query
import TreeLayout.Proofs.Snapshot.Slashes
import TreeLayout.Proofs.Snapshot.Spelling
import TreeLayout.Proofs.Text.Blanks
import TreeLayout.Proofs.Text.ByteOrder
import TreeLayout.Proofs.Text.Bytes
import TreeLayout.Proofs.Text.Lines
import TreeLayout.Proofs.Text.Segments
import TreeLayout.Query
import TreeLayout.Regular.Basic
import TreeLayout.Regular.Lemmas
import TreeLayout.Report.Basic
import TreeLayout.Report.Check
import TreeLayout.Report.Human
import TreeLayout.Report.Records
import TreeLayout.Rules.Basic
import TreeLayout.Rules.Compilation
import TreeLayout.Rules.Error
import TreeLayout.Rules.Expansion
import TreeLayout.Rules.Parser
import TreeLayout.Rules.Template
import TreeLayout.Settings.Basic
import TreeLayout.Settings.Reader
import TreeLayout.Snapshot.Basic
import TreeLayout.Snapshot.Query
import TreeLayout.Terminal.Painted
import TreeLayout.Text.Basic
import TreeLayout.Text.Path
import TreeLayout.Text.Quoted
import TreeLayout.Toml.Number
import TreeLayout.Toml.Parser
import TreeLayout.Toml.Text
import TreeLayout.Toml.Value
