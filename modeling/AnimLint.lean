import AnimLint.Text.Ranges
import AnimLint.Text.Alnum
import AnimLint.Text.Identifier
import AnimLint.Text.Pictograph
import AnimLint.Text.Width
import AnimLint.Text.Quoted
import AnimLint.Text.Span
import AnimLint.Text.Blank
import AnimLint.Text.Line
import AnimLint.Order
import AnimLint.Gap
import AnimLint.Target
import AnimLint.Zone
import AnimLint.Splice
import AnimLint.Violation
import AnimLint.Directive
import AnimLint.Finding
import AnimLint.Display.Style
import AnimLint.Display.Report
import AnimLint.Script.Scan
import AnimLint.Script.Tree
import AnimLint.Script.Calm
import AnimLint.Script.Parser
import AnimLint.Script.Parse
import AnimLint.Script.Reader
import AnimLint.Script.Sites
import AnimLint.Text.Utf8
import AnimLint.Files.Path
import AnimLint.Files.Tree
import AnimLint.Files.Walk
import AnimLint.Check
import AnimLint.Repair
import AnimLint.Glob.Pattern
import AnimLint.Glob.Expand
import AnimLint.Json.Number
import AnimLint.Json.Value
import AnimLint.Json.Reader
import AnimLint.Settings
import AnimLint.Survey
import AnimLint.Project
import AnimLint.RepairRun
import AnimLint.Text.Similarity
import AnimLint.CommandLine.Usage
import AnimLint.CommandLine.Parse
import AnimLint.Command
import AnimLint.Service.Parameters
import AnimLint.Service.Tools
import AnimLint.Main
import AnimLint.Proofs.Splicing
import AnimLint.Proofs.Compaction
import AnimLint.Proofs.Zones
import AnimLint.Proofs.Passes
import AnimLint.Proofs.Gaps
import AnimLint.Proofs.Rows
import AnimLint.Proofs.Spacing
import AnimLint.Proofs.ZoneShape
import AnimLint.Proofs.Joining
import AnimLint.Proofs.Pass
import AnimLint.Proofs.Sides
import AnimLint.Proofs.Mending
import AnimLint.Proofs.Rewriting
import AnimLint.Proofs.Tokens
import AnimLint.Proofs.Lines
import AnimLint.Proofs.Silencing
import AnimLint.Proofs.CommentOrder
import AnimLint.Proofs.Watch
import AnimLint.Proofs.Views
import AnimLint.Proofs.Hidden
import AnimLint.Proofs.Accounting
import AnimLint.Proofs.Containment
import AnimLint.Proofs.GapText
import AnimLint.Proofs.Layout
import AnimLint.Proofs.Recheck
import AnimLint.Proofs.Nesting
import AnimLint.Proofs.Batches
import AnimLint.Proofs.Relocation
import AnimLint.Proofs.Filling
import AnimLint.Proofs.Commuting
import AnimLint.Proofs.Places
import AnimLint.Proofs.Surveys
import AnimLint.Proofs.Walks
import AnimLint.Proofs.PlainData
import AnimLint.Proofs.Runs
import AnimLint.Proofs.ExitCodes
import AnimLint.Proofs.Preview
import AnimLint.Proofs.Visits
import AnimLint.Proofs.CallRanges
import AnimLint.Proofs.Pages
import AnimLint.Proofs.ByteOrderMark
import AnimLint.Proofs.Expansion
import AnimLint.Proofs.Arrival
import AnimLint.Proofs.BasePatterns
import AnimLint.Proofs.Moving
import AnimLint.Proofs.LineComments
import AnimLint.Proofs.Partition
import AnimLint.Proofs.Segmentation
import AnimLint.Proofs.ByteScan
import AnimLint.Proofs.Opening
import AnimLint.Proofs.Progress
import AnimLint.Proofs.Legibility
import AnimLint.Proofs.TidyCode
import AnimLint.Proofs.Stability
import AnimLint.Proofs.LineEndings
import AnimLint.Proofs.ReturnedCalls
import AnimLint.Proofs.LastToggle
import AnimLint.Proofs.Coverage
import AnimLint.Proofs.ParentPaths
import AnimLint.Proofs.SettingsSearch
import AnimLint.Proofs.ShownSettings
import AnimLint.Proofs.Heeded
import AnimLint.Proofs.BreakRuns
