import Literate.Build
import Literate.Calendar
import Literate.Chunk
import Literate.Chunk.OptionLine
import Literate.CommandLine
import Literate.CommandLine.Flag
import Literate.CommandLine.Help
import Literate.Csv
import Literate.Digest
import Literate.Duration
import Literate.Failure
import Literate.Fault
import Literate.FileTree
import Literate.FileTree.Replace
import Literate.Html.Builder
import Literate.Html.Entity
import Literate.Html.Escape
import Literate.Html.Insertion
import Literate.Html.Reference
import Literate.Html.Title
import Literate.Html.Token
import Literate.Html.Tree
import Literate.Html.Vocabulary
import Literate.Job
import Literate.Job.Id
import Literate.Job.Pool
import Literate.Json
import Literate.Location
import Literate.Log
import Literate.Log.Console
import Literate.Log.Level
import Literate.Main
import Literate.Markdown
import Literate.Markdown.Block
import Literate.Markdown.Document
import Literate.Markdown.Inline
import Literate.Markdown.Line
import Literate.Markdown.Reference
import Literate.Markdown.Render
import Literate.Markdown.Start
import Literate.Markdown.Tag
import Literate.Number
import Literate.Path
import Literate.Program
import Literate.Proofs.Build.Agreement
import Literate.Proofs.Build.Footprint
import Literate.Proofs.Build.Reports
import Literate.Proofs.Build.Stages
import Literate.Proofs.Chunk.GivenSettings
import Literate.Proofs.Chunk.PlainName
import Literate.Proofs.Chunk.Quotes
import Literate.Proofs.Chunk.Quoting
import Literate.Proofs.FileTree.Descent
import Literate.Proofs.FileTree.Directories
import Literate.Proofs.FileTree.Exchange
import Literate.Proofs.FileTree.Outcome
import Literate.Proofs.FileTree.Places
import Literate.Proofs.FileTree.Reach
import Literate.Proofs.FileTree.Refusals
import Literate.Proofs.FileTree.Replacement
import Literate.Proofs.FileTree.Touch
import Literate.Proofs.FileTree.Walks
import Literate.Proofs.FileTree.Wording
import Literate.Proofs.Job.Ascent
import Literate.Proofs.Job.Custody
import Literate.Proofs.Job.Delivery
import Literate.Proofs.Job.Encoding
import Literate.Proofs.Job.Independence
import Literate.Proofs.Job.Schedule
import Literate.Proofs.Job.Traffic
import Literate.Proofs.Job.Transitions
import Literate.Proofs.Path.Leaf
import Literate.Proofs.Path.Local
import Literate.Proofs.Path.Spelling
import Literate.Proofs.Program.Verdict
import Literate.Proofs.Reader.Acceptance
import Literate.Proofs.Reader.Diagnostics
import Literate.Proofs.Reader.Faults
import Literate.Proofs.Reader.Footprint
import Literate.Proofs.Reader.Frame
import Literate.Proofs.Reader.Grammar
import Literate.Proofs.Reader.Headings
import Literate.Proofs.Reader.Includes
import Literate.Proofs.Reader.Locations
import Literate.Proofs.Reader.Nesting
import Literate.Proofs.Reader.Origins
import Literate.Proofs.Reader.Passage
import Literate.Proofs.Reader.Phrases
import Literate.Proofs.Reader.Printing
import Literate.Proofs.Reader.Recovery
import Literate.Proofs.Reader.RoundTrip
import Literate.Proofs.Reader.Shift
import Literate.Proofs.Reader.Sources
import Literate.Proofs.Reader.Splicing
import Literate.Proofs.Reader.WellFormed
import Literate.Proofs.Service.Confinement
import Literate.Proofs.Tangle.Ancestry
import Literate.Proofs.Tangle.Bookkeeping
import Literate.Proofs.Tangle.Columns
import Literate.Proofs.Tangle.Conservation
import Literate.Proofs.Tangle.Deposits
import Literate.Proofs.Tangle.Expansion
import Literate.Proofs.Tangle.InPlace
import Literate.Proofs.Tangle.Indentation
import Literate.Proofs.Tangle.Interference
import Literate.Proofs.Tangle.Isolation
import Literate.Proofs.Tangle.Marks
import Literate.Proofs.Tangle.Memory
import Literate.Proofs.Tangle.Operations
import Literate.Proofs.Tangle.Repetition
import Literate.Proofs.Tangle.Routes
import Literate.Proofs.Tangle.Steps
import Literate.Proofs.Tangle.Success
import Literate.Proofs.Tangle.TextBlocks
import Literate.Proofs.Tangle.Traversal
import Literate.Proofs.Tangle.Writing
import Literate.Proofs.Text.Decoding
import Literate.Proofs.Text.Lines
import Literate.Proofs.Text.Occurrence
import Literate.Proofs.Text.Positional
import Literate.Proofs.Text.Repair
import Literate.Proofs.Text.Sorted
import Literate.Proofs.Text.Words
import Literate.Proofs.Token.Canonical
import Literate.Proofs.Token.Scan
import Literate.Proofs.Token.Scanner
import Literate.Proofs.Weave.Blocks
import Literate.Proofs.Weave.Consumers
import Literate.Proofs.Weave.Failures
import Literate.Proofs.Weave.Indented
import Literate.Proofs.Weave.Links
import Literate.Proofs.Weave.Sequence
import Literate.Proofs.Weave.Verbatim
import Literate.Proofs.Web.Citations
import Literate.Proofs.Web.Definitions
import Literate.Proofs.Web.Indices
import Literate.Proofs.Web.References
import Literate.Proofs.Web.Resolution
import Literate.Proofs.Web.Uses
import Literate.Reader
import Literate.Service
import Literate.Service.Http
import Literate.Service.Route
import Literate.Service.Target
import Literate.Settings
import Literate.Settings.Overlay
import Literate.Tangle
import Literate.Tangle.Emit
import Literate.Tangle.InPlace
import Literate.Tangle.Writer
import Literate.Template
import Literate.Template.Function
import Literate.Template.Layout
import Literate.Template.Literal
import Literate.Template.Parse
import Literate.Template.Token
import Literate.Template.Value
import Literate.Text
import Literate.Text.Base64
import Literate.Text.Class
import Literate.Text.Fold
import Literate.Text.Quoted
import Literate.Text.Ranges
import Literate.Text.Rune
import Literate.Token
import Literate.Token.Scanner
import Literate.Weave
import Literate.Weave.Define
import Literate.Weave.Markup
import Literate.Weave.Markups
import Literate.Weave.Title
import Literate.Web
import Literate.Web.Citations
import Literate.Web.References
import Literate.Yaml
import Literate.Yaml.Cursor
import Literate.Yaml.Encoding
import Literate.Yaml.Scalar
import Literate.Yaml.Token
import Literate.Yaml.Value
