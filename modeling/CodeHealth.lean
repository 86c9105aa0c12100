import CodeHealth.Analyzer.Basic
import CodeHealth.Analyzer.Request
import CodeHealth.CommandLine.Arguments
import CodeHealth.CommandLine.Command
import CodeHealth.CommandLine.Run
import CodeHealth.Config.Basic
import CodeHealth.Config.Files
import CodeHealth.Config.Scoring
import CodeHealth.Config.Section
import CodeHealth.Config.Thresholds
import CodeHealth.Diagnostics.Basic
import CodeHealth.Engine.Basic
import CodeHealth.Engine.Pool
import CodeHealth.Entries
import CodeHealth.Fault
import CodeHealth.Files.Tree
import CodeHealth.Json.Parser
import CodeHealth.Json.Printer
import CodeHealth.Log.Directive
import CodeHealth.Log.Layout
import CodeHealth.Log.Message
import CodeHealth.Log.Record
import CodeHealth.Log.Setup
import CodeHealth.Main
import CodeHealth.Number.Digits
import CodeHealth.Number.Double
import CodeHealth.Number.Numeral
import CodeHealth.Number.Shortest
import CodeHealth.Problem
import CodeHealth.Profile.Basic
import CodeHealth.Profile.Ratio
import CodeHealth.Profile.Report
import CodeHealth.Rule.Basic
import CodeHealth.Rule.Bloaters
import CodeHealth.Rule.Catalog
import CodeHealth.Rule.ChangePreventers
import CodeHealth.Rule.Couplers
import CodeHealth.Rule.Dispensables
import CodeHealth.Rule.OrientationAbusers
import CodeHealth.Smell
import CodeHealth.Sorting.Basic
import CodeHealth.Sorting.Gallop
import CodeHealth.Sorting.Merge
import CodeHealth.Sorting.Run
import CodeHealth.Source.Basic
import CodeHealth.Source.Block
import CodeHealth.Source.Clean
import CodeHealth.Source.Decision
import CodeHealth.Source.Duplication
import CodeHealth.Source.Lexeme
import CodeHealth.Text.Basic
import CodeHealth.Text.DigitTable
import CodeHealth.Text.Encoding
import CodeHealth.Text.Quoted
import CodeHealth.Text.Ranges
import CodeHealth.Text.Search
import CodeHealth.Text.UnprintableTable
import CodeHealth.Text.WordTable
import CodeHealth.Value.Arithmetic
import CodeHealth.Value.Basic
import CodeHealth.Value.Decimal
import CodeHealth.Value.Display
import CodeHealth.Value.Rounded
import CodeHealth.Proofs.Analyzer.Requests
import CodeHealth.Proofs.Diagnostics.Counters
import CodeHealth.Proofs.Engine.Interleaving
import CodeHealth.Proofs.Engine.Liveness
import CodeHealth.Proofs.Engine.Registry
import CodeHealth.Proofs.Engine.Together
import CodeHealth.Proofs.Entries
import CodeHealth.Proofs.Fault
import CodeHealth.Proofs.Source.Blanking
import CodeHealth.Proofs.Source.Decisions
import CodeHealth.Proofs.Source.Reading
import CodeHealth.Proofs.Source.Segments
import CodeHealth.Proofs.Text.Scan
import CodeHealth.Proofs.Value.Numbers
import CodeHealth.Proofs.Engine.Loading
import CodeHealth.Proofs.Engine.Results
import CodeHealth.Proofs.Analyzer.Paced
import CodeHealth.Proofs.Analyzer.Grouping
import CodeHealth.Proofs.Number.Numerals
import CodeHealth.Proofs.Profile.Share
import CodeHealth.Proofs.Config.Checks
import CodeHealth.Proofs.Config.Loading
import CodeHealth.Proofs.Rule.Findings
import CodeHealth.Proofs.Profile.Totality
import CodeHealth.Proofs.Engine.Totality
import CodeHealth.Proofs.Analyzer.Totality
import CodeHealth.Proofs.Config.ReadBack
import CodeHealth.Proofs.Config.Saving
import CodeHealth.Proofs.Number.Digits
import CodeHealth.Proofs.Number.Format
import CodeHealth.Proofs.Number.Shortest
import CodeHealth.Proofs.Json.Numbers
import CodeHealth.Proofs.Json.RoundTrip
import CodeHealth.Proofs.Json.Characters
import CodeHealth.Proofs.Json.Plain
import CodeHealth.Proofs.Source.Braces
import CodeHealth.Proofs.Engine.Remembering
import CodeHealth.Proofs.Engine.Sequence
import CodeHealth.Proofs.Analyzer.Independence
import CodeHealth.Proofs.Number.Monotone
import CodeHealth.Proofs.Value.Display
import CodeHealth.Proofs.Value.Doubles
import CodeHealth.Proofs.Profile.Terms
import CodeHealth.Proofs.Profile.Monotone
import CodeHealth.Proofs.Config.NormalForm
import CodeHealth.Proofs.Config.Layering
import CodeHealth.Proofs.Engine.History
import CodeHealth.Proofs.Text.Places
import CodeHealth.Proofs.Source.Blocks
import CodeHealth.Proofs.Value.Limits
import CodeHealth.Proofs.Number.Nearness
import CodeHealth.Proofs.Profile.Display
import CodeHealth.Proofs.Diagnostics.Statistics
import CodeHealth.Proofs.Diagnostics.History
import CodeHealth.Proofs.Rule.Fields
import CodeHealth.Proofs.Rule.Totality
import CodeHealth.Proofs.Analyzer.Recovery
import CodeHealth.Proofs.Text.Occurrences
import CodeHealth.Proofs.Text.Runs
import CodeHealth.Proofs.Source.Headers
import CodeHealth.Proofs.Source.FirstBrace
import CodeHealth.Proofs.Rule.Scan
import CodeHealth.Proofs.Rule.Calls
import CodeHealth.Proofs.Rule.Windows
import CodeHealth.Proofs.Number.Decimals
import CodeHealth.Proofs.Value.Rounded
import CodeHealth.Proofs.Source.Lines
import CodeHealth.Proofs.Source.Cutting
import CodeHealth.Proofs.Source.Literals
import CodeHealth.Proofs.Text.Counting
import CodeHealth.Proofs.Source.Alternatives
import CodeHealth.Proofs.Source.Counts
import CodeHealth.Proofs.Sorting.Merging
import CodeHealth.Proofs.Sorting.Order
import CodeHealth.Proofs.Diagnostics.Arithmetic
import CodeHealth.Proofs.Diagnostics.Exact
import CodeHealth.Proofs.Source.Duplication
import CodeHealth.Proofs.Rule.Discovery
