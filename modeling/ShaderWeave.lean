import ShaderWeave.Text.RangeTable
import ShaderWeave.Text.Space
import ShaderWeave.Text.Line
import ShaderWeave.Text.Column
import ShaderWeave.Text.DecimalDigit
import ShaderWeave.Text.Combining
import ShaderWeave.Text.Printable
import ShaderWeave.Text.Quoted
import ShaderWeave.Location
import ShaderWeave.SourceUnit
import ShaderWeave.Output.Basic
import ShaderWeave.Output.Listing
import ShaderWeave.Segment.Basic
import ShaderWeave.Segment.Inventory
import ShaderWeave.Segment.Plan
import ShaderWeave.Supply.Basic
import ShaderWeave.Supply.Library
import ShaderWeave.Supply.SearchPath
import ShaderWeave.Supply.Disk
import ShaderWeave.Supply.Stock
import ShaderWeave.Scan.Mode
import ShaderWeave.Scan.Directive
import ShaderWeave.Fault
import ShaderWeave.Event
import ShaderWeave.Weave.Pass
import ShaderWeave.Weave.Expand
import ShaderWeave.Weave.Unit
import ShaderWeave.Weave.Entry
import ShaderWeave.CompilerLog.Mention
import ShaderWeave.CompilerLog.Resolve
import ShaderWeave.Proofs.Lines
import ShaderWeave.Proofs.Sheet
import ShaderWeave.Proofs.Progress
import ShaderWeave.Proofs.Session
import ShaderWeave.Proofs.LineReading
import ShaderWeave.Proofs.Advance
import ShaderWeave.Proofs.Visit
import ShaderWeave.Proofs.Growth
import ShaderWeave.Proofs.Strand
import ShaderWeave.Proofs.Ownership
import ShaderWeave.Proofs.Order
import ShaderWeave.Proofs.Verbatim
import ShaderWeave.Proofs.Fixpoint
import ShaderWeave.Proofs.DirectiveLine
import ShaderWeave.Proofs.Recognition
import ShaderWeave.Proofs.Failure
import ShaderWeave.Proofs.FaultChain
import ShaderWeave.Proofs.Limit
import ShaderWeave.Proofs.Cycle
import ShaderWeave.Proofs.Comment
import ShaderWeave.Proofs.Context
import ShaderWeave.Proofs.EntryFile
import ShaderWeave.Proofs.Distinct
import ShaderWeave.Proofs.Account
import ShaderWeave.Proofs.Labels
import ShaderWeave.Proofs.LogRewriting
import ShaderWeave.Proofs.LogTranslation
import ShaderWeave.Proofs.Grouping
import ShaderWeave.Proofs.EmissionOrder
import ShaderWeave.Proofs.LibraryHistory
import ShaderWeave.Proofs.SearchHistory
import ShaderWeave.Proofs.Composition
import ShaderWeave.Proofs.StableOrder
import ShaderWeave.Proofs.LogParts
import ShaderWeave.Proofs.LogSweep
import ShaderWeave.Proofs.LogBreak
import ShaderWeave.Proofs.Padding
import ShaderWeave.Proofs.Indentation
import ShaderWeave.Proofs.Bookkeeping
import ShaderWeave.Proofs.Course
import ShaderWeave.Proofs.ListingRows
