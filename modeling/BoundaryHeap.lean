import BoundaryHeap.CommandLine.Run
import BoundaryHeap.CommandLine.Session
import BoundaryHeap.Config.Environment
import BoundaryHeap.EventLog.Emitter
import BoundaryHeap.Heap.Call
import BoundaryHeap.Main
import BoundaryHeap.Replay.Run
import BoundaryHeap.Summary.Json
import BoundaryHeap.Summary.Markdown
import BoundaryHeap.Trace.Json
import BoundaryHeap.Trace.Reader
import BoundaryHeap.Workload.Generate
import BoundaryHeap.Proofs.Sizing
import BoundaryHeap.Proofs.Refusal
import BoundaryHeap.Proofs.Pointer
import BoundaryHeap.Proofs.Breakdown
import BoundaryHeap.Proofs.Replay
import BoundaryHeap.Proofs.Retired
import BoundaryHeap.Proofs.Bare
import BoundaryHeap.Proofs.Transparency
import BoundaryHeap.Proofs.Validation
import BoundaryHeap.Proofs.Accounting
import BoundaryHeap.Proofs.ReleaseOrder
import BoundaryHeap.Proofs.Afresh
import BoundaryHeap.Proofs.Damage
import BoundaryHeap.Proofs.LiveBytes
import BoundaryHeap.Proofs.ReplayReport
import BoundaryHeap.Proofs.Builder
import BoundaryHeap.Proofs.Generate
import BoundaryHeap.Proofs.SuggestedSize
import BoundaryHeap.Proofs.Balance
import BoundaryHeap.Proofs.ResizeWays
import BoundaryHeap.Proofs.SortedRow
import BoundaryHeap.Proofs.RequestSizes
import BoundaryHeap.Proofs.TraceGrammar
import BoundaryHeap.Proofs.Undo
import BoundaryHeap.Proofs.Totals
import BoundaryHeap.Proofs.Idempotence
import BoundaryHeap.Proofs.Cleared
import BoundaryHeap.Proofs.RecordLevels
import BoundaryHeap.Proofs.EntryRoundTrip
import BoundaryHeap.Proofs.LogLines
import BoundaryHeap.Proofs.Layering
import BoundaryHeap.Proofs.TimedReplay
import BoundaryHeap.Proofs.SummaryTotals
import BoundaryHeap.Proofs.SummaryTable
import BoundaryHeap.Proofs.Joining
import BoundaryHeap.Proofs.Overlap
