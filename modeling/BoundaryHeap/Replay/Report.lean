import BoundaryHeap.Config
import BoundaryHeap.Json.Basic
import BoundaryHeap.Stats

/-!
The outcome of a replay that came to the end of its trace.
-/

namespace BoundaryHeap.Replay

/-- What a completed replay found. -/
structure Report where
  /-- The digest of the text of the trace. -/
  traceDigest : String
  ops : Nat
  allocs : Nat
  reallocs : Nat
  frees : Nat
  /-- The most bytes that were asked for and live at a time. -/
  peakLiveBytes : Nat
  /-- The size of the memory at the end. -/
  arenaBytes : Nat
  /-- The peak over the size of the memory. -/
  utilization : Double
  /-- The time that the calls of the heap took, in nanoseconds. -/
  heapTime : Nat
  opsPerSecond : Double
  growCalls : Nat
  reallocsInPlace : Nat
  reallocsAbsorbedPrev : Nat
  reallocsMoved : Nat
  placement : String
  chunkSize : Nat
  freeBlocksAtEnd : Nat
  fragmentationAtEnd : Double
  deriving Repr, DecidableEq

/-- A placement policy as a report names it, with its threshold. -/
def placementLabel : Placement → String
  | .threshold limit => s!"threshold:{limit}"
  | other => other.name

namespace Report

/-- A time in seconds: the whole seconds and the rest are each turned into a double. -/
def seconds (nanoseconds : Nat) : Double :=
  Double.ofNat (nanoseconds / 1000000000) + Double.ofNat (nanoseconds % 1000000000) / 1e9

/-- The same report for a replay whose calls of the heap took some time. A time beyond 64 bits is
given as the greatest number of 64 bits. -/
def withTime (r : Report) (nanoseconds : Nat) : Report :=
  { r with
    heapTime := min nanoseconds (wordLimit - 1)
    opsPerSecond := if nanoseconds = 0 then 0.0 else Double.ofNat r.ops / seconds nanoseconds }

/-- A report as a JSON value. -/
def toJson (r : Report) : Json.Value :=
  let natural := Json.Value.natural
  let real := fun (x : Double) => Json.Value.number (.real x)
  .object
    [("trace_sha256", .string r.traceDigest), ("ops", natural r.ops),
      ("allocs", natural r.allocs), ("reallocs", natural r.reallocs),
      ("frees", natural r.frees), ("peak_live_bytes", natural r.peakLiveBytes),
      ("arena_bytes", natural r.arenaBytes), ("utilization", real r.utilization),
      ("heap_time_ns", natural r.heapTime), ("ops_per_sec", real r.opsPerSecond),
      ("grow_calls", natural r.growCalls), ("reallocs_in_place", natural r.reallocsInPlace),
      ("reallocs_absorbed_prev", natural r.reallocsAbsorbedPrev),
      ("reallocs_moved", natural r.reallocsMoved), ("placement", .string r.placement),
      ("chunk_size", natural r.chunkSize), ("free_blocks_at_end", natural r.freeBlocksAtEnd),
      ("fragmentation_at_end", real r.fragmentationAtEnd)]

end Report

end BoundaryHeap.Replay
