import BoundaryHeap.Decimal.Fixed
import BoundaryHeap.Summary.Basic

/-!
Summaries as Markdown: a few lines of totals and a table with a row per run.
-/

namespace BoundaryHeap.Summary

open Decimal (fixedText)

/-- The row of a run. -/
def row (run : TraceRun) : String :=
  match run.report with
  | some r =>
    let percent := fixedText 1 (r.utilization * 100.0)
    let speed := fixedText 1 (r.opsPerSecond / 1000.0)
    s!"| {run.trace} | {run.weight} | {r.ops} | {r.peakLiveBytes} | {r.arenaBytes} " ++
      s!"| {percent}% | {r.growCalls} | {speed} | pass |\n"
  | none =>
    let error := run.error.getD "unknown"
    s!"| {run.trace} | {run.weight} | - | - | - | - | - | - | FAIL: {error} |\n"

/-- The lines above the table. -/
def heading (s : Summary) : String :=
  let percent := fixedText 1 (s.meanUtilization * 100.0)
  let speed := fixedText 0 s.opsPerSecond
  "# tagheap replay summary\n\n" ++
    s!"- Generated: {s.generated}\n" ++
    s!"- Traces: {s.traces} ({s.passed} passed, {s.failed} failed)\n" ++
    s!"- Utilization: {percent}%  Throughput: {speed} ops/s\n\n"

/-- The two lines that begin the table. -/
def tableHead : String :=
  "| Trace | Weight | Ops | Peak live | Arena | Util | Grows | Kops/s | Status |\n" ++
    "|-------|-------:|----:|----------:|------:|-----:|------:|-------:|--------|\n"

/-- A summary as Markdown. -/
def markdown (s : Summary) : String :=
  heading s ++ tableHead ++ String.join (s.runs.map row)

end BoundaryHeap.Summary
