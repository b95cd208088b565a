import BoundaryHeap.Json.Printer
import BoundaryHeap.Summary.Basic

/-!
Summaries as indented JSON text. A run has a member for its report or its error only if it has one.
-/

namespace BoundaryHeap

open Json (Value)

/-- A run as a JSON value. -/
def TraceRun.toJson (run : TraceRun) : Value :=
  .object
    ([("trace", .string run.trace), ("weight", .natural run.weight)] ++
      (run.report.map fun report => ("report", report.toJson)).toList ++
      (run.error.map fun error => ("error", Value.string error)).toList)

namespace Summary

/-- A summary as a JSON value. -/
def toJson (s : Summary) : Value :=
  .object
    [("generated_utc", .string s.generated), ("traces", .natural s.traces),
      ("passed", .natural s.passed), ("failed", .natural s.failed),
      ("total_ops", .natural s.totalOps), ("mean_utilization", .number (.real s.meanUtilization)),
      ("ops_per_sec", .number (.real s.opsPerSecond)),
      ("runs", .array (s.runs.map TraceRun.toJson))]

/-- The indented JSON text of a summary. -/
def jsonText (s : Summary) : String := s.toJson.pretty

end Summary

end BoundaryHeap
