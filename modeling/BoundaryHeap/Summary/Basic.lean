import BoundaryHeap.Fault
import BoundaryHeap.Replay.Report

/-!
The summary of several replays. Totals and means are over the runs that have a report; a run without
one has failed. Utilization is a mean weighted by the weights of the traces.
-/

namespace BoundaryHeap

open Replay (Report)

/-- The outcome for one trace. -/
structure TraceRun where
  /-- What the trace is called, usually its path. -/
  trace : String
  weight : Nat
  report : Option Report
  error : Option String
  deriving Repr, DecidableEq

namespace TraceRun

/-- The run of a trace that was replayed to its end. -/
def passed (trace : String) (weight : Nat) (report : Report) : TraceRun :=
  ⟨trace, weight, some report, none⟩

/-- The run of a trace that could not be read, or not replayed to its end. -/
def failed (trace : String) (weight : Nat) (error : String) : TraceRun :=
  ⟨trace, weight, none, some error⟩

end TraceRun

/-- The summary of several runs. -/
structure Summary where
  /-- When the summary was made. -/
  generated : String
  traces : Nat
  passed : Nat
  failed : Nat
  totalOps : Nat
  meanUtilization : Double
  opsPerSecond : Double
  runs : List TraceRun
  deriving Repr, DecidableEq

namespace Summary

/-- The sum of numbers, if it fits in 64 bits. -/
def checkedSum : List Nat → Except Fault Nat :=
  List.foldlM (fun sum number => Checked.add sum number) 0

/-- The mean of values with their weights, zero without any weight. The sum begins with the
negative zero, which changes nothing that is added to it. -/
def weightedMean (totalWeight : Nat) (pairs : List (Double × Nat)) : Double :=
  if totalWeight = 0 then 0.0
  else
    pairs.foldl (fun sum pair => sum + pair.1 * Double.ofNat pair.2) (-0.0) /
      Double.ofNat totalWeight

/-- The runs with a report, with that report. -/
def passing (runs : List TraceRun) : List (Report × Nat) :=
  runs.filterMap fun run => run.report.map fun report => (report, run.weight)

/-- The summary of runs. -/
def ofRuns (generated : String) (runs : List TraceRun) : Except Fault Summary := do
  let passing := passing runs
  let totalOps ← checkedSum (passing.map (·.1.ops))
  let totalTime ← checkedSum (passing.map (·.1.heapTime))
  let totalWeight ← checkedSum (passing.map (·.2))
  return {
    generated
    traces := runs.length
    passed := passing.length
    failed := runs.length - passing.length
    totalOps
    meanUtilization :=
      weightedMean totalWeight (passing.map fun pair => (pair.1.utilization, pair.2))
    opsPerSecond :=
      if totalTime = 0 then 0.0
      else Double.ofNat totalOps * 1e9 / Double.ofNat totalTime
    runs }

/-- Whether no run failed. -/
def allPassed (s : Summary) : Bool := s.failed == 0

end Summary

end BoundaryHeap
