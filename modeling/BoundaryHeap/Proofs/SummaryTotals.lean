import BoundaryHeap.Proofs.ReplayReport
import BoundaryHeap.Proofs.TraceGrammar
import BoundaryHeap.Proofs.TraceText
import BoundaryHeap.Summary.Basic
import Mathlib.Algebra.Order.BigOperators.Group.List
import Mathlib.Algebra.Order.Ring.Nat

/-!
What a summary adds up. The operations of the traces and their weights are added with a check, which
fails exactly if the sum leaves 64 bits. An operation takes a line in the text of its trace, so
there are never more of them than characters; but any weight below 2 ^ 64 is written in twenty
digits, and so two traces are enough to add up to more.
-/

namespace BoundaryHeap

namespace Trace

theorem length_linesFrom_le (current text : List Char) :
    (linesFrom current text).length ≤ text.length + 1 := by
  induction text generalizing current with
  | nil => simp [linesFrom]
  | cons c rest ih =>
    rw [linesFrom]
    split
    · exact Nat.succ_le_succ (ih [])
    · exact Nat.le_succ_of_le (ih (c :: current))

theorem length_contentFrom_le (number : Nat) (lines : List (List Char)) :
    (contentFrom number lines).length ≤ lines.length := by
  induction lines generalizing number with
  | nil => simp [contentFrom]
  | cons line rest ih =>
    rw [contentFrom]
    split
    · exact Nat.le_succ_of_le (ih (number + 1))
    · exact Nat.succ_le_succ (ih (number + 1))

/-- The header takes a line at least, and each operation has a line of its own. -/
theorem length_ops_le {text : String} {trace : Trace} (read : ofText text = .ok trace) :
    trace.ops.length ≤ text.length := by
  have filled : ∀ line ∈ contentLines text.toList, line.words ≠ [] := by
    rw [contentLines_eq]
    exact fun line member => words_ne_nil_of_mem member
  have lines := (length_contentFrom_le 1 _).trans (length_linesFrom_le [] text.toList)
  rw [← contentLines, String.length_toList] at lines
  rw [ofText] at read
  rcases denotes_or_refused filled with ⟨found, denotes⟩ | ⟨error, refused⟩
  · obtain rfl := Except.ok.inj ((ofLines_of_denotes filled denotes).symm.trans read)
    cases denotes with
    | @intro header body suggested idCount weight ops split headed described =>
      have counted := described.length_eq
      have some : 0 < header.length := by
        rw [List.length_pos_iff]
        rintro rfl
        cases headed
      rw [split, List.length_append] at lines
      change ops.length ≤ text.length
      omega
  · cases (ofLines_of_refused filled refused).symm.trans read

end Trace

namespace Summary

/-- Numbers are added up exactly, or their sum leaves 64 bits. -/
theorem checkedSum_eq (numbers : List Nat) : checkedSum numbers =
    if numbers.sum < wordLimit then .ok numbers.sum else .error .overflow := by
  suffices run : ∀ start < wordLimit,
      numbers.foldlM (fun sum number => Checked.add sum number) start =
        if start + numbers.sum < wordLimit then .ok (start + numbers.sum)
        else .error .overflow by
    rw [checkedSum, run 0 (by decide), Nat.zero_add]
  intro start fits
  induction numbers generalizing start with
  | nil => exact (if_pos fits).symm
  | cons number rest ih =>
    rw [List.foldlM_cons, List.sum_cons, ← Nat.add_assoc, Checked.add]
    by_cases more : start + number < wordLimit
    · rw [if_pos more]
      exact ih _ more
    · rw [if_neg more, if_neg (by omega)]
      rfl

/-- A trace that was read from a text and replayed to its end. -/
structure Completed where
  text : String
  options : Replay.Options
  trace : Trace
  outcome : Replay.Outcome
  report : Replay.Report
  label : String
  /-- The time that its calls of the heap took. -/
  nanoseconds : Nat
  read : Trace.ofText text = .ok trace
  ran : Replay.run trace options = .ok outcome
  ended : outcome.result = .ok report

namespace Completed

/-- The run that is entered for the trace, with the weight that its header gives. -/
def run (c : Completed) : TraceRun :=
  .passed c.label c.trace.weight (c.report.withTime c.nanoseconds)

theorem ops_report (c : Completed) : c.report.ops = c.trace.ops.length := by
  obtain ⟨s, -, reported⟩ := Replay.exists_comes_of_run c.ran c.ended
  obtain ⟨_, -, same⟩ := Fault.bind_eq_ok.mp reported
  rw [← Except.ok.inj same]

theorem weight_lt (c : Completed) : c.trace.weight < wordLimit :=
  (Trace.fits_of_ofText c.read).1.header _ (by simp [Trace.header])

end Completed

/-- Every run has a report, and what is asked of all of them is asked of the traces. -/
theorem map_passing {α : Type} (completed : List Completed) (ask : Replay.Report × Nat → α) :
    (passing (completed.map Completed.run)).map ask =
      completed.map fun c => ask (c.report.withTime c.nanoseconds, c.trace.weight) := by
  rw [passing, List.filterMap_map, List.map_filterMap]
  exact congrFun List.filterMap_eq_map completed

/-- The summary of traces that were all replayed to their end: the operations are counted and the
weights added up exactly, or one of the two sums leaves 64 bits and there is no summary. There are
never more operations than there are characters in the texts, and no weight is too much alone. -/
theorem ofRuns_completed (generated : String) (completed : List Completed)
    (short : (completed.map (·.nanoseconds)).sum < wordLimit) :
    let runs := completed.map Completed.run
    let ops := (completed.map (·.trace.ops.length)).sum
    let weight := (completed.map (·.trace.weight)).sum
    let nanoseconds := (completed.map (·.nanoseconds)).sum
    ops ≤ (completed.map (·.text.length)).sum ∧
    (∀ c ∈ completed, c.trace.weight < wordLimit) ∧
    (wordLimit ≤ ops ∨ wordLimit ≤ weight → ofRuns generated runs = .error .overflow) ∧
    (ops < wordLimit → weight < wordLimit → ofRuns generated runs = .ok
      { generated
        traces := completed.length
        passed := completed.length
        failed := 0
        totalOps := ops
        meanUtilization := weightedMean weight
          (completed.map fun c => (c.report.utilization, c.trace.weight))
        opsPerSecond :=
          if nanoseconds = 0 then 0.0
          else Double.ofNat ops * 1e9 / Double.ofNat nanoseconds
        runs }) := by
  intro runs ops weight nanoseconds
  have opsOf : (passing runs).map (·.1.ops) = completed.map (·.trace.ops.length) :=
    (map_passing completed _).trans (List.map_congr_left fun c _ => c.ops_report)
  have timesOf : (passing runs).map (·.1.heapTime) = completed.map (·.nanoseconds) := by
    refine (map_passing completed _).trans (List.map_congr_left fun c member => ?_)
    have fits : c.nanoseconds ≤ (completed.map (·.nanoseconds)).sum :=
      List.le_sum_of_mem (List.mem_map_of_mem member)
    exact min_eq_left (by omega)
  have weightsOf : (passing runs).map (·.2) = completed.map (·.trace.weight) :=
    map_passing completed _
  have values : (passing runs).map (fun pair => (pair.1.utilization, pair.2)) =
      completed.map fun c => (c.report.utilization, c.trace.weight) := map_passing completed _
  have length : runs.length = completed.length := List.length_map ..
  have count : (passing runs).length = completed.length := by
    simpa using congrArg List.length timesOf
  refine ⟨List.sum_le_sum fun c _ => Trace.length_ops_le c.read, fun c _ => c.weight_lt,
    fun leaves => ?_, fun opsFit weightFits => ?_⟩
  · rw [ofRuns]
    simp only [opsOf, timesOf, weightsOf, checkedSum_eq, if_pos short]
    by_cases opsFit : ops < wordLimit
    · rw [if_pos opsFit, if_neg (leaves.resolve_left opsFit.not_ge).not_gt]
      rfl
    · rw [if_neg opsFit]
      rfl
  · rw [ofRuns]
    simp only [opsOf, timesOf, weightsOf, values, count, checkedSum_eq, if_pos short]
    rw [if_pos opsFit, if_pos weightFits, length, Nat.sub_self]
    rfl

/-- The text of a trace with one operation and half of the weight that is too much. -/
def heavyText : String := "0 1 1 9223372036854775808\na 0 3\n"

/-- The trace in that text. -/
def heavyTrace : Trace := ⟨0, 1, 9223372036854775808, [.alloc 0 3]⟩

/-- Two such traces have no summary. -/
theorem ofRuns_completed_heavy :
    ∃ completed : List Completed,
      completed.map (fun c => (c.text, c.trace)) =
        [(heavyText, heavyTrace), (heavyText, heavyTrace)] ∧
      (completed.map (·.nanoseconds)).sum < wordLimit ∧
      ofRuns "T" (completed.map Completed.run) = .error .overflow := by
  have replayed : Replay.verdict heavyTrace
      ⟨{ HeapConfig.standard with chunkSize := 64 }, true⟩ = .ok (.ok ()) := by decide +kernel
  obtain ⟨outcome, report, ran, ended⟩ := Replay.exists_report_of_verdict replayed
  have read : Trace.ofText heavyText = .ok heavyTrace := by rfl
  let heavy : Completed :=
    { text := heavyText
      options := _
      trace := heavyTrace
      outcome
      report
      label := "heavy"
      nanoseconds := 1
      read
      ran
      ended }
  have short : ([heavy, heavy].map (·.nanoseconds)).sum < wordLimit := by
    simp [heavy, wordLimit]
  have weight : wordLimit ≤ ([heavy, heavy].map (·.trace.weight)).sum := by
    simp [heavy, heavyTrace]
  obtain ⟨-, -, leaves, -⟩ := ofRuns_completed "T" [heavy, heavy] short
  have same : [heavy, heavy].map (fun c => (c.text, c.trace)) =
      [(heavyText, heavyTrace), (heavyText, heavyTrace)] := rfl
  exact ⟨[heavy, heavy], same, short, leaves (.inr weight)⟩

end Summary

end BoundaryHeap
