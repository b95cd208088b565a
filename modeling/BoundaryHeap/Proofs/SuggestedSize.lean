import BoundaryHeap.Proofs.Generate
import BoundaryHeap.Proofs.ReplayReport
import Mathlib.Data.List.Permutation

/-!
Replays of generated traces. Every operation of an orderly trace can be put to the heap, so that
only the heap can stop its replay; and what the generator has counted as the peak is what a replay
counts that comes to the end.
-/

namespace BoundaryHeap

open TraceOp (liveIds isAlloc)

/-! ## Orderly traces -/

namespace Orderly

variable {ops : List TraceOp}

open Replay (Admissible)

/-- With one more operation that can be put to the heap, every operation still can. -/
theorem admissible_concat {last : TraceOp}
    (earlier : ∀ front op behind, ops = front ++ op :: behind →
      Admissible (ops.countP isAlloc) (liveIds front) op)
    (final : Admissible ((ops ++ [last]).countP isAlloc) (liveIds ops) last) :
    ∀ front op behind, ops ++ [last] = front ++ op :: behind →
      Admissible ((ops ++ [last]).countP isAlloc) (liveIds front) op := by
  intro front op behind split
  rcases List.eq_nil_or_concat behind with rfl | ⟨middle, other, rfl⟩
  · obtain ⟨rfl, same⟩ := List.append_inj' split rfl
    cases same
    exact final
  · rw [List.concat_eq_append, ← List.cons_append, ← List.append_assoc] at split
    obtain ⟨rfl, -⟩ := List.append_inj' split rfl
    obtain ⟨known, new⟩ := earlier front op middle rfl
    rw [List.countP_append]
    exact ⟨Nat.lt_add_right _ known, new⟩

/-- Every operation of an orderly trace can be put to the heap. -/
theorem admissible (orderly : Orderly ops) : ∀ front op behind, ops = front ++ op :: behind →
    Admissible (ops.countP isAlloc) (liveIds front) op := by
  induction orderly with
  | nil => exact fun front op behind split => by simp at split
  | @alloc ops size orderly some ih =>
    refine admissible_concat ih ⟨?_, orderly.countP_notMem⟩
    rw [List.countP_append]
    exact Nat.lt_succ_self _
  | @realloc ops id size orderly live some ih =>
    refine admissible_concat ih ⟨?_, fun never => never⟩
    rw [List.countP_append]
    exact Nat.lt_add_right _ (orderly.lt_countP id live)
  | @free ops id orderly live ih =>
    refine admissible_concat ih ⟨?_, fun never => never⟩
    rw [List.countP_append]
    exact Nat.lt_add_right _ (orderly.lt_countP id live)

end Orderly

/-! ## Replays -/

namespace Replay

variable {trace : Trace}

/-- Without room for the table of live blocks a replay does not come past the layout. -/
theorem verdict_of_crowded (options : Options)
    (crowded : capacityLimit ≤ slotSize * trace.idCount) :
    (∃ reason, verdict trace options = .ok (.error (.init reason))) ∨
      verdict trace options = .error .capacity := by
  have layout := Heap.init_ensures (Heap.withConfig options.config)
  rw [Action.Ensures] at layout
  cases ran : Heap.init.run (Heap.withConfig options.config) with
  | error fault heap =>
    rw [ran] at layout
    obtain ⟨rfl, -⟩ := layout
    exact .inr (verdict_of_unlaid ran)
  | ok laidOut heap =>
    cases laidOut with
    | error reason => exact .inl ⟨reason, verdict_of_init ran⟩
    | ok done =>
      right
      rw [verdict, run, start, Fault.bind_of_ok (Action.result_eq_ok.mpr ran)]
      simp only [if_pos crowded]
      rfl

/-- A replay whose operations can all be put to the heap is stopped by the heap only. -/
theorem verdict_of_admissible (options : Options)
    (slots : slotSize * trace.idCount < capacityLimit)
    (admissible : ∀ index op, trace.ops[index]? = some op →
      Admissible trace.idCount (trace.liveIds index) op) :
    verdict trace options = .ok (.ok ()) ∨
      (∃ reason, verdict trace options = .ok (.error (.init reason))) ∨
      (∃ index id size, verdict trace options = .ok (.error (.outOfMemory index id size))) ∨
      verdict trace options = .error .capacity ∧
        capacityLimit ≤ options.config.maxArenaBytes := by
  have outcome : Ends trace options (verdict trace options) ∧ _ := verdict_ends slots
  obtain ⟨ends, overgrown⟩ := outcome
  cases ended : verdict trace options with
  | error fault =>
    obtain ⟨rfl, huge⟩ := overgrown fault ended
    exact .inr (.inr (.inr ⟨rfl, huge⟩))
  | ok result =>
    rw [ended] at ends
    cases ends with
    | init ran => exact .inr (.inl ⟨_, rfl⟩)
    | completed comes passes => exact .inl rfl
    | halted passes halts stuck =>
      obtain ⟨s, op, -, here, ends⟩ := halts
      obtain ⟨known, new⟩ := admissible _ op here
      cases ends with
      | unknownId beyond => exact absurd known (Nat.not_lt_of_le beyond)
      | idInUse _ again => exact absurd again new
      | outOfMemory admissible asks refused => exact .inr (.inr (.inl ⟨_, _, _, rfl⟩))
      | served admissible ran enough => exact absurd rfl stuck

/-- A replay of a generated trace comes to its end with the peak that the trace suggests, or the
heap refuses to be laid out or to serve an operation. It meets a fault only where its arena is
allowed more bytes than an address space has, or its table of live blocks would need as many. -/
theorem generate_peak {profile : Workload.Profile} {seed : UInt64} {count maxSize : Nat}
    (generated : Workload.generate profile seed count maxSize = .ok trace) (options : Options) :
    (∃ outcome found, run trace options = .ok outcome ∧ outcome.result = .ok found ∧
      found.peakLiveBytes = trace.suggestedHeapSize) ∨
    (∃ reason, verdict trace options = .ok (.error (.init reason))) ∨
    (∃ index id size, verdict trace options = .ok (.error (.outOfMemory index id size))) ∨
    verdict trace options = .error .capacity ∧
      (capacityLimit ≤ options.config.maxArenaBytes ∨
        capacityLimit ≤ slotSize * trace.idCount) := by
  have balanced := Workload.generate_balanced generated
  by_cases crowded : capacityLimit ≤ slotSize * trace.idCount
  · rcases verdict_of_crowded options crowded with refused | broken
    · exact .inr (.inl refused)
    · exact .inr (.inr (.inr ⟨broken, .inr crowded⟩))
  have admissible : ∀ index op, trace.ops[index]? = some op →
      Admissible trace.idCount (trace.liveIds index) op := by
    intro index op here
    obtain ⟨within, rfl⟩ := List.getElem?_eq_some_iff.mp here
    rw [balanced.numbered]
    exact balanced.orderly.admissible _ _ (trace.ops.drop (index + 1)) (by simp)
  rcases verdict_of_admissible options (Nat.lt_of_not_le crowded) admissible with
    completed | refused | exhausted | ⟨broken, huge⟩
  · obtain ⟨outcome, found, ran, ended⟩ := exists_report_of_verdict completed
    obtain ⟨s, -, -, tallied, reported⟩ := exists_tallied_of_run ran ended
    refine .inl ⟨outcome, found, ran, ended, ?_⟩
    rw [peakLiveBytes_of_report reported, tallied.peak, balanced.suggested]
  · exact .inr (.inl refused)
  · exact .inr (.inr (.inl exhausted))
  · exact .inr (.inr (.inr ⟨broken, .inl huge⟩))

/-- The first trace resizes a block and comes to its end. The second asks an arena without a limit
for more than half of all addresses. -/
theorem generate_peak_churn :
    (∃ trace outcome found, Workload.generate .churn 239 3 16 = .ok trace ∧
      run trace ⟨{ HeapConfig.standard with chunkSize := 64 }, true⟩ = .ok outcome ∧
      outcome.result = .ok found ∧ found.peakLiveBytes = trace.suggestedHeapSize) ∧
    ∃ trace, Workload.generate .churn 1 1 (wordLimit - 2) = .ok trace ∧
      verdict trace ⟨{ HeapConfig.standard with chunkSize := 64, maxArenaBytes := wordLimit - 1 },
        false⟩ = .error .capacity := by
  constructor
  · have generated : Workload.generate .churn 239 3 16 = .ok ⟨8, 2, 1,
        [.alloc 0 3, .realloc 0 7, .alloc 1 1, .free 0, .free 1]⟩ := by cbv
    have completed : verdict ⟨8, 2, 1, [.alloc 0 3, .realloc 0 7, .alloc 1 1, .free 0, .free 1]⟩
        ⟨{ HeapConfig.standard with chunkSize := 64 }, true⟩ = .ok (.ok ()) := by decide +kernel
    have ways := generate_peak generated ⟨{ HeapConfig.standard with chunkSize := 64 }, true⟩
    rw [completed] at ways
    obtain ⟨outcome, found, reported⟩ := ways.resolve_right (by simp)
    exact ⟨_, outcome, found, generated, reported⟩
  · have generated : Workload.generate .churn 1 1 (wordLimit - 2) = .ok
        ⟨12380297144915551518, 1, 1, [.alloc 0 12380297144915551518, .free 0]⟩ := by cbv
    exact ⟨_, generated, by decide +kernel⟩

end Replay

end BoundaryHeap
