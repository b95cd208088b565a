import BoundaryHeap.Proofs.Generate
import BoundaryHeap.Proofs.TraceText

/-!
Balanced traces. In an orderly trace every operation but an allocation is about a block that has
been allocated and not yet released. If nothing is live at its end, every block has been released
exactly once, and the trace is read back from its text. Generation comes to such a trace, with at
least as many operations as were asked for, unless a number leaves 64 bits on the way.
-/

namespace BoundaryHeap

open TraceOp (liveIds peakBytes isAlloc isFree)

/-! ## Orderly traces -/

namespace Orderly

variable {ops front behind : List TraceOp} {op : TraceOp} {id : Nat}

/-- What the last operation of an orderly trace can be. -/
theorem of_concat (orderly : Orderly (ops ++ [op])) :
    Orderly ops ∧ (op.isAlloc = false → op.id ∈ liveIds ops) ∧
      (op.isFree = false → 0 < op.size) := by
  generalize whole : ops ++ [op] = all at orderly
  cases orderly with
  | nil => simp at whole
  | alloc orderly some =>
    obtain ⟨rfl, same⟩ := List.append_inj' whole rfl
    cases same
    exact ⟨orderly, (fun never => nomatch never), fun _ => some⟩
  | realloc orderly live some =>
    obtain ⟨rfl, same⟩ := List.append_inj' whole rfl
    cases same
    exact ⟨orderly, fun _ => live, fun _ => some⟩
  | free orderly live =>
    obtain ⟨rfl, same⟩ := List.append_inj' whole rfl
    cases same
    exact ⟨orderly, fun _ => live, fun never => nomatch never⟩

/-- The first operations of an orderly trace are an orderly trace. -/
theorem of_append (orderly : Orderly (front ++ behind)) : Orderly front := by
  induction behind using List.reverseRecOn with
  | nil => rwa [List.append_nil] at orderly
  | append_singleton behind op ih =>
    rw [← List.append_assoc] at orderly
    exact ih orderly.of_concat.1

/-- The allocations have the numbers from zero on, in order. -/
theorem allocated (orderly : Orderly ops) :
    (ops.filter isAlloc).map TraceOp.id = List.range (ops.countP isAlloc) := by
  induction orderly with
  | nil => rfl
  | alloc orderly some ih =>
    rw [List.filter_append, List.map_append, ih, List.countP_append]
    exact List.range_succ.symm
  | realloc orderly live some ih => simpa [isAlloc] using ih
  | free orderly live ih => simpa [isAlloc] using ih

theorem exists_alloc_iff (orderly : Orderly ops) :
    (∃ size, .alloc id size ∈ ops) ↔ id < ops.countP isAlloc := by
  rw [← List.mem_range, ← orderly.allocated, List.mem_map]
  constructor
  · rintro ⟨size, member⟩
    exact ⟨.alloc id size, List.mem_filter.mpr ⟨member, rfl⟩, rfl⟩
  · rintro ⟨op, member, rfl⟩
    obtain ⟨member, allocates⟩ := List.mem_filter.mp member
    cases op with
    | alloc id size => exact ⟨size, member⟩
    | realloc id size => cases allocates
    | free id => cases allocates

/-- Exactly the blocks that have been allocated and are not live have been released. -/
theorem free_mem_iff (orderly : Orderly ops) :
    .free id ∈ ops ↔ id < ops.countP isAlloc ∧ id ∉ liveIds ops := by
  induction orderly with
  | nil => simp
  | @alloc ops size orderly some ih =>
    rw [TraceOp.liveIds_concat, TraceOp.after, if_neg (Nat.ne_of_gt some), Finset.mem_insert]
    simp only [List.mem_append, List.mem_singleton, reduceCtorEq, or_false, ih, List.countP_append,
      List.countP_singleton, isAlloc, if_true]
    constructor
    · rintro ⟨older, dead⟩
      exact ⟨by omega, by rintro (rfl | live); exacts [Nat.lt_irrefl _ older, dead live]⟩
    · rintro ⟨known, other⟩
      obtain ⟨different, dead⟩ := not_or.mp other
      exact ⟨by omega, dead⟩
  | @realloc ops named size orderly live some ih =>
    rw [TraceOp.liveIds_concat, TraceOp.after, if_neg (Nat.ne_of_gt some),
      Finset.insert_eq_of_mem live]
    simpa [isAlloc] using ih
  | @free ops named orderly live ih =>
    rw [TraceOp.liveIds_concat, TraceOp.after, Finset.mem_erase]
    simp only [List.mem_append, List.mem_singleton, TraceOp.free.injEq, ih, List.countP_append,
      List.countP_singleton, isAlloc]
    by_cases same : id = named
    · subst same
      simp [orderly.lt_countP id live]
    · simp [same]

/-- What is live has been allocated, and not released. -/
theorem mem_liveIds_iff (orderly : Orderly ops) :
    id ∈ liveIds ops ↔ (∃ size, .alloc id size ∈ ops) ∧ .free id ∉ ops := by
  rw [orderly.exists_alloc_iff, orderly.free_mem_iff]
  constructor
  · exact fun live => ⟨orderly.lt_countP id live, fun dead => dead.2 live⟩
  · rintro ⟨known, kept⟩
    by_contra dead
    exact kept ⟨known, dead⟩

/-- No block is released twice. -/
theorem nodup_freed (orderly : Orderly ops) : ((ops.filter isFree).map TraceOp.id).Nodup := by
  induction orderly with
  | nil => exact List.nodup_nil
  | alloc orderly some ih => simpa [isFree] using ih
  | realloc orderly live some ih => simpa [isFree] using ih
  | @free ops named orderly live ih =>
    have new : named ∉ (ops.filter isFree).map TraceOp.id := by
      intro member
      obtain ⟨op, listed, rfl⟩ := List.mem_map.mp member
      obtain ⟨member, frees⟩ := List.mem_filter.mp listed
      cases op with
      | free id => exact (orderly.free_mem_iff.mp member).2 live
      | alloc id size => cases frees
      | realloc id size => cases frees
    rw [List.filter_append, List.map_append]
    exact (List.perm_append_singleton named _).nodup_iff.mpr (List.nodup_cons.mpr ⟨new, ih⟩)

/-- If nothing is left live, every block has been released exactly once. -/
theorem freed (orderly : Orderly ops) (released : liveIds ops = ∅) :
    ((ops.filter isFree).map TraceOp.id).Perm (List.range (ops.countP isAlloc)) := by
  refine (List.perm_ext_iff_of_nodup orderly.nodup_freed List.nodup_range).mpr fun id => ?_
  have gone : .free id ∈ ops ↔ id < ops.countP isAlloc := by
    rw [orderly.free_mem_iff, released]
    exact and_iff_left (Finset.notMem_empty _)
  rw [List.mem_range, ← gone, List.mem_map]
  constructor
  · rintro ⟨op, listed, rfl⟩
    obtain ⟨member, frees⟩ := List.mem_filter.mp listed
    cases op with
    | free id => exact member
    | alloc id size => cases frees
    | realloc id size => cases frees
  · exact fun member => ⟨.free id, List.mem_filter.mpr ⟨member, rfl⟩, rfl⟩

/-- The operations are about blocks that are allocated somewhere in the trace. -/
theorem id_lt_countP (orderly : Orderly ops) : ∀ op ∈ ops, op.id < ops.countP isAlloc := by
  induction orderly with
  | nil => exact fun _ never => absurd never List.not_mem_nil
  | alloc orderly some ih =>
    rw [List.forall_mem_append, List.countP_append]
    refine ⟨fun op member => Nat.lt_add_right _ (ih op member), ?_⟩
    exact List.forall_mem_singleton.mpr (Nat.lt_succ_self _)
  | @realloc ops id size orderly live some ih =>
    rw [List.forall_mem_append, List.countP_append]
    refine ⟨fun op member => Nat.lt_add_right _ (ih op member), ?_⟩
    exact List.forall_mem_singleton.mpr (Nat.lt_add_right _ (orderly.lt_countP id live))
  | @free ops id orderly live ih =>
    rw [List.forall_mem_append, List.countP_append]
    refine ⟨fun op member => Nat.lt_add_right _ (ih op member), ?_⟩
    exact List.forall_mem_singleton.mpr (Nat.lt_add_right _ (orderly.lt_countP id live))

/-- No operation asks for more bytes than are live at the peak. -/
theorem size_le_peakBytes (orderly : Orderly ops) : ∀ op ∈ ops, op.size ≤ peakBytes ops := by
  induction ops using List.reverseRecOn with
  | nil => exact fun _ never => absurd never List.not_mem_nil
  | append_singleton ops op ih =>
    rw [TraceOp.peakBytes_concat]
    refine List.forall_mem_append.mpr ⟨?earlier, List.forall_mem_singleton.mpr ?last⟩
    case earlier =>
      intro other member
      exact (ih orderly.of_concat.1 other member).trans (le_max_left ..)
    case last =>
      refine le_trans ?_ (le_max_right ..)
      by_cases none : op.size = 0
      · exact none.trans_le (Nat.zero_le _)
      · have held : TraceOp.sizes (ops ++ [op]) op.id = op.size := by
          rw [TraceOp.sizes_concat, TraceOp.resized_self (Nat.pos_of_ne_zero none)]
        rw [TraceOp.liveBytes_eq_add _ op.id, held]
        exact Nat.le_add_right ..

end Orderly

/-! ## Generated traces -/

namespace Workload

variable {trace : Trace} {b : Builder}

/-- A balanced trace is read back from its text, if its numbers fit in 64 bits. -/
theorem Balanced.ofText_text (balanced : Balanced trace)
    (peak : trace.suggestedHeapSize < wordLimit) (length : trace.ops.length < wordLimit)
    (weight : trace.weight < wordLimit) :
    Trace.ofText trace.text = .ok trace := by
  have within : trace.Within := by
    intro op member
    rw [balanced.numbered]
    exact balanced.orderly.id_lt_countP op member
  have counted : trace.idCount < wordLimit := by
    rw [balanced.numbered]
    exact Nat.lt_of_le_of_lt List.countP_le_length length
  have sizes : ∀ op ∈ trace.ops, op.size < wordLimit := by
    intro op member
    refine Nat.lt_of_le_of_lt (balanced.orderly.size_le_peakBytes op member) ?_
    rwa [← balanced.suggested]
  refine Trace.ofText_text ⟨?_, fun op member => (within op member).trans counted, sizes⟩ within
  simpa [Trace.header] using ⟨peak, counted, length, weight⟩

/-- A trace whose blocks are all numbered in turn, used while they are live, and released once. -/
structure Complete (count : Nat) (trace : Trace) : Prop where
  enough : count ≤ trace.ops.length
  most : trace.ops.length ≤ 2 * (count + 144)
  /-- The allocations have the numbers from zero on, and these are all. -/
  allocated : (trace.ops.filter isAlloc).map TraceOp.id = List.range trace.idCount
  /-- No request is empty. -/
  asked : ∀ op ∈ trace.ops, op.isFree = false → 0 < op.size
  /-- Every other operation is about a block that has been allocated and not yet released. -/
  live : ∀ front op behind, trace.ops = front ++ op :: behind → op.isAlloc = false →
    (∃ size, .alloc op.id size ∈ front) ∧ .free op.id ∉ front
  /-- Every block is released exactly once. -/
  freed : ((trace.ops.filter isFree).map TraceOp.id).Perm (List.range trace.idCount)
  /-- The trace is read back from its text. -/
  reads : trace.ops.length < wordLimit → Trace.ofText trace.text = .ok trace

theorem Reaches.complete {count limit : Nat} (reaches : Reaches count limit b) :
    Complete count b.finish := by
  have balanced := reaches.keeps.tracks.finish
  have orderly := balanced.orderly
  have length : b.finish.ops.length = b.ops.size + b.live.size := by simp [Builder.finish]
  have enough := reaches.enough
  have most := reaches.most
  have live := reaches.keeps.tracks.live_le
  constructor
  case enough => omega
  case most => omega
  case allocated => rw [balanced.numbered, orderly.allocated]
  case asked =>
    intro op member
    obtain ⟨front, behind, split⟩ := List.append_of_mem member
    rw [split, List.append_cons] at orderly
    exact orderly.of_append.of_concat.2.2
  case live =>
    intro front op behind split other
    rw [split, List.append_cons] at orderly
    obtain ⟨before, known, -⟩ := orderly.of_append.of_concat
    exact before.mem_liveIds_iff.mp (known other)
  case freed =>
    rw [balanced.numbered]
    exact orderly.freed balanced.released
  case reads =>
    exact fun short => balanced.ofText_text reaches.keeps.small short (Nat.one_lt_succ_succ _)

/-- Generation comes to a complete trace: its rounds end because there are as many operations as
were asked for, and the blocks then live are released. Only an overflow prevents that, and only if
the bound on all numbers on the way leaves 64 bits. -/
theorem generate_complete (profile : Profile) (seed : UInt64) (count maxSize : Nat) :
    generate profile seed count maxSize = .error .overflow ∧
        wordLimit ≤ (count + 144) * (max maxSize 16 + 64) ∨
      ∃ b, build profile seed count (max maxSize 16) = .ok b ∧ count ≤ b.ops.size ∧
        generate profile seed count maxSize = .ok b.finish ∧ Complete count b.finish := by
  have some : 16 ≤ max maxSize 16 := Nat.le_max_right ..
  have built : Computes (reach count (max maxSize 16)) (Reaches count (max maxSize 16 + 64))
      (build profile seed count (max maxSize 16)) := build_computes some
  rcases built.overflow_or_ok with ⟨overflows, large⟩ | ⟨b, known, reaches⟩
  · left
    rw [generate, overflows]
    exact ⟨rfl, large⟩
  · right
    refine ⟨b, known, reaches.enough, ?_, reaches.complete⟩
    rw [generate, Fault.bind_of_ok known]
    rfl

end Workload

end BoundaryHeap
