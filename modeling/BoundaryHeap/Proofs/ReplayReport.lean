import BoundaryHeap.Proofs.LiveBytes
import BoundaryHeap.Proofs.ReleaseOrder

/-!
What a replay reports. Three views of what is live keep step with each other: what the trace says,
the table of the replay with the bytes it adds up, and the blocks in use in the heap. So the peak of
a replay is that of its trace, and at the end the heap has a block in use for each number that is
live, and no others.
-/

namespace BoundaryHeap.Replay

section Running

variable {limit : Nat} {s : State} {ids : Finset Nat} {ledger : Ledger}
  {chain nodes : List ChainBlock}

/-- No block of the table starts in front of the first payload. -/
theorem Running.starts (running : Running limit s ids ledger chain nodes) :
    ∀ block ∈ s.live, 32 ≤ block.start := by
  intro block member
  obtain ⟨b, inChain, -, place, -⟩ := running.backs.exists_block (running.shown block member)
  exact place ▸ (running.backs.laid.settled.holds.within b inChain).1

/-- The bytes that are live fit in the memory beside the sentinels. -/
theorem Running.add_liveBytes_le (running : Running limit s ids ledger chain nodes) :
    32 + s.liveBytes ≤ s.heap.memory.size := by
  rw [running.liveBytes]
  exact running.sound.add_sum_le running.starts running.backs.laid.settled.tiles.le

/-- There is one number for each block of the table. -/
theorem Running.card_eq (running : Running limit s ids ledger chain nodes) :
    ids.card = s.live.length := by
  have same : ids = (s.live.map (·.id)).toFinset := by
    ext id
    rw [running.listed, List.mem_toFinset, List.mem_map]
  rw [same, List.toFinset_card_of_nodup running.sound.numbered, List.length_map]

/-- The blocks in use in the heap are those of the table. -/
theorem Running.perm_used (running : Running limit s ids ledger chain nodes)
    (covers : Covers s.live none ledger) :
    ((usedOf chain).map (·.bp)).Perm (s.live.map (·.start)) := by
  have settled := running.backs.laid.settled
  have places : ((usedOf chain).map (·.bp)).Nodup :=
    (settled.tiles.different settled.holds.legal).sublist (List.filter_sublist.map _)
  refine (List.perm_ext_iff_of_nodup places running.sound.starts_nodup).mpr fun ptr => ?_
  simp only [List.mem_map]
  constructor
  · rintro ⟨b, member, rfl⟩
    exact (covers b.bp (running.backs.backed.entered b member)).resolve_left fun never => by
      cases never
  · rintro ⟨block, member, rfl⟩
    obtain ⟨b, inChain, used, place, -⟩ := running.backs.exists_block (running.shown block member)
    exact ⟨b, mem_usedOf.mpr ⟨inChain, used⟩, place⟩

/-- The heap has a block in use for each number that is live, and no others. -/
theorem Running.length_used (running : Running limit s ids ledger chain nodes)
    (covers : Covers s.live none ledger) : (usedOf chain).length = ids.card := by
  have same := (running.perm_used covers).length_eq
  rwa [List.length_map, List.length_map, ← running.card_eq] at same

/-- The bytes that are live are those the trace says, if the blocks of the table have the sizes the
trace says. -/
theorem Running.liveBytes_eq {ops : List TraceOp}
    (running : Running limit s (TraceOp.liveIds ops) ledger chain nodes)
    (sizes : ∀ block ∈ s.live, TraceOp.sizes ops block.id = block.size) :
    s.liveBytes = TraceOp.liveBytes ops := by
  have listed : ∀ id, id ∈ TraceOp.liveIds ops ↔ id ∈ s.live.map (·.id) := by
    intro id
    rw [running.listed, List.mem_map]
  rw [running.liveBytes, TraceOp.liveBytes_eq_sum running.sound.numbered listed, List.map_map]
  exact congrArg List.sum (List.map_congr_left fun block member => (sizes block member).symm)

end Running

/-! ## Counting along -/

namespace State

variable (s : State) (op : TraceOp)

@[simp] theorem heap_count : (s.count op).heap = s.heap := by
  cases op <;> rfl

@[simp] theorem live_count : (s.count op).live = s.live := by
  cases op <;> rfl

@[simp] theorem liveBytes_count : (s.count op).liveBytes = s.liveBytes := by
  cases op <;> rfl

@[simp] theorem peakLiveBytes_count : (s.count op).peakLiveBytes = s.peakLiveBytes := by
  cases op <;> rfl

theorem allocs_count : (s.count op).allocs = s.allocs + [op].countP TraceOp.isAlloc := by
  cases op <;> rfl

theorem reallocs_count : (s.count op).reallocs = s.reallocs + [op].countP TraceOp.isRealloc := by
  cases op <;> rfl

theorem frees_count : (s.count op).frees = s.frees + [op].countP TraceOp.isFree := by
  cases op <;> rfl

end State

section Tallied

variable {limit index : Nat} {trace : Trace} {options : Options} {s carried : State}
  {ops : List TraceOp} {op : TraceOp}

/-- A replay has counted what some operations come to. -/
structure Tallied (ops : List TraceOp) (s : State) : Prop where
  sizes : ∀ block ∈ s.live, TraceOp.sizes ops block.id = block.size
  peak : s.peakLiveBytes = TraceOp.peakBytes ops
  fits : 32 + s.peakLiveBytes ≤ s.heap.memory.size
  room : 32 < s.heap.memory.size
  allocs : s.allocs = ops.countP TraceOp.isAlloc
  reallocs : s.reallocs = ops.countP TraceOp.isRealloc
  frees : s.frees = ops.countP TraceOp.isFree

/-- Nothing has been counted yet. -/
theorem Tallied.start {config : HeapConfig} {heap : Heap LimitedArena}
    (laidOut : Heap.init.run (Heap.withConfig config) = .ok (.ok ()) heap) :
    Tallied [] ⟨heap, [], 0, 0, 0, 0, 0⟩ := by
  obtain ⟨_, _, sound⟩ := Heap.Sound.start laidOut
  exact
    { sizes := fun _ member => absurd member List.not_mem_nil
      peak := rfl
      fits := sound.room.le
      room := sound.room
      allocs := rfl
      reallocs := rfl
      frees := rfl }

/-- The blocks of the table have the sizes the trace says after one more operation too. -/
theorem Tallied.sizes_concat (tallied : Tallied ops s) (moves : s.Moves op carried)
    (some : ∀ block ∈ carried.live, 0 < block.size) :
    ∀ block ∈ carried.live, TraceOp.sizes (ops ++ [op]) block.id = block.size := by
  intro block member
  rw [TraceOp.sizes_concat]
  cases moves.entered block member with
  | inl kept =>
    rw [TraceOp.resized_of_ne kept.2]
    exact tallied.sizes block kept.1
  | inr named =>
    obtain ⟨same, size⟩ := named
    have asks : 0 < op.size := size ▸ some block member
    rw [same, TraceOp.resized_self asks, size]

/-- One more operation is counted as the trace says. -/
theorem Tallied.step (tallied : Tallied ops s) (moves : s.Moves op carried)
    (before : UnderWay limit s (TraceOp.liveIds ops))
    (after : UnderWay limit (carried.count op) (TraceOp.liveIds (ops ++ [op]))) :
    Tallied (ops ++ [op]) (carried.count op) := by
  obtain ⟨_, _, _, running, -⟩ := before
  obtain ⟨_, _, _, running', -⟩ := after
  have some := running'.sound.some
  rw [State.live_count] at some
  have sizes := tallied.sizes_concat moves some
  have old := running.liveBytes_eq tallied.sizes
  have new := running'.liveBytes_eq (by rwa [State.live_count])
  have fits := running'.add_liveBytes_le
  rw [State.liveBytes_count] at new fits
  rw [State.heap_count] at fits
  have reached := TraceOp.liveBytes_le_peakBytes ops
  have peak := tallied.peak
  have former := tallied.fits
  have larger := moves.larger
  constructor
  case sizes => rwa [State.live_count]
  case peak =>
    rw [State.peakLiveBytes_count, TraceOp.peakBytes_concat, ← new, ← peak]
    rcases moves.peak with ⟨same, fewer⟩ | higher
    · rw [same, max_eq_left (by omega)]
    · exact higher
  case fits =>
    rw [State.peakLiveBytes_count, State.heap_count]
    rcases moves.peak with ⟨same, -⟩ | higher <;> omega
  case room =>
    rw [State.heap_count]
    exact tallied.room.trans_le larger
  case allocs => rw [State.allocs_count, List.countP_append, ← tallied.allocs, moves.allocs]
  case reallocs => rw [State.reallocs_count, List.countP_append, ← tallied.reallocs, moves.reallocs]
  case frees => rw [State.frees_count, List.countP_append, ← tallied.frees, moves.frees]

/-! ## Whole replays -/

/-- Before the last of the operations carried out there were the others. -/
theorem Comes.exists_before {s' : State} (comes : Comes trace options (index + 1) s')
    (here : trace.ops[index]? = some op) :
    ∃ s, Comes trace options index s ∧
      (applyAll options trace.idCount index [op]).run.run s = .ok (.ok ()) s' := by
  obtain ⟨heap, laidOut, ran⟩ := comes
  have within : index < trace.ops.length := (List.getElem?_eq_some_iff.mp here).1
  have length : (trace.ops.take index).length = index := List.length_take_of_le within.le
  rw [List.take_add_one, here, Option.toList_some, applyAll_append, length, Nat.zero_add,
    ExceptT.run_bind] at ran
  obtain ⟨ended, s, before, rest⟩ := Action.run_bind_eq_ok.mp ran
  cases ended with
  | error error => cases rest
  | ok done => exact ⟨s, ⟨heap, laidOut, before⟩, rest⟩

/-- What a replay has counted when it comes to operation `index`. -/
theorem Comes.tallied (comes : Comes trace options index s) (within : index ≤ trace.ops.length) :
    UnderWay options.config.maxArenaBytes s (trace.liveIds index) ∧
      Tallied (trace.ops.take index) s := by
  induction index generalizing s with
  | zero =>
    obtain ⟨heap, laidOut, ran⟩ := comes
    cases ran
    exact ⟨UnderWay.start laidOut, Tallied.start laidOut⟩
  | succ index ih =>
    have here := List.getElem?_eq_getElem within
    obtain ⟨before, comes', ran⟩ := comes.exists_before here
    obtain ⟨underWay, tallied⟩ := ih comes' (Nat.le_of_succ_le within)
    obtain ⟨after, ⟨carried, moves, rfl⟩, -⟩ := (underWay.step options _ index _).holds ran
    rw [← Trace.liveIds_succ here] at after
    have counted : trace.ops.take (index + 1) = trace.ops.take index ++ [trace.ops[index]] := by
      rw [List.take_add_one, here, Option.toList_some]
    refine ⟨after, ?_⟩
    rw [Trace.liveIds, counted] at after
    rw [counted]
    exact tallied.step moves underWay after

/-- A report is that of the state in which the last operation leaves the replay. -/
theorem exists_comes_of_run {outcome : Outcome} {found : Report}
    (ran : run trace options = .ok outcome) (ended : outcome.result = .ok found) :
    ∃ s, Comes trace options trace.ops.length s ∧ report trace options s = .ok found := by
  obtain ⟨begun, started, ran⟩ := Fault.bind_eq_ok.mp ran
  obtain ⟨reason, records, rfl⟩ | ⟨heap, laidOut, rfl⟩ := start_eq_ok started
  · cases ran
    cases ended
  obtain ⟨⟨stopped, s⟩, played, finished⟩ := Fault.bind_eq_ok.mp ran
  cases stopped with
  | error error =>
    cases finished
    cases ended
  | ok done =>
    obtain ⟨reported, known, same⟩ := Fault.bind_eq_ok.mp finished
    cases same
    cases ended
    refine ⟨s, ⟨heap, laidOut, ?_⟩, known⟩
    rw [List.take_length]
    exact Action.result_eq_ok.mp played

/-- What a replay had counted when it made its report. -/
theorem exists_tallied_of_run {outcome : Outcome} {found : Report}
    (ran : run trace options = .ok outcome) (ended : outcome.result = .ok found) :
    ∃ s, Comes trace options trace.ops.length s ∧
      UnderWay options.config.maxArenaBytes s (trace.liveIds trace.ops.length) ∧
      Tallied trace.ops s ∧ report trace options s = .ok found := by
  obtain ⟨s, comes, reported⟩ := exists_comes_of_run ran ended
  obtain ⟨underWay, tallied⟩ := comes.tallied (Nat.le_refl _)
  rw [List.take_length] at tallied
  exact ⟨s, comes, underWay, tallied, reported⟩

theorem peakLiveBytes_of_report {found : Report} (reported : report trace options s = .ok found) :
    found.peakLiveBytes = s.peakLiveBytes := by
  obtain ⟨_, -, same⟩ := Fault.bind_eq_ok.mp reported
  cases same
  rfl

/-- A replay that came to its end has a report. -/
theorem exists_report_of_verdict (completed : verdict trace options = .ok (.ok ())) :
    ∃ outcome found, run trace options = .ok outcome ∧ outcome.result = .ok found := by
  rw [verdict] at completed
  cases ran : run trace options with
  | error fault =>
    rw [ran] at completed
    cases completed
  | ok outcome =>
    rw [ran] at completed
    cases ended : outcome.result with
    | error error =>
      rw [Except.map, ended] at completed
      cases completed
    | ok found =>
      exact ⟨outcome, found, rfl, ended⟩

/-- A report gives the account of its trace: how many operations there are of each kind, the most
bytes that were live, which fit in the memory beside the sentinels, and, in the heap that is left, a
block in use for each number still live. If there is none, the heap is one free block again. -/
theorem report_accounts {outcome : Outcome} {found : Report}
    (ran : run trace options = .ok outcome) (ended : outcome.result = .ok found) :
    (found.ops = trace.ops.length ∧
      found.allocs + found.reallocs + found.frees = trace.ops.length ∧
      found.allocs = trace.ops.countP TraceOp.isAlloc ∧
      found.reallocs = trace.ops.countP TraceOp.isRealloc ∧
      found.frees = trace.ops.countP TraceOp.isFree) ∧
    found.peakLiveBytes = TraceOp.peakBytes trace.ops ∧
    found.peakLiveBytes + 32 ≤ found.arenaBytes ∧
    (∃ s totals, Comes trace options trace.ops.length s ∧ s.heap.stats = .ok totals ∧
      totals.allocatedBlocks = (trace.liveIds trace.ops.length).card ∧
      found.freeBlocksAtEnd = totals.freeBlocks ∧ found.arenaBytes = totals.arenaBytes) ∧
    (trace.liveIds trace.ops.length = ∅ → found.freeBlocksAtEnd = 1) := by
  obtain ⟨s, comes, ⟨ledger, chain, nodes, running, covers⟩, tallied, reported⟩ :=
    exists_tallied_of_run ran ended
  have laid := running.backs.laid
  have inUse := running.length_used covers
  rw [report, Fault.bind_of_ok laid.stats_eq] at reported
  cases reported
  refine ⟨⟨rfl, ?_, tallied.allocs, tallied.reallocs, tallied.frees⟩, tallied.peak, ?_,
    ⟨s, _, comes, laid.stats_eq, inUse, rfl, rfl⟩, ?_⟩
  · rw [← TraceOp.countP_kinds, ← tallied.allocs, ← tallied.reallocs, ← tallied.frees]
  · exact Nat.add_comm 32 _ ▸ tallied.fits
  · intro none
    have unused : usedOf chain = [] := by
      rw [← List.length_eq_zero_iff, inUse, none, Finset.card_empty]
    obtain rfl : chain = [Heap.whole (s.heap.memory.size - 32)] :=
      laid.chain_eq_whole unused tallied.room
    rfl

/-- Two blocks are live when one of them is resized to nothing and the other is released. -/
theorem report_accounts_two :
    ∃ outcome found,
      run ⟨0, 2, 1, [.alloc 0 3, .realloc 1 5, .realloc 0 0, .alloc 0 0, .free 1]⟩
        ⟨{ HeapConfig.standard with chunkSize := 64 }, true⟩ = .ok outcome ∧
      outcome.result = .ok found ∧ found.peakLiveBytes = 8 ∧ found.freeBlocksAtEnd = 1 := by
  have completed : verdict ⟨0, 2, 1, [.alloc 0 3, .realloc 1 5, .realloc 0 0, .alloc 0 0,
      .free 1]⟩ ⟨{ HeapConfig.standard with chunkSize := 64 }, true⟩ = .ok (.ok ()) := by
    decide +kernel
  obtain ⟨outcome, found, ran, ended⟩ := exists_report_of_verdict completed
  obtain ⟨-, peak, -, -, whole⟩ := report_accounts ran ended
  exact ⟨outcome, found, ran, ended, peak.trans (by decide), whole (by decide)⟩

end Tallied

end BoundaryHeap.Replay
