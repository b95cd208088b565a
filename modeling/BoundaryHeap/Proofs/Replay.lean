import BoundaryHeap.Proofs.ReplayStep
import BoundaryHeap.Proofs.Runs
import BoundaryHeap.Proofs.Stats

/-!
Whole replays. What the operations of a trace make live can be told from the trace alone. A replay
comes to the end of its trace, or stops at the first operation that names a number beyond those
announced, allocates what is live, or is refused by the heap; no test of a block ever fails.
-/

namespace BoundaryHeap

/-! ## Traces -/

namespace TraceOp

/-- The bytes that an operation asks for. -/
def size : TraceOp → Nat
  | alloc _ size => size
  | realloc _ size => size
  | free _ => 0

/-- The numbers that are live after an operation. -/
def after (ids : Finset Nat) : TraceOp → Finset Nat
  | alloc id size => if size = 0 then ids else insert id ids
  | realloc id size => if size = 0 then ids.erase id else insert id ids
  | free id => ids.erase id

/-- An operation allocates what is live. -/
def Repeats (ids : Finset Nat) : TraceOp → Prop
  | alloc id _ => id ∈ ids
  | realloc .. => False
  | free _ => False

end TraceOp

namespace Trace

/-- The numbers that are live after the first `index` operations. -/
def liveIds (t : Trace) (index : Nat) : Finset Nat := (t.ops.take index).foldl TraceOp.after ∅

theorem liveIds_succ {t : Trace} {index : Nat} {op : TraceOp} (here : t.ops[index]? = some op) :
    t.liveIds (index + 1) = op.after (t.liveIds index) := by
  rw [liveIds, List.take_add_one, here, Option.toList_some, List.foldl_append]
  rfl

end Trace

namespace Replay

/-! ## One operation -/

/-- What an operation asks of the heap. -/
def heapCall (s : State) (op : TraceOp) : Action (Heap LimitedArena) (Option Nat) :=
  request (s.live.find? op.id) op

/-- How a replay, or a part of it, ends: with a fault, stopped by an error, or having come to its
end. -/
abbrev Verdict := Except Fault (Except ReplayError Unit)

/-- An operation can be put to the heap: its number is announced, and it allocates nothing live. -/
structure Admissible (idCount : Nat) (ids : Finset Nat) (op : TraceOp) : Prop where
  known : op.id < idCount
  new : ¬ op.Repeats ids

/-- How operation `index` of a trace ends, put to a replay in state `s` with the numbers `ids`
live. -/
inductive OpEnds (idCount index : Nat) (ids : Finset Nat) (s : State) (op : TraceOp) :
    Verdict → Prop
  | unknownId (beyond : idCount ≤ op.id) :
    OpEnds idCount index ids s op (.ok (.error (.unknownId index op.id idCount)))
  | idInUse (known : op.id < idCount) (again : op.Repeats ids) :
    OpEnds idCount index ids s op (.ok (.error (.idInUse index op.id)))
  | outOfMemory {heap : Heap LimitedArena} (admissible : Admissible idCount ids op)
    (asks : op.size ≠ 0) (refused : (heapCall s op).run s.heap = .ok none heap) :
    OpEnds idCount index ids s op (.ok (.error (.outOfMemory index op.id op.size)))
  | served {answer : Option Nat} {heap : Heap LimitedArena} (admissible : Admissible idCount ids op)
    (ran : (heapCall s op).run s.heap = .ok answer heap) (enough : answer = none → op.size = 0) :
    OpEnds idCount index ids s op (.ok (.ok ()))
  | broken {fault : Fault} {heap : Heap LimitedArena} (admissible : Admissible idCount ids op)
    (ran : (heapCall s op).run s.heap = .error fault heap) :
    OpEnds idCount index ids s op (.error fault)

/-- There is one way only for an operation to end. -/
theorem OpEnds.unique {idCount index : Nat} {ids : Finset Nat} {s : State} {op : TraceOp}
    {verdict other : Verdict} (ends : OpEnds idCount index ids s op verdict)
    (ends' : OpEnds idCount index ids s op other) : verdict = other := by
  cases ends <;> cases ends' <;> grind [Admissible]

section Operations

variable {limit idCount index id size : Nat} {s : State} {ids : Finset Nat} {ledger : Ledger}
  {chain nodes : List ChainBlock}

/-- A replay is under way with the numbers `ids` live: the heap holds the blocks of the table, and
no others. -/
def UnderWay (limit : Nat) (s : State) (ids : Finset Nat) : Prop :=
  ∃ ledger chain nodes, Running limit s ids ledger chain nodes ∧ Covers s.live none ledger

/-- What carrying out an operation makes of the table of live blocks and of what is counted. -/
structure State.Moves (s : State) (op : TraceOp) (s' : State) : Prop where
  entered : ∀ block ∈ s'.live,
    block ∈ s.live ∧ block.id ≠ op.id ∨ block.id = op.id ∧ block.size = op.size
  peak : s'.peakLiveBytes = s.peakLiveBytes ∧ s'.liveBytes ≤ s.liveBytes ∨
    s'.peakLiveBytes = max s.peakLiveBytes s'.liveBytes
  larger : s.heap.memory.size ≤ s'.heap.memory.size
  allocs : s'.allocs = s.allocs
  reallocs : s'.reallocs = s.reallocs
  frees : s'.frees = s.frees

/-- A part of a replay ends as the operation does, and goes on only with the numbers live that the
operation leaves live. -/
def Step.Follows (part : Step Unit) (limit idCount index : Nat) (ids : Finset Nat) (s : State)
    (op : TraceOp) : Prop :=
  part.Meets s
    (fun fault => Overgrown (capacityLimit ≤ limit) fault ∧
      OpEnds idCount index ids s op (.error fault))
    (fun error => OpEnds idCount index ids s op (.ok (.error error)))
    fun _ s' => UnderWay limit s' (op.after ids) ∧ s.Moves op s' ∧
      OpEnds idCount index ids s op (.ok (.ok ()))

/-- The block of an operation enters the table, in the place of the block of its number. -/
theorem State.Moves.enters {op : TraceOp} {heap : Heap LimitedArena} {ptr bytes : Nat}
    (larger : s.heap.memory.size ≤ heap.memory.size) :
    s.Moves op { s with
      heap
      live := LiveTable.insert (s.live.erase op.id) ⟨op.id, ptr, op.size⟩
      liveBytes := bytes + op.size
      peakLiveBytes := max s.peakLiveBytes (bytes + op.size) } where
  entered := by
    intro block member
    cases LiveTable.mem_insert.mp member with
    | inl same =>
      subst same
      exact .inr ⟨rfl, rfl⟩
    | inr member =>
      exact .inl (LiveTable.mem_erase.mp member)
  peak := .inr rfl
  larger := larger
  allocs := rfl
  reallocs := rfl
  frees := rfl

/-- The block of the number of an operation leaves the table. -/
theorem State.Moves.leaves {op : TraceOp} {heap : Heap LimitedArena} {bytes : Nat}
    (fewer : bytes ≤ s.liveBytes) (larger : s.heap.memory.size ≤ heap.memory.size) :
    s.Moves op { s with heap, live := s.live.erase op.id, liveBytes := bytes } where
  entered := fun _ member => .inl (LiveTable.mem_erase.mp member)
  peak := .inl ⟨rfl, fewer⟩
  larger := larger
  allocs := rfl
  reallocs := rfl
  frees := rfl

/-- Where the heap hands out nothing, the replay goes on only if nothing was asked for. -/
theorem Admissible.answered_none {op : TraceOp} (admissible : Admissible idCount ids op)
    {heap : Heap LimitedArena} (ran : (heapCall s op).run s.heap = .ok none heap) {s' : State}
    {excused : Fault → Prop}
    (follows : op.size = 0 → UnderWay limit s' (op.after ids) ∧ s.Moves op s') :
    (require (op.size = 0) (.outOfMemory index op.id op.size)).Meets s' excused
      (fun error => OpEnds idCount index ids s op (.ok (.error error)))
      fun _ s' => UnderWay limit s' (op.after ids) ∧ s.Moves op s' ∧
        OpEnds idCount index ids s op (.ok (.ok ())) := by
  apply Step.Meets.require_last
  · intro nothing
    obtain ⟨underWay, moves⟩ := follows nothing
    exact ⟨underWay, moves, .served admissible ran fun _ => nothing⟩
  · intro asks
    exact .outOfMemory admissible asks ran

theorem Running.alloc (running : Running limit s ids ledger chain nodes)
    (covers : Covers s.live none ledger) (index : Nat) (known : id < idCount) :
    (carryOutWith onHeap index (.alloc id size)).Follows limit idCount index ids s
      (.alloc id size) := by
  have prepared : (prepare index (.alloc id size)).Meets s
      (fun fault => Overgrown (capacityLimit ≤ limit) fault ∧
        OpEnds idCount index ids s (.alloc id size) (.error fault))
      (fun error => OpEnds idCount index ids s (.alloc id size) (.ok (.error error)))
      fun old s' => old = none ∧ s = s' ∧ id ∉ ids := by
    apply Step.Meets.look rfl
    by_cases again : id ∈ ids
    · have live : (s.live.find? id).isNone = false := by
        rw [Option.isNone_eq_false_iff, ← Option.ne_none_iff_isSome]
        exact fun dead => running.find?_eq_none_iff.mp dead again
      exact Step.Meets.require_false live (.idInUse known again)
    · have dead := running.find?_eq_none_iff.mpr again
      apply Step.Meets.require (by rw [dead]; rfl)
      exact Step.Meets.pure ⟨rfl, rfl, again⟩
  rw [Step.Follows, carryOutWith]
  apply Step.Meets.bind prepared
  rintro _ _ ⟨rfl, rfl, again⟩
  have dead := running.find?_eq_none_iff.mpr again
  have erased : s.live.erase id = s.live :=
    LiveTable.erase_eq_self (LiveTable.find?_eq_none.mp dead)
  have admissible : Admissible idCount ids (.alloc id size) := ⟨known, again⟩
  refine Step.Meets.bind (Step.Meets.onHeap ((running.backs.allocate_ensures size).ran.excuse ?_))
    ?_
  · rintro fault ⟨overgrown, broken⟩
    obtain ⟨heap, ran⟩ := broken
    exact ⟨overgrown.imp_right fun overreaches => running.limit ▸ overreaches.le_limit,
      .broken admissible ran⟩
  rintro answer _ ⟨heap, ⟨⟨follows, fresh⟩, ran⟩, rfl⟩
  have larger := follows.1.continues.larger
  cases answer with
  | none =>
    obtain ⟨chain', nodes', running'⟩ := running.follows follows fun _ _ => rfl
    apply admissible.answered_none ran
    intro nothing
    have same : TraceOp.after ids (.alloc id size) = ids := if_pos nothing
    have moves : s.Moves (.alloc id size) { s with heap, live := s.live.erase id } :=
      .leaves (Nat.le_refl _) larger
    rw [erased] at moves
    rw [same]
    exact ⟨⟨_, chain', nodes', running', covers⟩, moves⟩
  | some ptr =>
    obtain ⟨asks, vacant⟩ := fresh ptr rfl
    have others : ∀ block ∈ s.live, block.start ≠ ptr := by
      intro block member same
      have shown := running.shown block member
      rw [same, vacant] at shown
      cases shown
    obtain ⟨chain', nodes', running'⟩ := running.follows follows fun block member =>
      Ledger.add_of_ne (others block member)
    have entered : TraceOp.after ids (.alloc id size) = insert id ids := if_neg asks
    rw [entered]
    refine (takeIn_meets running' Ledger.add_self rfl (bare_fresh size)
      (Nat.pos_of_ne_zero asks) again others).imp ?_
    rintro _ _ ⟨⟨chain'', nodes'', running''⟩, heap', rfl, larger'⟩
    have moves : s.Moves (.alloc id size) { s with
        heap := heap'
        live := LiveTable.insert (s.live.erase id) ⟨id, ptr, size⟩
        liveBytes := s.liveBytes + size
        peakLiveBytes := max s.peakLiveBytes (s.liveBytes + size) } :=
      .enters (Nat.le_trans larger larger')
    rw [erased] at moves
    exact ⟨⟨_, chain'', nodes'', running'', covers.add.hold.insert⟩, moves,
      .served admissible ran fun none => by cases none⟩

theorem Running.realloc (running : Running limit s ids ledger chain nodes)
    (covers : Covers s.live none ledger) (index : Nat) (known : id < idCount) :
    (carryOutWith onHeap index (.realloc id size)).Follows limit idCount index ids s
      (.realloc id size) := by
  have admissible : Admissible idCount ids (.realloc id size) := ⟨known, fun never => never⟩
  rw [Step.Follows, carryOutWith]
  apply Step.Meets.bind (takeOut_meets running index id)
  rintro old s' ⟨running', taken⟩
  have covers' := taken.covers running covers
  have call : heapCall s (.realloc id size) = Heap.resize (startOf old) size := by
    rw [heapCall, TraceOp.id, ← taken.found, request]
  refine Step.Meets.bind
    (Step.Meets.onHeap ((running'.backs.resize_ensures size taken.live).ran.excuse ?_)) ?_
  · rintro fault ⟨overgrown, broken⟩
    obtain ⟨heap, ran⟩ := broken
    rw [← call, taken.heap] at ran
    exact ⟨overgrown.imp_right fun overreaches => running'.limit ▸ overreaches.le_limit,
      .broken admissible ran⟩
  rintro answer _ ⟨heap, ⟨⟨follows, fresh⟩, ran⟩, rfl⟩
  have larger : s.heap.memory.size ≤ heap.memory.size := taken.heap ▸ follows.1.continues.larger
  rw [← call, taken.heap] at ran
  obtain ⟨bytes, fewer, state⟩ := taken.state
  cases answer with
  | none =>
    obtain ⟨chain', nodes', running''⟩ := running'.follows follows fun block member => by
      by_cases nothing : size = 0
      · simp only [Ledger.after, if_pos nothing, Ledger.drop_of_ne (taken.gone block member)]
      · simp only [Ledger.after, if_neg nothing, Option.elim_none]
    apply admissible.answered_none ran
    intro nothing
    have erased : TraceOp.after ids (.realloc id size) = ids.erase id := if_pos nothing
    have dropped : ledger.after (.resize (startOf old) size) (.block none) =
        ledger.drop (startOf old) := if_pos nothing
    rw [erased]
    rw [dropped] at running''
    refine ⟨⟨_, chain', nodes', running'', covers'.drop⟩, ?_⟩
    subst state
    exact .leaves fewer larger
  | some ptr =>
    obtain ⟨asks, vacant⟩ := fresh ptr rfl
    obtain ⟨holding, resized, requested, bare, pattern⟩ :=
      taken.resized running'.backs.null size
    have after : ledger.after (.resize (startOf old) size) (.block (some ptr)) =
        (ledger.drop (startOf old)).add ptr holding := by
      simp only [Ledger.after, if_neg asks, Option.elim_some, resized]
    have others : ∀ block ∈ s'.live, block.start ≠ ptr := by
      intro block member same
      have shown := running'.shown block member
      have kept : ledger.drop (startOf old) block.start = ledger block.start :=
        Ledger.drop_of_ne (taken.gone block member)
      rw [← kept, same, vacant] at shown
      cases shown
    obtain ⟨chain', nodes', running''⟩ := running'.follows follows fun block member => by
      rw [after, Ledger.add_of_ne (others block member),
        Ledger.drop_of_ne (taken.gone block member)]
    rw [after] at running''
    have entered : TraceOp.after ids (.realloc id size) = insert id (ids.erase id) := by
      rw [TraceOp.after, if_neg asks]
      ext other
      by_cases same : other = id <;> simp [same]
    rw [entered]
    apply verify_meets running'' Ledger.add_self pattern
    refine (takeIn_meets running'' Ledger.add_self requested bare (Nat.pos_of_ne_zero asks)
      (Finset.notMem_erase id ids) others).imp ?_
    rintro _ _ ⟨⟨chain'', nodes'', back⟩, heap', rfl, larger'⟩
    refine ⟨⟨_, chain'', nodes'', back, covers'.drop.add.hold.insert⟩, ?_,
      .served admissible ran fun none => by cases none⟩
    subst state
    exact .enters (Nat.le_trans larger larger')

theorem Running.free (running : Running limit s ids ledger chain nodes)
    (covers : Covers s.live none ledger) (index : Nat) (known : id < idCount) :
    (carryOutWith onHeap index (.free id)).Follows limit idCount index ids s (.free id) := by
  have admissible : Admissible idCount ids (.free id) := ⟨known, fun never => never⟩
  rw [Step.Follows, carryOutWith]
  apply Step.Meets.bind (takeOut_meets running index id)
  rintro old s' ⟨running', taken⟩
  have covers' := taken.covers running covers
  have released : (request old (.free id)).Ensures s'.heap Action.Total fun answer heap =>
      answer = none ∧ s'.heap.Follows ledger (.release (startOf old)) .released heap :=
    (running'.backs.release_ensures taken.live).bind fun _ _ follows => .pure ⟨rfl, follows⟩
  apply Step.Meets.bind (Step.Meets.onHeap (released.ran.excuse fun _ never => never.1.elim))
  rintro _ _ ⟨heap, ⟨⟨rfl, follows⟩, ran⟩, rfl⟩
  obtain ⟨chain', nodes', running''⟩ := running'.follows follows fun block member =>
    Ledger.drop_of_ne (taken.gone block member)
  have larger : s.heap.memory.size ≤ heap.memory.size := taken.heap ▸ follows.1.continues.larger
  have served : (heapCall s (.free id)).run s.heap = .ok none heap := by
    rw [heapCall, TraceOp.id, ← taken.found, ← taken.heap, ran]
  apply Step.Meets.pure
  refine ⟨⟨_, chain', nodes', running'', covers'.drop⟩, ?_, .served admissible served fun _ => rfl⟩
  obtain ⟨bytes, fewer, rfl⟩ := taken.state
  exact .leaves fewer larger

theorem UnderWay.carryOut {op : TraceOp} (underWay : UnderWay limit s ids) (index : Nat)
    (known : op.id < idCount) :
    (carryOutWith onHeap index op).Follows limit idCount index ids s op := by
  obtain ⟨ledger, chain, nodes, running, covers⟩ := underWay
  cases op with
  | alloc id size => exact running.alloc covers index known
  | realloc id size => exact running.realloc covers index known
  | free id => exact running.free covers index known

theorem UnderWay.apply {op : TraceOp} (underWay : UnderWay limit s ids) (idCount index : Nat) :
    (applyWith onHeap idCount index op).Follows limit idCount index ids s op := by
  unfold applyWith
  by_cases known : op.id < idCount
  · exact Step.Meets.require (decide_eq_true known) (underWay.carryOut index known)
  · exact Step.Meets.require_false (decide_eq_false known) (.unknownId (Nat.le_of_not_lt known))

end Operations

/-! ## Operations one after the other -/

section Runs

variable {limit idCount index : Nat} {s : State} {ids : Finset Nat} {ledger : Ledger}
  {chain nodes : List ChainBlock} {options : Options}

theorem applyAll_nil (options : Options) (idCount index : Nat) :
    applyAll options idCount index [] = pure () := rfl

theorem applyAll_cons (options : Options) (idCount index : Nat) (op : TraceOp)
    (rest : List TraceOp) :
    applyAll options idCount index (op :: rest) = (do
      applyWith onHeap idCount index op
      update (·.count op)
      inspect options index
      applyAll options idCount (index + 1) rest) := rfl

theorem applyAll_append (options : Options) (idCount : Nat) (first rest : List TraceOp) :
    ∀ index, applyAll options idCount index (first ++ rest) = (do
      applyAll options idCount index first
      applyAll options idCount (index + first.length) rest) := by
  induction first with
  | nil =>
    intro index
    rw [List.nil_append, applyAll_nil, pure_bind, List.length_nil, Nat.add_zero]
  | cons op first ih =>
    intro index
    simp only [List.cons_append, applyAll_cons, ih, bind_assoc, List.length_cons, Nat.add_assoc,
      Nat.add_comm 1]

theorem UnderWay.count (underWay : UnderWay limit s ids) (op : TraceOp) :
    UnderWay limit (s.count op) ids := by
  obtain ⟨ledger, chain, nodes, ⟨backs, limited, shown, sound, liveBytes, listed⟩, covers⟩ :=
    underWay
  refine ⟨ledger, chain, nodes, ?_⟩
  cases op <;> exact ⟨⟨backs, limited, shown, sound, liveBytes, listed⟩, covers⟩

/-- A scan of the heap stops no replay. -/
theorem inspect_meets {excused : Fault → Prop} {stopped : ReplayError → Prop}
    (underWay : UnderWay limit s ids) (options : Options) (index : Nat) :
    (inspect options index).Meets s excused stopped fun _ s' => s' = s := by
  obtain ⟨ledger, chain, nodes, running, -⟩ := underWay
  unfold inspect
  by_cases asked : options.checkEachOp = true
  · rw [if_pos asked]
    apply Step.Meets.ask running.backs.laid.check_eq
    exact Step.Meets.pure rfl
  · rw [if_neg asked]
    exact Step.Meets.pure rfl

/-- One operation keeps the replay under way, or stops it for a reason of its own. -/
theorem UnderWay.step (underWay : UnderWay limit s ids) (options : Options)
    (idCount index : Nat) (op : TraceOp) :
    (applyAll options idCount index [op]).Meets s
      (fun fault => Overgrown (capacityLimit ≤ limit) fault ∧
        OpEnds idCount index ids s op (.error fault))
      (fun error => OpEnds idCount index ids s op (.ok (.error error)))
      fun _ s' => UnderWay limit s' (op.after ids) ∧
        (∃ carried, s.Moves op carried ∧ s' = carried.count op) ∧
        OpEnds idCount index ids s op (.ok (.ok ())) := by
  rw [applyAll_cons]
  apply (underWay.apply idCount index).bind
  rintro _ s' ⟨underWay', moves, served⟩
  apply Step.Meets.update
  apply (inspect_meets (underWay'.count op) options index).bind
  rintro _ _ rfl
  exact Step.Meets.pure ⟨underWay'.count op, ⟨s', moves, rfl⟩, served⟩

end Runs

/-! ## Whole traces -/

section Traces

variable {limit index : Nat} {trace : Trace} {options : Options} {s : State} {ids : Finset Nat}

/-- A replay whose heap is laid out carries out the first `index` operations of its trace, and comes
to `s`. -/
def Comes (trace : Trace) (options : Options) (index : Nat) (s : State) : Prop :=
  ∃ heap, Heap.init.run (Heap.withConfig options.config) = .ok (.ok ()) heap ∧
    (applyAll options trace.idCount 0 (trace.ops.take index)).run.run ⟨heap, [], 0, 0, 0, 0, 0⟩ =
      .ok (.ok ()) s

/-- A replay comes to operation `index` of its trace, which ends so. -/
def EndsAt (trace : Trace) (options : Options) (index : Nat) (verdict : Verdict) : Prop :=
  ∃ s op, Comes trace options index s ∧ trace.ops[index]? = some op ∧
    OpEnds trace.idCount index (trace.liveIds index) s op verdict

/-- A replay comes past every operation before `index`. -/
def Passes (trace : Trace) (options : Options) (index : Nat) : Prop :=
  ∀ earlier < index, EndsAt trace options earlier (.ok (.ok ()))

/-- How a replay ends: told by the layout of its heap, and else by the first operation that it does
not come past. -/
inductive Ends (trace : Trace) (options : Options) : Verdict → Prop
  | unlaid {fault : Fault} {heap : Heap LimitedArena}
    (ran : Heap.init.run (Heap.withConfig options.config) = .error fault heap) :
    Ends trace options (.error fault)
  | init {reason : HeapError} {heap : Heap LimitedArena}
    (ran : Heap.init.run (Heap.withConfig options.config) = .ok (.error reason) heap) :
    Ends trace options (.ok (.error (.init reason)))
  | halted {index : Nat} {verdict : Verdict} (passes : Passes trace options index)
    (halts : EndsAt trace options index verdict) (stuck : verdict ≠ .ok (.ok ())) :
    Ends trace options verdict
  | completed {s : State} (comes : Comes trace options trace.ops.length s)
    (passes : Passes trace options trace.ops.length) :
    Ends trace options (.ok (.ok ()))

theorem Comes.succ {op : TraceOp} {s' : State} (comes : Comes trace options index s)
    (here : trace.ops[index]? = some op)
    (ran : (applyAll options trace.idCount index [op]).run.run s = .ok (.ok ()) s') :
    Comes trace options (index + 1) s' := by
  obtain ⟨heap, laidOut, before⟩ := comes
  have within : index < trace.ops.length := (List.getElem?_eq_some_iff.mp here).1
  have length : (trace.ops.take index).length = index := List.length_take_of_le within.le
  refine ⟨heap, laidOut, ?_⟩
  rw [List.take_add_one, here, Option.toList_some, applyAll_append, length, Nat.zero_add,
    ExceptT.run_bind, EStateM.run_bind, before]
  exact ran

/-- From operation `index` on, a replay under way comes to the end of its trace, or halts at the
first operation that it does not come past. -/
theorem UnderWay.applyAll {rest : List TraceOp} (comes : Comes trace options index s)
    (rests : trace.ops.drop index = rest) (passes : Passes trace options index)
    (underWay : UnderWay limit s (trace.liveIds index)) :
    (Replay.applyAll options trace.idCount index rest).Meets s
      (fun fault => Overgrown (capacityLimit ≤ limit) fault ∧ Ends trace options (.error fault))
      (fun error => Ends trace options (.ok (.error error)))
      fun _ s' => UnderWay limit s' (trace.liveIds trace.ops.length) ∧
        Ends trace options (.ok (.ok ())) := by
  induction rest generalizing index s with
  | nil =>
    have ended : trace.ops.length ≤ index := List.drop_eq_nil_iff.mp rests
    have all : trace.liveIds trace.ops.length = trace.liveIds index := by
      rw [Trace.liveIds, Trace.liveIds, List.take_length, List.take_of_length_le ended]
    have arrives : Comes trace options trace.ops.length s := by
      rw [Comes, List.take_length, ← List.take_of_length_le ended]
      exact comes
    rw [applyAll_nil]
    apply Step.Meets.pure
    constructor
    · rw [all]
      exact underWay
    · apply Ends.completed arrives
      intro earlier within
      exact passes earlier (Nat.lt_of_lt_of_le within ended)
  | cons op rest ih =>
    have here : trace.ops[index]? = some op := by
      rw [← List.head?_drop, rests]
      rfl
    have rests' : trace.ops.drop (index + 1) = rest := by
      rw [← List.tail_drop, rests]
      rfl
    have halts : ∀ {verdict}, OpEnds trace.idCount index (trace.liveIds index) s op verdict →
        EndsAt trace options index verdict := fun ends => ⟨s, op, comes, here, ends⟩
    rw [← List.singleton_append, applyAll_append, List.length_singleton]
    refine ((underWay.step options trace.idCount index op).ran.excuse ?_ ?_).bind ?_
    · rintro fault ⟨overgrown, ends⟩
      exact ⟨overgrown, .halted passes (halts ends) (by simp)⟩
    · intro error ends
      exact .halted passes (halts ends) (by simp)
    · rintro _ s' ⟨⟨underWay', -, served⟩, ran⟩
      apply ih (comes.succ here ran) rests'
      · intro earlier before
        cases Nat.lt_succ_iff_lt_or_eq.mp before with
        | inl before =>
          exact passes earlier before
        | inr same =>
          subst same
          exact halts served
      · rw [Trace.liveIds_succ here]
        exact underWay'

/-! ## There is one way only for a replay to end -/

theorem Comes.unique {s' : State} (comes : Comes trace options index s)
    (comes' : Comes trace options index s') : s = s' := by
  obtain ⟨heap, laidOut, ran⟩ := comes
  obtain ⟨_, laidOut', ran'⟩ := comes'
  rw [laidOut] at laidOut'
  cases laidOut'
  rw [ran] at ran'
  cases ran'
  rfl

theorem EndsAt.unique {verdict other : Verdict} (ends : EndsAt trace options index verdict)
    (ends' : EndsAt trace options index other) : verdict = other := by
  obtain ⟨s, op, comes, here, ends⟩ := ends
  obtain ⟨s', op', comes', here', ends'⟩ := ends'
  obtain rfl := comes.unique comes'
  rw [here] at here'
  cases here'
  exact ends.unique ends'

/-- A replay does not come past an operation that it halts at. -/
theorem Passes.le {halt : Nat} {verdict : Verdict} (passes : Passes trace options index)
    (halts : EndsAt trace options halt verdict) (stuck : verdict ≠ .ok (.ok ())) :
    index ≤ halt := by
  by_contra beyond
  exact stuck (halts.unique (passes halt (Nat.lt_of_not_le beyond)))

theorem EndsAt.laidOut {verdict : Verdict} (ends : EndsAt trace options index verdict) :
    ∃ heap, Heap.init.run (Heap.withConfig options.config) = .ok (.ok ()) heap := by
  obtain ⟨_, _, ⟨heap, laidOut, -⟩, -⟩ := ends
  exact ⟨heap, laidOut⟩

theorem EndsAt.lt_length {verdict : Verdict} (ends : EndsAt trace options index verdict) :
    index < trace.ops.length := by
  obtain ⟨_, _, _, here, -⟩ := ends
  exact (List.getElem?_eq_some_iff.mp here).1

theorem Ends.unique {verdict other : Verdict} (ends : Ends trace options verdict)
    (ends' : Ends trace options other) : verdict = other := by
  cases ends with
  | unlaid ran =>
    cases ends' with
    | unlaid ran' => grind
    | init ran' => grind
    | halted _ halts => grind [halts.laidOut]
    | completed comes => grind [Comes]
  | init ran =>
    cases ends' with
    | unlaid ran' => grind
    | init ran' => grind
    | halted _ halts => grind [halts.laidOut]
    | completed comes => grind [Comes]
  | halted passes halts stuck =>
    cases ends' with
    | unlaid ran' => grind [halts.laidOut]
    | init ran' => grind [halts.laidOut]
    | halted passes' halts' stuck' =>
      obtain rfl := Nat.le_antisymm (passes.le halts' stuck') (passes'.le halts stuck)
      exact halts.unique halts'
    | completed _ passes' =>
      exact absurd (passes'.le halts stuck) (Nat.not_le_of_lt halts.lt_length)
  | completed comes passes =>
    cases ends' with
    | unlaid ran' => grind [Comes]
    | init ran' => grind [Comes]
    | halted _ halts' stuck' =>
      exact absurd (passes.le halts' stuck') (Nat.not_le_of_lt halts'.lt_length)
    | completed => rfl

/-! ## How a replay ends -/

/-- How a replay ended, without its report. -/
def verdict (trace : Trace) (options : Options) : Verdict :=
  (run trace options).map fun outcome => discard outcome.result

theorem UnderWay.report (underWay : UnderWay limit s ids) (trace : Trace) (options : Options) :
    ∃ found, Replay.report trace options s = .ok found := by
  obtain ⟨ledger, chain, nodes, running, -⟩ := underWay
  rw [Replay.report, Fault.bind_of_ok running.backs.laid.stats_eq]
  exact ⟨_, rfl⟩

/-- A heap just laid out holds no block of the trace. -/
theorem UnderWay.start {config : HeapConfig} {heap : Heap LimitedArena}
    (laidOut : Heap.init.run (Heap.withConfig config) = .ok (.ok ()) heap) :
    UnderWay config.maxArenaBytes ⟨heap, [], 0, 0, 0, 0, 0⟩ ∅ := by
  obtain ⟨chain, nodes, sound⟩ := Heap.Sound.start laidOut
  have running : Running config.maxArenaBytes ⟨heap, [], 0, 0, 0, 0, 0⟩ ∅ .empty chain nodes :=
    { backs := sound.backs
      limit := sound.limit
      shown := fun _ member => absurd member List.not_mem_nil
      sound := .nil _
      liveBytes := rfl
      listed := fun _ => by simp }
  exact ⟨.empty, chain, nodes, running, fun _ found => by cases found⟩

/-- Without a layout a replay ends as the layout does. -/
theorem verdict_of_unlaid {fault : Fault} {heap : Heap LimitedArena}
    (ran : Heap.init.run (Heap.withConfig options.config) = .error fault heap) :
    verdict trace options = .error fault := by
  rw [verdict, run, start, Action.result, ran]
  rfl

theorem verdict_of_init {reason : HeapError} {heap : Heap LimitedArena}
    (ran : Heap.init.run (Heap.withConfig options.config) = .ok (.error reason) heap) :
    verdict trace options = .ok (.error (.init reason)) := by
  rw [verdict, run, start, Action.result, ran]
  rfl

theorem start_of_laidOut {heap : Heap LimitedArena}
    (laidOut : Heap.init.run (Heap.withConfig options.config) = .ok (.ok ()) heap)
    (slots : slotSize * trace.idCount < capacityLimit) :
    start trace options = .ok (.ok ⟨heap, [], 0, 0, 0, 0, 0⟩) := by
  have layout : Heap.init.result (Heap.withConfig options.config) = .ok (.ok (), heap) :=
    Action.result_eq_ok.mpr laidOut
  rw [start, Fault.bind_of_ok layout]
  exact if_neg (Nat.not_le_of_lt slots)

/-- A replay begins in a heap just laid out, or is over because there is no layout. -/
theorem start_eq_ok {begun : Except Outcome State} (started : start trace options = .ok begun) :
    (∃ reason records, begun = .error ⟨.error (.init reason), records⟩) ∨
    ∃ heap, Heap.init.run (Heap.withConfig options.config) = .ok (.ok ()) heap ∧
      begun = .ok ⟨heap, [], 0, 0, 0, 0, 0⟩ := by
  obtain ⟨⟨laidOut, heap⟩, layout, started⟩ := Fault.bind_eq_ok.mp started
  cases laidOut with
  | error reason =>
    cases started
    exact .inl ⟨reason, _, rfl⟩
  | ok done =>
    by_cases crowded : capacityLimit ≤ slotSize * trace.idCount
    · simp only [if_pos crowded] at started
      cases started
    · simp only [if_neg crowded] at started
      cases started
      exact .inr ⟨heap, Action.result_eq_ok.mp layout, rfl⟩

/-- Once its heap is laid out, a replay ends as its operations do. -/
theorem verdict_eq_of_laidOut {heap : Heap LimitedArena}
    (laidOut : Heap.init.run (Heap.withConfig options.config) = .ok (.ok ()) heap)
    (slots : slotSize * trace.idCount < capacityLimit) :
    verdict trace options =
      match (applyAll options trace.idCount 0 trace.ops).run.run ⟨heap, [], 0, 0, 0, 0, 0⟩ with
      | .error fault _ => .error fault
      | .ok (.error error) _ => .ok (.error error)
      | .ok (.ok ()) s => (report trace options s).map fun _ => .ok () := by
  rw [verdict, run, Fault.bind_of_ok (start_of_laidOut laidOut slots)]
  simp only [Action.result]
  cases (applyAll options trace.idCount 0 trace.ops).run.run ⟨heap, [], 0, 0, 0, 0, 0⟩ with
  | error fault s => rfl
  | ok ended s =>
    cases ended with
    | error error => rfl
    | ok done =>
      change Except.map _ (report trace options s >>= fun found =>
        Except.ok (⟨.ok found, s.heap.records.toList⟩ : Outcome)) =
          Except.map _ (report trace options s)
      cases report trace options s <;> rfl

/-- A replay ends in a way that its trace and the answers of the heap allow. -/
theorem verdict_ends (slots : slotSize * trace.idCount < capacityLimit) :
    Ends trace options (verdict trace options) ∧ ∀ fault, verdict trace options = .error fault →
      Overgrown (capacityLimit ≤ options.config.maxArenaBytes) fault := by
  have layout := Heap.init_ensures (Heap.withConfig options.config)
  rw [Action.Ensures] at layout
  cases ran : Heap.init.run (Heap.withConfig options.config) with
  | error fault heap =>
    rw [ran] at layout
    rw [verdict_of_unlaid ran]
    exact ⟨.unlaid ran, fun _ same => by cases same; exact layout⟩
  | ok laidOut heap =>
    cases laidOut with
    | error reason =>
      rw [verdict_of_init ran]
      exact ⟨.init ran, fun _ same => by cases same⟩
    | ok done =>
      have comes : Comes trace options 0 ⟨heap, [], 0, 0, 0, 0, 0⟩ := ⟨heap, ran, rfl⟩
      have played := (UnderWay.start ran).applyAll comes List.drop_zero
        fun _ before => absurd before (Nat.not_lt_zero _)
      rw [Step.Meets, Action.Ensures] at played
      rw [verdict_eq_of_laidOut ran slots]
      split <;> rename_i ended <;> rw [ended] at played
      · exact ⟨played.2, fun _ same => by cases same; exact played.1⟩
      · exact ⟨played, fun _ same => by cases same⟩
      · obtain ⟨underWay, ends⟩ := played
        obtain ⟨found, reported⟩ := underWay.report trace options
        rw [reported]
        exact ⟨ends, fun _ same => by cases same⟩

/-- A replay ends in one way and no other, and its trace and the answers of the heap tell which. It
meets a fault only where its arena is allowed more bytes than an address space has. -/
theorem verdict_eq_iff_ends (slots : slotSize * trace.idCount < capacityLimit) :
    (∀ outcome, verdict trace options = outcome ↔ Ends trace options outcome) ∧
      ∀ fault, verdict trace options = .error fault →
        fault = .capacity ∧ capacityLimit ≤ options.config.maxArenaBytes := by
  have ended : Ends trace options (verdict trace options) ∧ _ := verdict_ends slots
  obtain ⟨ends, overgrown⟩ := ended
  refine ⟨fun outcome => ⟨?_, ends.unique⟩, overgrown⟩
  rintro rfl
  exact ends

/-- A trace that allocates a live block is stopped there. An arena without a limit that is asked for
half of all addresses meets a fault instead of refusing. -/
theorem verdict_eq_iff_ends_twice :
    Ends ⟨0, 1, 1, [.alloc 0 24, .alloc 0 8]⟩
        ⟨{ HeapConfig.standard with chunkSize := 64 }, true⟩ (.ok (.error (.idInUse 1 0))) ∧
      Ends ⟨0, 1, 1, [.alloc 0 (wordLimit / 2)]⟩
        ⟨{ HeapConfig.standard with chunkSize := 64, maxArenaBytes := wordLimit - 1 }, false⟩
        (.error .capacity) := by
  constructor
  · have slots : slotSize * 1 < capacityLimit := by decide
    exact ((verdict_eq_iff_ends slots).1 _).mp (by decide +kernel)
  · have slots : slotSize * 1 < capacityLimit := by decide
    exact ((verdict_eq_iff_ends slots).1 _).mp (by decide +kernel)

end Traces

end Replay

end BoundaryHeap
