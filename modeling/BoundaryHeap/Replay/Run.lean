import BoundaryHeap.Heap.Payload
import BoundaryHeap.Heap.Request
import BoundaryHeap.Replay.Error
import BoundaryHeap.Replay.LiveTable
import BoundaryHeap.Replay.Report
import BoundaryHeap.Trace.Basic

/-!
Replaying a trace against a fresh heap. Each live block is filled with a pattern that depends on its
number. A block handed out must be aligned, large enough and apart from every other live block; the
pattern must still be there when a block is released or resized, and as much of it as fits after a
resize.
-/

namespace BoundaryHeap.Replay

/-- How a trace is replayed. -/
structure Options where
  config : HeapConfig
  /-- Scan the heap after every operation and stop at the first violation. -/
  checkEachOp : Bool

/-- A replay under way. -/
structure State where
  heap : Heap LimitedArena
  live : LiveTable
  /-- The bytes asked for and live. -/
  liveBytes : Nat
  peakLiveBytes : Nat
  allocs : Nat
  reallocs : Nat
  frees : Nat

/-- The byte that a block holds at an offset of its payload. -/
def patternByte (id offset : Nat) : UInt8 :=
  UInt8.ofNat (id * 0x9E37) ^^^ UInt8.ofNat offset ^^^ UInt8.ofNat (offset / 256)

/-- The first `count` bytes that a block holds, from an offset on. -/
def patternFrom (id offset : Nat) : Nat → List UInt8
  | 0 => []
  | count + 1 => patternByte id offset :: patternFrom id (offset + 1) count

/-- The first of `count` offsets, from one on, at which bytes differ from the pattern or end. -/
def mismatchFrom (id offset : Nat) : Nat → List UInt8 → Option Nat
  | 0, _ => none
  | _ + 1, [] => some offset
  | count + 1, b :: rest =>
    if b = patternByte id offset then mismatchFrom id (offset + 1) count rest else some offset

/-- A part of a replay. It can stop the replay with an error and, as all that a heap takes part in,
meet a fault; the state it has come to is there in every case. -/
abbrev Step (α : Type) := ExceptT ReplayError (Action State) α

/-- A question to the state of a replay. -/
def ask {α : Type} (question : State → Except Fault α) : Step α :=
  ExceptT.lift (Action.ask question)

/-- A change of the state of a replay. -/
def update (change : State → State) : Step Unit := ExceptT.lift (modify change)

/-- An action on the heap of a replay. -/
def onHeap {α : Type} (act : Action (Heap LimitedArena) α) : Step α :=
  ExceptT.lift <| Action.focus
    (fun ⟨heap, live, liveBytes, peakLiveBytes, allocs, reallocs, frees⟩ =>
      (heap, fun heap => ⟨heap, live, liveBytes, peakLiveBytes, allocs, reallocs, frees⟩)) act

/-- Stops a replay with an error unless a condition holds. -/
def require (condition : Bool) (error : ReplayError) : Step Unit :=
  if condition then pure () else throw error

/-- Tests whether the first `count` bytes of the payload at `ptr` hold the pattern of a block. -/
def verify (index id ptr count : Nat) : Step Unit := do
  let payload ← ask fun s => s.heap.payload ptr
  match mismatchFrom id 0 count (payload.getD []) with
  | some offset => throw (.corrupted index id offset)
  | none => return

/-- Enters a block in the table of live blocks. -/
def enter (block : LiveBlock) : Step Unit := do
  update fun s => { s with live := s.live.insert block }
  let liveBytes ← ask fun s => Checked.add s.liveBytes block.size
  update fun s => { s with liveBytes, peakLiveBytes := max s.peakLiveBytes liveBytes }

/-- Takes in a block that the heap has handed out: tests it, fills it and enters it in the table. -/
def takeIn (index id ptr size : Nat) : Step Unit := do
  require (ptr % Block.alignment = 0) (.misaligned index id ptr)
  let usable := (← ask fun s => s.heap.usableSize ptr).getD 0
  require (size ≤ usable) (.undersized index id size usable)
  let stop := ptr + size
  match ← ask fun s => .ok (s.live.clash? ptr stop) with
  | some other => throw (.overlap index id other.id ptr stop)
  | none =>
    discard (onHeap (Heap.patch ptr 0 (patternFrom id 0 size)))
    enter ⟨id, ptr, size⟩

/-- Tests the live block of a number and takes it out of the table. The answer is the block, if
there was one. -/
def takeOut (index id : Nat) : Step (Option LiveBlock) := do
  match ← ask fun s => .ok (s.live.find? id) with
  | none => return none
  | some block =>
    verify index id block.start block.size
    update fun s => { s with live := s.live.erase id }
    let liveBytes ← ask fun s => Checked.sub s.liveBytes block.size
    update fun s => { s with liveBytes }
    return some block

/-- Where a block that may be there starts, and zero otherwise. -/
def startOf (block : Option LiveBlock) : Nat := (block.map (·.start)).getD 0

/-- What is done before an operation calls the heap: the block of its number is tested and taken out
of the table, or must not be there. The answer is the block taken out, if there was one. -/
def prepare (index : Nat) : TraceOp → Step (Option LiveBlock)
  | .alloc id _ => do
    let live ← ask fun s => .ok (s.live.find? id)
    require live.isNone (.idInUse index id)
    return none
  | .realloc id _ => takeOut index id
  | .free id => takeOut index id

/-- The call of the heap that an operation makes, with the block it has taken out of the table. -/
def request (old : Option LiveBlock) : TraceOp → Action (Heap LimitedArena) (Option Nat)
  | .alloc _ size => Heap.allocate size
  | .realloc _ size => Heap.resize (startOf old) size
  | .free _ => do
    Heap.release (startOf old)
    return none

/-- What is done with the answer of the heap to an operation. -/
def conclude (index : Nat) (old : Option LiveBlock) (answer : Option Nat) : TraceOp → Step Unit
  | .alloc id size =>
    match answer with
    | some ptr => takeIn index id ptr size
    | none => require (size = 0) (.outOfMemory index id size)
  | .realloc id size =>
    match answer with
    | some ptr => do
      verify index id ptr ((old.map fun block => min block.size size).getD 0)
      takeIn index id ptr size
    | none => require (size = 0) (.outOfMemory index id size)
  | .free _ => return

/-- Counts an operation that has been carried out. -/
def State.count (s : State) : TraceOp → State
  | .alloc .. => { s with allocs := s.allocs + 1 }
  | .realloc .. => { s with reallocs := s.reallocs + 1 }
  | .free .. => { s with frees := s.frees + 1 }

/-- Stops a replay at the first violation in its heap, if the options ask for that. -/
def inspect (options : Options) (index : Nat) : Step Unit :=
  if options.checkEachOp then do
    match ← ask fun s => s.heap.check with
    | violation :: _ => throw (.invariant index violation)
    | [] => return
  else
    pure ()

/-! ## Operations

They are carried out in any monad that can do the parts of a replay and has its own way to call the
heap. -/

section Operations

variable {n : Type → Type} [Monad n] [MonadLiftT Step n]
  (call : Action (Heap LimitedArena) (Option Nat) → n (Option Nat))

/-- Carries out an operation on a block that the trace announces. -/
def carryOutWith (index : Nat) (op : TraceOp) : n Unit := do
  let old ← prepare index op
  let answer ← call (request old op)
  conclude index old answer op

/-- Carries out one operation of the trace. -/
def applyWith (idCount index : Nat) (op : TraceOp) : n Unit := do
  require (op.id < idCount) (.unknownId index op.id idCount)
  carryOutWith call index op

/-- Carries out operations one after the other, the first of which has number `index`. -/
def applyAllWith (options : Options) (idCount index : Nat) : List TraceOp → n Unit
  | [] => return
  | op :: rest => do
    applyWith call idCount index op
    update (·.count op)
    inspect options index
    applyAllWith options idCount (index + 1) rest

end Operations

/-- Operations as a part of a replay. -/
def applyAll (options : Options) (idCount index : Nat) (ops : List TraceOp) : Step Unit :=
  applyAllWith onHeap options idCount index ops

/-- The report on a replay that came to the end of the trace. -/
def report (trace : Trace) (options : Options) (s : State) : Except Fault Report := do
  let stats ← s.heap.stats
  let counters := s.heap.counters
  return {
    traceDigest := trace.sha256
    ops := trace.ops.length
    allocs := s.allocs
    reallocs := s.reallocs
    frees := s.frees
    peakLiveBytes := s.peakLiveBytes
    arenaBytes := stats.arenaBytes
    utilization :=
      if stats.arenaBytes = 0 then 0.0
      else Double.ofNat s.peakLiveBytes / Double.ofNat stats.arenaBytes
    heapTime := 0
    opsPerSecond := 0.0
    growCalls := counters.growCalls
    reallocsInPlace := counters.reallocsInPlace
    reallocsAbsorbedPrev := counters.reallocsAbsorbedPrev
    reallocsMoved := counters.reallocsMoved
    placement := placementLabel options.config.placement
    chunkSize := options.config.chunkSize
    freeBlocksAtEnd := stats.freeBlocks
    fragmentationAtEnd := stats.fragmentation }

/-- The bytes that the table of live blocks reserves for each number of a trace. -/
def slotSize : Nat := 24

/-- The outcome of a replay, with the records of the heap up to there. -/
structure Outcome where
  result : Except ReplayError Report
  records : List Record

/-- A replay before its first operation, or its outcome if the heap could not be laid out. -/
def start (trace : Trace) (options : Options) : Except Fault (Except Outcome State) := do
  let (laidOut, heap) ← Heap.init.result (Heap.withConfig options.config)
  match laidOut with
  | .error error => return .error ⟨.error (.init error), heap.records.toList⟩
  | .ok () =>
    if capacityLimit ≤ slotSize * trace.idCount then
      throw .capacity
    return .ok ⟨heap, [], 0, 0, 0, 0, 0⟩

/-- The outcome of a replay that has come to its end or was stopped by an error. -/
def finish (trace : Trace) (options : Options) (ended : Except ReplayError Unit) (s : State) :
    Except Fault Outcome := do
  match ended with
  | .error error => return ⟨.error error, s.heap.records.toList⟩
  | .ok () => return ⟨.ok (← report trace options s), s.heap.records.toList⟩

/-- Replays a trace against a fresh heap. The time that the calls of the heap take is left out of
the report. -/
def run (trace : Trace) (options : Options) : Except Fault Outcome := do
  match ← start trace options with
  | .error outcome => return outcome
  | .ok s =>
    let (ended, s) ← (applyAll options trace.idCount 0 trace.ops).run.result s
    finish trace options ended s

end BoundaryHeap.Replay
