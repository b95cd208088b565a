import BoundaryHeap.Check.Pointer
import BoundaryHeap.Check.Scan
import BoundaryHeap.Heap.Error
import BoundaryHeap.Region
import BoundaryHeap.Stats

/-!
The state of a heap, the questions it answers without changing, and the two ways in which every
operation changes it: an edit of its region, and a record of what was done.
-/

namespace BoundaryHeap

/-- Running totals over the life of a heap. -/
structure Counters where
  /-- Blocks handed out, those of a moving resize included. -/
  allocs : Nat
  /-- Blocks released. -/
  frees : Nat
  /-- Resizes that left the block where it was. -/
  reallocsInPlace : Nat
  /-- Resizes that slid the block down into a free predecessor. -/
  reallocsAbsorbedPrev : Nat
  /-- Resizes that moved the block to a fresh one. -/
  reallocsMoved : Nat
  /-- Calls by which the arena grew. -/
  growCalls : Nat
  /-- Bytes by which the arena grew. -/
  growBytes : Nat
  /-- Requests refused for lack of memory or because their size leaves 64 bits. -/
  failedAllocs : Nat
  /-- Pointers refused by release and resize. -/
  invalidPointers : Nat
  deriving Repr, DecidableEq

/-- The totals of a new heap. -/
def Counters.zero : Counters := ⟨0, 0, 0, 0, 0, 0, 0, 0, 0⟩

/-- A heap over an arena. -/
structure Heap (A : Type) where
  arena : A
  config : HeapConfig
  freeList : FreeList
  /-- The payload offset of the prologue, zero before the layout. -/
  prologue : Nat
  /-- Whether the heap is laid out and serves requests. -/
  initialized : Bool
  counters : Counters
  /-- The number of the next record. -/
  nextRecord : Nat
  /-- The records kept and not yet taken away. -/
  records : Array Record

namespace Heap

variable {A : Type} [Arena A]

/-- A heap over an arena, not yet laid out. -/
def new (arena : A) (config : HeapConfig) : Heap A :=
  { arena
    config
    freeList := .empty
    prologue := 0
    initialized := false
    counters := .zero
    nextRecord := 1
    records := #[] }

/-- A heap over an arena of its own, limited as the settings say. -/
def withConfig (config : HeapConfig) : Heap LimitedArena :=
  new (LimitedArena.withLimit config.maxArenaBytes) config

/-- The memory of the heap. -/
def memory (h : Heap A) : Memory := Arena.memory h.arena

/-- The memory of the heap with its free list. -/
def region (h : Heap A) : Region := ⟨h.memory, h.freeList⟩

/-- An action on the region of the heap. The arena lets go of the memory first, so that the action
is the only holder of the bytes and changes them in place. -/
def edit {α : Type} (act : Action Region α) : Action (Heap A) α :=
  Action.focus (fun h =>
    let memory := Arena.memory h.arena
    let freeList := h.freeList
    let h := { h with arena := Arena.setMemory h.arena .empty }
    (⟨memory, freeList⟩, fun region =>
      { h with arena := Arena.setMemory h.arena region.memory, freeList := region.freeList })) act

/-- A question to the heap that always has an answer. -/
@[inline] def view {α : Type} (question : Heap A → α) : Action (Heap A) α :=
  Action.ask fun h => .ok (question h)

/-- Changes the counters. -/
def count (change : Counters → Counters) : Action (Heap A) Unit :=
  modify fun h => { h with counters := change h.counters }

/-- The heap with one record more, unless its level is below the configured one. A record that is
not kept uses up no number. -/
def withRecord (h : Heap A) (level : Level) (symbol event : String) (ptr size : Option Nat)
    (outcome details : String) : Heap A :=
  if level.severity < h.config.logLevel.severity then h
  else
    let entry : Record :=
      { id := h.nextRecord
        traceId := Record.traceIdOf symbol h.nextRecord
        level, symbol, event, ptr, size, outcome, details
        arenaBytes := h.memory.size
        freeBlocks := h.freeList.length }
    { h with nextRecord := h.nextRecord + 1, records := h.records.push entry }

/-- Keeps a record. -/
def record (level : Level) (symbol event : String) (ptr size : Option Nat)
    (outcome details : String) : Action (Heap A) Unit :=
  modify (·.withRecord level symbol event ptr size outcome details)

/-- The records kept, and the heap without them. -/
def drain (h : Heap A) : List Record × Heap A :=
  (h.records.toList, { h with records := #[] })

/-- Every violation in the heap, none if it is not laid out. -/
def check (h : Heap A) : Except Fault (List Violation) :=
  if h.initialized then h.memory.scan h.prologue h.freeList else .ok []

/-- The totals over the blocks of the heap, all zero if it is not laid out. -/
def stats (h : Heap A) : Except Fault HeapStats :=
  if h.initialized then h.memory.stats h.prologue h.freeList.length else .ok .zero

/-- The payload bytes of the allocated block at `ptr`. -/
def usableSize (h : Heap A) (ptr : Nat) : Except Fault (Option Nat) := do
  if h.initialized then
    match ← h.memory.liveBlock h.prologue ptr with
    | .ok tag => return some (← Block.payloadCapacity tag.size)
    | .error _ => return none
  else
    return none

end Heap

end BoundaryHeap
