import BoundaryHeap.Trace.Basic
import BoundaryHeap.Workload.XorShift

/-!
The trace that a generator writes, with what it has to know of it: which blocks are live, how large
they are, and how many bytes were live at the most.
-/

namespace BoundaryHeap.Workload

/-- A trace under construction. -/
structure Builder where
  random : XorShift
  ops : Array TraceOp
  /-- The size last asked for, for every block so far. -/
  sizes : Array Nat
  /-- The live blocks. Their order matters: it decides which one a random number picks. -/
  live : Array Nat
  liveBytes : Nat
  peakBytes : Nat
  deriving Repr

namespace Builder

/-- The trace without an operation. -/
def ofSeed (seed : UInt64) : Builder := ⟨.ofSeed seed, #[], #[], #[], 0, 0⟩

/-- Draws a number between `low` and `high`. -/
def draw (b : Builder) (low high : Nat) : Except Fault (Nat × Builder) := do
  let (number, random) ← b.random.range low high
  return (number, { b with random })

/-- Counts bytes that have become live. -/
def addLive (b : Builder) (size : Nat) : Except Fault Builder := do
  let liveBytes ← Checked.add b.liveBytes size
  return { b with liveBytes, peakBytes := max b.peakBytes liveBytes }

/-- Allocates a new block, which gets the next number. -/
def alloc (b : Builder) (size : Nat) : Except Fault (Nat × Builder) := do
  let id := b.sizes.size
  let b ← { b with
    sizes := b.sizes.push size
    live := b.live.push id
    ops := b.ops.push (.alloc id size) }.addLive size
  return (id, b)

/-- Resizes a block. -/
def realloc (b : Builder) (id size : Nat) : Except Fault Builder := do
  let liveBytes ← Checked.sub b.liveBytes (b.sizes.getD id 0)
  { b with
    liveBytes
    sizes := b.sizes.setIfInBounds id size
    ops := b.ops.push (.realloc id size) }.addLive size

/-- Releases a block if it is live. The last live block takes its place. -/
def free (b : Builder) (id : Nat) : Except Fault Builder := do
  match b.live.findIdx? (· == id) with
  | none => return b
  | some place =>
    let last := b.live.getD (b.live.size - 1) 0
    let liveBytes ← Checked.sub b.liveBytes (b.sizes.getD id 0)
    return { b with
      liveBytes
      live := (b.live.setIfInBounds place last).pop
      ops := b.ops.push (.free id) }

/-- Releases blocks one after the other. -/
def freeAll (b : Builder) : List Nat → Except Fault Builder
  | [] => .ok b
  | id :: rest => do (← b.free id).freeAll rest

/-- Allocates blocks of given sizes one after the other. -/
def allocAll (b : Builder) : List Nat → Except Fault (List Nat × Builder)
  | [] => .ok ([], b)
  | size :: rest => do
    let (id, b) ← b.alloc size
    let (ids, b) ← b.allocAll rest
    return (id :: ids, b)

/-- Picks a live block, if there is one. -/
def pickLive (b : Builder) : Except Fault (Option Nat × Builder) := do
  if b.live.isEmpty then
    return (none, b)
  else
    let (place, b) ← b.draw 0 (b.live.size - 1)
    return (some (b.live.getD place 0), b)

/-- The trace, with the blocks that are still live released in the order of their numbers. -/
def finish (b : Builder) : Trace :=
  let remaining := b.live.toList.mergeSort
  { suggestedHeapSize := b.peakBytes
    idCount := b.sizes.size
    weight := 1
    ops := b.ops.toList ++ remaining.map TraceOp.free }

end Builder

end BoundaryHeap.Workload
