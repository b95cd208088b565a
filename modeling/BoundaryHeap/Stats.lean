import BoundaryHeap.Block
import BoundaryHeap.Double.Arithmetic

/-!
Totals over the blocks of a heap. `Memory.chainFrom` lists the blocks in address order as far as
their tags make sense, and the totals are sums over that list.
-/

namespace BoundaryHeap

/-- A block as a walk along the chain meets it. -/
structure ChainBlock where
  /-- The offset of the payload. -/
  bp : Nat
  /-- The tag in the header. -/
  tag : Tag
  deriving Repr, DecidableEq

/-- The blocks from the one at `bp` on, up to the first header whose size is no block size or leads
out of the memory. The epilogue is such a header. -/
def Memory.chainFrom (m : Memory) (bp : Nat) : Except Fault (List ChainBlock) := do
  let _ ← Block.headerOffset bp
  if _ : m.size < bp then
    return []
  else
    let head ← m.header bp
    if _ : head.size < Block.minSize then
      return []
    else
      let stop ← Checked.add bp head.size
      if m.size < stop then
        return []
      else
        return ⟨bp, head⟩ :: (← m.chainFrom (bp + head.size))
termination_by m.size + 1 - bp
decreasing_by simp only [Block.minSize] at *; omega

/-- Block and byte totals. -/
structure HeapStats where
  /-- The size of the memory, sentinels included. -/
  arenaBytes : Nat
  /-- The blocks between the sentinels. -/
  totalBlocks : Nat
  allocatedBlocks : Nat
  /-- The bytes of the allocated blocks, tags included. -/
  allocatedBytes : Nat
  freeBlocks : Nat
  /-- The bytes of the free blocks, tags included. -/
  freeBytes : Nat
  largestFreeBlock : Nat
  /-- The length the free list records. -/
  freeListLength : Nat
  deriving Repr, DecidableEq

namespace HeapStats

/-- The totals of a heap that is not laid out. -/
def zero : HeapStats := ⟨0, 0, 0, 0, 0, 0, 0, 0⟩

/-- The share of the free bytes outside the largest free block, nothing if none is free. -/
def fragmentation (s : HeapStats) : Double :=
  if s.freeBytes = 0 then 0.0
  else 1.0 - Double.ofNat s.largestFreeBlock / Double.ofNat s.freeBytes

/-- The share of the memory in allocated blocks, nothing if there is no memory. -/
def utilization (s : HeapStats) : Double :=
  if s.arenaBytes = 0 then 0.0
  else Double.ofNat s.allocatedBytes / Double.ofNat s.arenaBytes

/-- The totals over a list of blocks. -/
def ofBlocks (arenaBytes freeListLength : Nat) (blocks : List ChainBlock) : HeapStats :=
  let allocated := blocks.filter (·.tag.allocated)
  let free := blocks.filter fun block => !block.tag.allocated
  { arenaBytes
    totalBlocks := blocks.length
    allocatedBlocks := allocated.length
    allocatedBytes := (allocated.map (·.tag.size)).foldl (· + ·) 0
    freeBlocks := free.length
    freeBytes := (free.map (·.tag.size)).foldl (· + ·) 0
    largestFreeBlock := (free.map (·.tag.size)).foldl max 0
    freeListLength }

end HeapStats

/-- The totals of the heap whose prologue block is at `prologue`. -/
def Memory.stats (m : Memory) (prologue freeListLength : Nat) : Except Fault HeapStats := do
  let blocks ← m.chainFrom (← Checked.add prologue Block.prologueSize)
  return HeapStats.ofBlocks m.size freeListLength blocks

end BoundaryHeap
