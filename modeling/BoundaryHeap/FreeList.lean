import BoundaryHeap.Block

/-!
The free list threads the free blocks through their own payloads: the first payload word of a free
block links back, the second links on. A link is a payload offset, and zero stands for no link
since no payload starts there. The list ascends by size and equal sizes keep the order in which
they came, so the first block that fits is a smallest one that does.

A damaged list can run in a circle. `walk` and `findFit` look at one node more than the list
counts; `placeOf` follows links without that bound, and reports the circle as a fault.
-/

namespace BoundaryHeap

namespace Memory

/-- The link a word stands for. -/
def linkOfWord (word : Nat) : Option Nat := if word = 0 then none else some word

/-- The word that stores a link. -/
def wordOfLink (link : Option Nat) : Nat := link.getD 0

/-- The free block that the one at `bp` links back to. -/
def backLink (m : Memory) (bp : Nat) : Except Fault (Option Nat) := do
  return linkOfWord (← m.readWord bp)

/-- The free block that the one at `bp` links on to. -/
def onLink (m : Memory) (bp : Nat) : Except Fault (Option Nat) := do
  return linkOfWord (← m.readWord (← Checked.add bp Block.wordSize))

/-- Makes the free block at `bp` link back to another. -/
def setBackLink (bp : Nat) (link : Option Nat) : Action Memory Unit :=
  writeWord bp (wordOfLink link)

/-- Makes the free block at `bp` link on to another. -/
def setOnLink (bp : Nat) (link : Option Nat) : Action Memory Unit := do
  writeWord (← Checked.add bp Block.wordSize) (wordOfLink link)

end Memory

/-- The ends that the heap holds of the list threaded through the free blocks. -/
structure FreeList where
  /-- The first block of the list. -/
  head : Option Nat
  /-- The number of blocks linked. -/
  length : Nat
  deriving Repr, DecidableEq

namespace FreeList

/-- The list of no blocks. -/
def empty : FreeList := ⟨none, 0⟩

/-- A list without a first block is empty. -/
def isEmpty (l : FreeList) : Bool := l.head.isNone

/-- The place of a block of `size` bytes: the last node it must follow and the first, strictly
larger one it must precede. A walk longer than the memory has bytes goes in a circle. -/
def seek (m : Memory) (size : Nat) : Nat → Option Nat → Option Nat →
    Except Fault (Option Nat × Option Nat)
  | _, before, none => .ok (before, none)
  | 0, _, some _ => .error .endlessList
  | steps + 1, before, some node => do
    if size < (← m.blockSize node) then
      return (before, some node)
    else
      seek m size steps (some node) (← m.onLink node)

/-- The place of the free block at `bp`: behind the last node that is no larger. -/
def placeOf (l : FreeList) (m : Memory) (bp : Nat) : Except Fault (Option Nat × Option Nat) := do
  seek m (← m.blockSize bp) m.size none l.head

/-- The node that a bounded walk visits after `node`: the walk ends where the links of `node` do
not lie inside the memory. -/
def follow (m : Memory) (node : Nat) : Except Fault (Option Nat) := do
  if (← Checked.add node (2 * Block.wordSize)) ≤ m.size then
    m.onLink node
  else
    return none

/-- The first of at most `steps` nodes from `node` on that has at least `size` bytes. -/
def findFrom (m : Memory) (size : Nat) : Nat → Option Nat → Except Fault (Option Nat)
  | 0, _ => .ok none
  | _, none => .ok none
  | steps + 1, some node => do
    let next ← follow m node
    if size ≤ (← m.blockSize node) then
      return some node
    else
      findFrom m size steps next

/-- The first block of the list that has at least `size` bytes. -/
def findFit (l : FreeList) (m : Memory) (size : Nat) : Except Fault (Option Nat) :=
  findFrom m size (l.length + 1) l.head

/-- At most `steps` nodes from `node` on. -/
def walkFrom (m : Memory) : Nat → Option Nat → Except Fault (List Nat)
  | 0, _ => .ok []
  | _, none => .ok []
  | steps + 1, some node => do
    let next ← follow m node
    return node :: (← walkFrom m steps next)

/-- The blocks of the list from its head on. A list that does not end after the blocks it counts
shows one more, and the walk stops there. -/
def walk (l : FreeList) (m : Memory) : Except Fault (List Nat) :=
  walkFrom m (l.length + 1) l.head

end FreeList

end BoundaryHeap
