import BoundaryHeap.Check.Violation
import BoundaryHeap.FreeList
import Std.Data.TreeSet

/-!
The full scan of a heap: first the chain of blocks from the prologue to the epilogue, then the free
list against the free blocks of that chain. The scan changes nothing and lists what it finds in the
order in which it meets it.
-/

namespace BoundaryHeap

namespace Scan

/-- Follows the chain from the block at `bp` on. `lastFree` is the block before it, if that is free.
The answer holds the violations and the free blocks met, in address order. -/
def chainFrom (m : Memory) (bp : Nat) (lastFree : Option Nat) :
    Except Fault (List Violation × List Nat) := do
  let offset ← Block.headerOffset bp
  if _ : m.size < bp then
    return ([.missingEpilogue offset], [])
  else
    let head ← m.header bp
    if head.size = 0 then
      if head.allocated ∧ bp = m.size then
        return ([], [])
      else
        return ([.missingEpilogue offset], [])
    else if bp % Block.alignment ≠ 0 then
      return ([.misaligned bp], [])
    else if _ : Block.LegalSize head.size then
      let stop ← Checked.add bp head.size
      if m.size < stop then
        return ([.outOfRange bp m.size], [])
      else
        let foot ← m.readTag (← Block.footerOffset bp head.size)
        let mismatch := if foot = head then [] else [Violation.tagMismatch bp head foot]
        if head.allocated then
          let (violations, free) ← chainFrom m (bp + head.size) none
          return (mismatch ++ violations, free)
        else
          let adjacent := lastFree.toList.map fun first => Violation.adjacentFree first bp
          let (violations, free) ← chainFrom m (bp + head.size) (some bp)
          return (mismatch ++ adjacent ++ violations, bp :: free)
    else
      return ([.badSize bp head.size], [])
termination_by m.size + 1 - bp
decreasing_by all_goals (simp only [Block.LegalSize, Block.minSize] at *; omega)

/-- What the scan of the free list carries from node to node. -/
structure ListState where
  /-- The nodes met so far. -/
  seen : Std.TreeSet Nat
  /-- How many they are. -/
  listed : Nat
  /-- The node before, which the next one must link back to. -/
  before : Option Nat
  /-- The size of the node before. -/
  beforeSize : Nat

/-- Follows the free list for at most `steps` nodes from `node` on. The answer holds the violations
met and, unless the walk was given up, the nodes seen and their number. -/
def listFrom (m : Memory) (first recorded : Nat) (chain : Std.TreeSet Nat) :
    Nat → Option Nat → ListState → Except Fault (List Violation × Option (Std.TreeSet Nat × Nat))
  | 0, _, state => .ok ([], some (state.seen, state.listed))
  | _, none, state => .ok ([], some (state.seen, state.listed))
  | steps + 1, some bp, state => do
    let next ← FreeList.follow m bp
    let listed := state.listed + 1
    if recorded < listed ∨ state.seen.contains bp then
      return ([.freeListCycle], none)
    if bp < first ∨ bp % Block.alignment ≠ 0 then
      return ([.outOfRange bp m.size], none)
    if m.size < (← Checked.add bp Block.minSize) then
      return ([.outOfRange bp m.size], none)
    let head ← m.header bp
    let found ← m.backLink bp
    let stray := if chain.contains bp then [] else [Violation.strayFreeListNode bp]
    let taken := if head.allocated then [Violation.allocatedInFreeList bp] else []
    let unordered :=
      if head.size < state.beforeSize then
        [Violation.freeListUnordered bp head.size state.beforeSize]
      else []
    let unlinked :=
      if found = state.before then [] else [Violation.brokenBackLink bp state.before found]
    let (violations, outcome) ←
      listFrom m first recorded chain steps next
        ⟨state.seen.insert bp, listed, some bp, head.size⟩
    return (stray ++ taken ++ unordered ++ unlinked ++ violations, outcome)

/-- Compares the free list with the free blocks of the chain. -/
def list (m : Memory) (prologue : Nat) (l : FreeList) (free : List Nat) :
    Except Fault (List Violation) := do
  let first ← Checked.add prologue Block.prologueSize
  let (violations, outcome) ←
    listFrom m first l.length (Std.TreeSet.ofList free) (l.length + 1) l.head ⟨∅, 0, none, 0⟩
  match outcome with
  | none => return violations
  | some (seen, listed) =>
    let missing := (free.filter fun bp => !seen.contains bp).map Violation.freeBlockNotListed
    let miscounted :=
      if listed = free.length ∧ listed = l.length then []
      else [Violation.freeCountMismatch listed l.length free.length]
    return violations ++ missing ++ miscounted

end Scan

/-- Every violation of the heap whose prologue block is at `prologue`. Without room for a prologue
there is no heap to scan. -/
def Memory.scan (m : Memory) (prologue : Nat) (l : FreeList) : Except Fault (List Violation) := do
  if prologue < Block.wordSize then
    return [.badPrologue prologue]
  if m.size < (← Checked.add prologue Block.prologueSize) then
    return [.badPrologue prologue]
  let sentinel := Tag.used Block.prologueSize
  let head ← m.header prologue
  let foot ← m.readTag (← Block.footerOffset prologue Block.prologueSize)
  let damaged :=
    if head = sentinel ∧ foot = sentinel then [] else [Violation.badPrologue prologue]
  let (broken, free) ← Scan.chainFrom m (prologue + Block.prologueSize) none
  let unlisted ← Scan.list m prologue l free
  return damaged ++ broken ++ unlisted

end BoundaryHeap
