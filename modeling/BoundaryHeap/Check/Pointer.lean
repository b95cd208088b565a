import BoundaryHeap.Check.Violation

/-!
The test of a single pointer: whether it looks like the payload of an allocated block. It looks at
the two tags of that block and at nothing else, so bytes a client wrote inside a payload can pass
for a block.
-/

namespace BoundaryHeap

/-- The tag of the allocated block at `ptr`, or the first reason why none is there. -/
def Memory.liveBlock (m : Memory) (prologue ptr : Nat) : Except Fault (Except Violation Tag) := do
  let first ← Checked.add prologue Block.prologueSize
  if ptr < first then
    return .error (.outOfRange ptr m.size)
  if m.size < (← Checked.add ptr Block.wordSize) then
    return .error (.outOfRange ptr m.size)
  if ptr % Block.alignment ≠ 0 then
    return .error (.misaligned ptr)
  let head ← m.header ptr
  if ¬ Block.LegalSize head.size then
    return .error (.badSize ptr head.size)
  if m.size < (← Checked.add ptr head.size) then
    return .error (.badSize ptr head.size)
  let foot ← m.readTag (← Block.footerOffset ptr head.size)
  if foot ≠ head then
    return .error (.tagMismatch ptr head foot)
  if ¬ head.allocated then
    return .error (.notAllocated ptr)
  return .ok head

end BoundaryHeap
