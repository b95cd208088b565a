import BoundaryHeap.Heap.Basic

/-!
How a client gets at the payloads it holds. Reading and writing ask for an allocated block at the
pointer and never reach beyond its payload.
-/

namespace BoundaryHeap.Heap

variable {A : Type} [Arena A]

/-- The payload of the allocated block at `ptr`. -/
def payload (h : Heap A) (ptr : Nat) : Except Fault (Option (List UInt8)) := do
  match ← h.usableSize ptr with
  | some length => return some (← h.memory.readRange ptr (ptr + length))
  | none => return none

/-- The bytes in `[first, stop)` of the payload at `ptr`, if a block is there and holds that
range. -/
def readPayload (h : Heap A) (ptr first stop : Nat) : Except Fault (Option (List UInt8)) := do
  match ← h.usableSize ptr with
  | some length =>
    if first ≤ stop ∧ stop ≤ length then
      return some (← h.memory.readRange (ptr + first) (ptr + stop))
    else
      return none
  | none => return none

/-- Overwrites payload bytes of the block at `ptr` from an offset on. The answer is whether a block
is there; bytes beyond its payload are a fault. -/
def patch (ptr offset : Nat) (values : List UInt8) : Action (Heap A) Bool := do
  match ← Action.ask (·.usableSize ptr) with
  | none => return false
  | some length =>
    if length < offset + values.length then
      throw .outOfRange
    else
      edit (Region.onMemory (Memory.writeRange (ptr + offset) values))
      return true

/-- Overwrites the start of the payload at `ptr`. The answer is whether a block is there and has
room for all the bytes; otherwise nothing is written. -/
def write (ptr : Nat) (values : List UInt8) : Action (Heap A) Bool := do
  match ← Action.ask (·.usableSize ptr) with
  | some length => if values.length ≤ length then patch ptr 0 values else return false
  | none => return false

end BoundaryHeap.Heap
