import BoundaryHeap.Heap.Payload
import BoundaryHeap.Heap.Request

/-!
Calls as data, and whole runs of a heap. A call is what a client may do: lay the heap out, make a
request, or write into a payload it holds.
-/

namespace BoundaryHeap

/-- What a client asks of a heap. -/
inductive Call where
  | init
  | allocate (size : Nat)
  | calloc (count size : Nat)
  | release (ptr : Nat)
  | resize (ptr size : Nat)
  /-- Write bytes into the payload at `ptr`, from an offset on. -/
  | write (ptr offset : Nat) (values : List UInt8)
  deriving Repr, DecidableEq

/-- What a heap answers. -/
inductive Answer where
  /-- The layout is done, or why it failed. -/
  | laidOut (result : Except HeapError Unit)
  /-- Where the block is, if there is one. -/
  | block (ptr : Option Nat)
  | released
  /-- Whether there was a block to write to. -/
  | written (done : Bool)
  deriving Repr

namespace Heap

variable {A : Type} [Arena A]

/-- Carries out one call. -/
def call : Call → Action (Heap A) Answer
  | .init => do return .laidOut (← init)
  | .allocate size => do return .block (← allocate size)
  | .calloc count size => do return .block (← calloc count size)
  | .release ptr => do
    release ptr
    return .released
  | .resize ptr size => do return .block (← resize ptr size)
  | .write ptr offset values => do return .written (← patch ptr offset values)

/-- Carries out calls one after the other and collects the answers. -/
def run : List Call → Action (Heap A) (List Answer)
  | [] => return []
  | first :: rest => do
    let answer ← call first
    return answer :: (← run rest)

end Heap

end BoundaryHeap
