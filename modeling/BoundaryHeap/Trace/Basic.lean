import BoundaryHeap.Digest

/-!
Allocation traces: what a program asked of its allocator, with a number for each block it held. The
text of a trace has the four numbers of the header on lines of their own, and then a line per
operation.
-/

namespace BoundaryHeap

/-- One operation of a traced program. -/
inductive TraceOp where
  | alloc (id size : Nat)
  | realloc (id size : Nat)
  | free (id : Nat)
  deriving Repr, DecidableEq

namespace TraceOp

/-- The block that an operation is about. -/
def id : TraceOp → Nat
  | alloc id _ => id
  | realloc id _ => id
  | free id => id

/-- The line of an operation. -/
def line : TraceOp → String
  | alloc id size => s!"a {id} {size}\n"
  | realloc id size => s!"r {id} {size}\n"
  | free id => s!"f {id}\n"

end TraceOp

/-- A trace. -/
structure Trace where
  /-- A size for the memory that the program would have needed. -/
  suggestedHeapSize : Nat
  /-- Blocks are numbered below this. -/
  idCount : Nat
  /-- How much the trace counts among others. -/
  weight : Nat
  ops : List TraceOp
  deriving Repr, DecidableEq

namespace Trace

/-- The text of a trace. -/
def text (t : Trace) : String :=
  s!"{t.suggestedHeapSize}\n{t.idCount}\n{t.ops.length}\n{t.weight}\n" ++
    String.join (t.ops.map TraceOp.line)

/-- The SHA-256 digest of the text, in hexadecimal. -/
def sha256 (t : Trace) : String := Digest.hexText (Digest.sha256 t.text.toUTF8)

end Trace

end BoundaryHeap
