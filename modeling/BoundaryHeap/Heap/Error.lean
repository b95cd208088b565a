/-!
The failures of a heap that a caller can act on, as opposed to faults, which a damaged memory or a
number out of range brings about and which can leave a call half done.
-/

namespace BoundaryHeap

/-- Why a heap could not be laid out, or why a request was refused. -/
inductive HeapError where
  /-- The arena refused to grow. -/
  | outOfMemory (requested arenaBytes : Nat)
  /-- The arena grew, but not from the end of the memory on. -/
  | nonContiguousGrowth (expected returned : Nat)
  /-- The arena grew by another number of bytes than asked for. -/
  | growthSizeMismatch (requested grown : Nat)
  /-- The block for a request would be too large for 64 bits. -/
  | requestOverflow (requested : Nat)
  /-- The heap has not been laid out. -/
  | notInitialized
  deriving Repr, DecidableEq

namespace HeapError

/-- The short name of an error. -/
def label : HeapError → String
  | outOfMemory .. => "oom"
  | nonContiguousGrowth .. => "non_contiguous_growth"
  | growthSizeMismatch .. => "growth_size_mismatch"
  | requestOverflow .. => "request_overflow"
  | notInitialized => "not_initialized"

/-- What an error says to a person. -/
def message : HeapError → String
  | outOfMemory requested arenaBytes =>
    s!"arena growth of {requested} bytes failed (arena holds {arenaBytes} bytes)"
  | nonContiguousGrowth expected returned =>
    s!"arena growth returned offset {returned}, expected {expected}"
  | growthSizeMismatch requested grown =>
    s!"arena growth of {requested} bytes extended the region by {grown} bytes"
  | requestOverflow requested =>
    s!"request of {requested} bytes overflows block size arithmetic"
  | notInitialized => "heap used before init"

end HeapError

end BoundaryHeap
