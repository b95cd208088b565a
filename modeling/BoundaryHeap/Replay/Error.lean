import BoundaryHeap.Check.Violation
import BoundaryHeap.Heap.Error

/-!
The ways in which a replay can end before its trace does.
-/

namespace BoundaryHeap

/-- Why a replay stopped. All but the first name the operation, counted from zero. -/
inductive ReplayError where
  /-- The heap could not be laid out. -/
  | init (error : HeapError)
  /-- The heap had no block for a request. -/
  | outOfMemory (index id size : Nat)
  /-- The trace names a block beyond those it announces. -/
  | unknownId (index id idCount : Nat)
  /-- The trace allocates a block that is live. -/
  | idInUse (index id : Nat)
  | misaligned (index id ptr : Nat)
  /-- The heap handed out fewer bytes than asked for. -/
  | undersized (index id size usable : Nat)
  /-- The heap handed out bytes of another live block. -/
  | overlap (index id other start stop : Nat)
  /-- A payload does not hold what was written to it. -/
  | corrupted (index id offset : Nat)
  /-- The scan of the heap found a violation. -/
  | invariant (index : Nat) (violation : Violation)
  deriving Repr, DecidableEq

namespace ReplayError

/-- The short name of an error. -/
def label : ReplayError → String
  | init _ => "init"
  | outOfMemory .. => "out_of_memory"
  | unknownId .. => "unknown_id"
  | idInUse .. => "id_in_use"
  | misaligned .. => "misaligned"
  | undersized .. => "undersized"
  | overlap .. => "overlap"
  | corrupted .. => "corrupted"
  | invariant .. => "invariant"

/-- A number in hexadecimal. -/
def hexadecimal (number : Nat) : String := "0x" ++ String.ofList (Nat.toDigits 16 number)

/-- What an error says to a person. -/
def message : ReplayError → String
  | init error => s!"heap init failed: {error.message}"
  | outOfMemory index id size => s!"op {index}: request of {size} bytes for id {id} failed"
  | unknownId index id idCount => s!"op {index}: id {id} outside the trace's {idCount} ids"
  | idInUse index id => s!"op {index}: id {id} is already live"
  | misaligned index id ptr => s!"op {index}: id {id} got misaligned payload {hexadecimal ptr}"
  | undersized index id size usable =>
    s!"op {index}: id {id} got {usable} usable bytes for a {size}-byte request"
  | overlap index id other start stop =>
    s!"op {index}: id {id} at [{hexadecimal start}, {hexadecimal stop}) overlaps id {other}"
  | corrupted index id offset => s!"op {index}: payload of id {id} corrupted at byte {offset}"
  | invariant index violation => s!"op {index}: heap check failed: {violation.message}"

end ReplayError

end BoundaryHeap
