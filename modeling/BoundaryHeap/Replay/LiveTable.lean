/-!
The live blocks of a replay, in the order of their addresses. A new block can clash only with the
last one that starts at or before it and with the first one that starts at or after it, as long as
those in the table do not overlap each other.
-/

namespace BoundaryHeap.Replay

/-- A block that the trace holds. -/
structure LiveBlock where
  /-- The number of the block in the trace. -/
  id : Nat
  /-- Where its payload starts. -/
  start : Nat
  /-- The bytes asked for. -/
  size : Nat
  deriving Repr, DecidableEq

/-- Where the bytes asked for end. -/
def LiveBlock.stop (block : LiveBlock) : Nat := block.start + block.size

/-- The live blocks by ascending start. -/
abbrev LiveTable := List LiveBlock

namespace LiveTable

/-- The block with a number. -/
def find? (table : LiveTable) (id : Nat) : Option LiveBlock :=
  List.find? (fun block => block.id == id) table

/-- The table without the block of a number. -/
def erase (table : LiveTable) (id : Nat) : LiveTable :=
  table.filter fun block => block.id != id

/-- The table with one block more. -/
def insert (table : LiveTable) (block : LiveBlock) : LiveTable :=
  match table with
  | [] => [block]
  | other :: rest =>
    if block.start ≤ other.start then block :: other :: rest else other :: insert rest block

/-- A block of the table that has a byte in common with `[start, stop)`. -/
def clash? (table : LiveTable) (start stop : Nat) : Option LiveBlock :=
  let below := (table.takeWhile fun block => block.start ≤ start).getLast?
  let above := List.find? (fun block => start ≤ block.start) table
  (below.filter fun block => start < block.stop).or
    (above.filter fun block => block.start < stop)

end LiveTable

end BoundaryHeap.Replay
