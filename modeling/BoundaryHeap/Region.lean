import BoundaryHeap.Config
import BoundaryHeap.FreeList

/-!
A region is a memory together with the list of its free blocks. The moves on it join, split and
free blocks: `coalesce` joins a freed block with its free neighbours, `place` takes an allocation
out of a free block, `trim` gives back what an allocated block does not need. Each move writes one
word at a time in a fixed order, and a damaged memory can stop it between two of them.
-/

namespace BoundaryHeap

/-- A memory laid out in blocks, with its free list. -/
structure Region where
  memory : Memory
  freeList : FreeList

namespace Region

variable {α : Type}

/-- A question about the memory. -/
@[inline] def read (question : Memory → Except Fault α) : Action Region α :=
  Action.ask fun r => question r.memory

/-- An action on the memory alone. -/
@[inline] def onMemory (act : Action Memory α) : Action Region α :=
  Action.focus (fun ⟨memory, freeList⟩ => (memory, fun memory => ⟨memory, freeList⟩)) act

/-- Changes the ends of the free list. -/
@[inline] def onList (change : FreeList → FreeList) : Action Region Unit :=
  modify fun ⟨memory, freeList⟩ => ⟨memory, change freeList⟩

/-- Gives the block at `bp` a tag, at both its ends. -/
def mark (bp : Nat) (tag : Tag) : Action Region Unit := onMemory (Memory.writeTags bp tag)

/-- Makes the list go on from a node to another, or start with that one if there is no node. -/
def pointOn (node target : Option Nat) : Action Region Unit :=
  match node with
  | some node => onMemory (Memory.setOnLink node target)
  | none => onList fun l => { l with head := target }

/-- Makes a node, if there is one, link back to another. -/
def pointBack (node target : Option Nat) : Action Region Unit :=
  match node with
  | some node => onMemory (Memory.setBackLink node target)
  | none => pure ()

/-- Puts the free block at `bp` on the free list, in front of the first node strictly larger than
it. -/
def link (bp : Nat) : Action Region Unit := do
  let (before, after) ← Action.ask fun r => r.freeList.placeOf r.memory bp
  onMemory (Memory.setBackLink bp before)
  onMemory (Memory.setOnLink bp after)
  pointOn before (some bp)
  pointBack after (some bp)
  onList fun l => { l with length := l.length + 1 }

/-- Takes the free block at `bp`, whose neighbours its own links name, off the free list. -/
def unlink (bp : Nat) : Action Region Unit := do
  let before ← read (·.backLink bp)
  let after ← read (·.onLink bp)
  pointOn before after
  pointBack after before
  onList fun l => { l with length := l.length - 1 }

/-- Takes the free neighbours of the block at `bp` off the list. The answer is where the three of
them together start and how large they are. -/
def gather (bp : Nat) : Action Region (Nat × Nat) := do
  let size ← read (·.blockSize bp)
  let next ← Checked.add bp size
  let before ← read (·.precedingTag bp)
  let after ← read (·.header next)
  if before.allocated then
    if after.allocated then
      return (bp, size)
    else
      unlink next
      return (bp, ← Checked.add size (← read (·.blockSize next)))
  else
    let prev ← read (·.precedingBlock bp)
    unlink prev
    if after.allocated then
      return (prev, ← Checked.add (← read (·.blockSize prev)) size)
    else
      unlink next
      let sum ← Checked.add (← read (·.blockSize prev)) size
      return (prev, ← Checked.add sum (← read (·.blockSize next)))

/-- Joins the block at `bp`, which is tagged free and not on the list, with its free neighbours,
and links the result. The answer is where the joined block starts. -/
def coalesce (bp : Nat) : Action Region Nat := do
  let (start, size) ← gather bp
  mark start (Tag.free size)
  link start
  return start

/-- Allocates `size` bytes out of the free block at `bp`. What is left over becomes a free block if
it is large enough for one. It then has no free neighbour, since `bp` had none. -/
def place (policy : Placement) (bp size : Nat) : Action Region Nat := do
  unlink bp
  let whole ← read (·.blockSize bp)
  let rest ← Checked.sub whole size
  if rest < Block.minSize then
    mark bp (Tag.used whole)
    return bp
  else match policy.side size with
    | .front =>
      mark bp (Tag.used size)
      let leftover ← Checked.add bp size
      mark leftover (Tag.free rest)
      link leftover
      return bp
    | .back =>
      mark bp (Tag.free rest)
      link bp
      let taken ← Checked.add bp rest
      mark taken (Tag.used size)
      return taken

/-- Gives the allocated block at `bp` the size `size` out of the `total` bytes from there on. A tail
that is large enough becomes a free block, joined with a free successor. -/
def trim (bp total size : Nat) : Action Region Unit := do
  let rest ← Checked.sub total size
  if rest < Block.minSize then
    mark bp (Tag.used total)
  else
    mark bp (Tag.used size)
    let tail ← Checked.add bp size
    mark tail (Tag.free rest)
    discard (coalesce tail)

/-- Frees the allocated block at `bp`. The answer is where the free block that it is now part of
starts. -/
def free (bp : Nat) : Action Region Nat := do
  let size ← read (·.blockSize bp)
  mark bp (Tag.free size)
  coalesce bp

/-- Clears the payload of the block at `bp`. -/
def clear (bp : Nat) : Action Region Unit := do
  let length ← Block.payloadCapacity (← read (·.blockSize bp))
  onMemory (Memory.writeRange bp (List.replicate length 0))

/-- Gives the allocated block at `bp` of `current` bytes the size `size`, with the free block of
`after` bytes behind it. -/
def growInPlace (bp current after size : Nat) : Action Region Unit := do
  unlink (bp + current)
  trim bp (current + after) size

/-- Takes the block at `bp` off the free list if it has any bytes. -/
def unlinkIfAny (bp size : Nat) : Action Region Unit :=
  if 0 < size then unlink bp else pure ()

/-- Slides the allocated block at `bp` of `current` bytes down into the free block of `before` bytes
in front of it, takes the free block of `after` bytes behind it as well, and keeps `size` bytes of
them all. The answer is where the block then is. -/
def slideDown (bp before current after size : Nat) : Action Region Nat := do
  let prev ← Checked.sub bp before
  unlink prev
  unlinkIfAny (bp + current) after
  let length ← Block.payloadCapacity current
  onMemory (Memory.copy bp prev length)
  trim prev (before + current + after) size
  return prev

/-- Copies what the block at `bp` of `current` bytes holds, up to `request` bytes of it, to the
payload at `target`, and frees the block. -/
def moveTo (bp current request target : Nat) : Action Region Unit := do
  let length := min (← Block.payloadCapacity current) request
  onMemory (Memory.copy bp target length)
  discard (free bp)

end Region

end BoundaryHeap
