import BoundaryHeap.Heap.Growth

/-!
The requests a heap serves: `allocate`, `release`, `resize` and `calloc`. A refused request is
answered by `none` and leaves every block as it was.
-/

namespace BoundaryHeap.Heap

variable {A : Type} [Arena A]

/-- Whether the heap serves requests. A refusal is recorded. -/
def ready (symbol : String) : Action (Heap A) Bool := do
  if (← view (·.initialized)) then
    return true
  else
    let error := HeapError.notInitialized
    record .warn symbol "not_initialized" none none error.label error.message
    return false

/-- Whether a pointer may be released or resized. Without checking every pointer may; otherwise
it must be that of an allocated block, and a refusal is counted and recorded. -/
def accepts (symbol : String) (ptr : Nat) : Action (Heap A) Bool := do
  if (← view fun h => h.config.check.testsPointers) then
    match ← Action.ask fun h => h.memory.liveBlock h.prologue ptr with
    | .ok _ => return true
    | .error violation =>
      count fun c => { c with invalidPointers := c.invalidPointers + 1 }
      record .warn symbol "invalid_pointer" (some ptr) none violation.label violation.message
      return false
  else
    return true

/-- Whether the heap serves requests and this pointer may be released or resized. -/
def readyFor (symbol : String) (ptr : Nat) : Action (Heap A) Bool := do
  if (← ready symbol) then accepts symbol ptr else return false

/-- The size of the block for a request. A request too large for 64 bits is counted and recorded
as failed. -/
def sized (symbol : String) (request : Nat) : Action (Heap A) (Option Nat) := do
  match Block.sizeFor request with
  | some size => return some size
  | none =>
    let error := HeapError.requestOverflow request
    count fun c => { c with failedAllocs := c.failedAllocs + 1 }
    record .warn symbol "oom" none (some request) error.label error.message
    return none

/-- A free block of at least `size` bytes: the first of the list that fits, with the word for that,
or else a new one at the end of the memory. -/
def supply (symbol : String) (size : Nat) : Action (Heap A) (Option (Nat × String)) := do
  match ← Action.ask fun h => h.freeList.findFit h.memory size with
  | some bp => return some (bp, "free_list_fit")
  | none =>
    let chunk ← view fun h => h.config.chunkSize
    match ← extend symbol (max size chunk) with
    | .ok bp => return some (bp, "arena_grow")
    | .error _ =>
      count fun c => { c with failedAllocs := c.failedAllocs + 1 }
      return none

/-- Allocates on behalf of the operation `symbol`. -/
def allocateAs (symbol : String) (request : Nat) : Action (Heap A) (Option Nat) := do
  if !(← ready symbol) then
    return none
  if request = 0 then
    record .debug symbol "alloc_zero" none (some 0) "null" "zero-size request"
    return none
  match ← sized symbol request with
  | none => return none
  | some size =>
    match ← supply symbol size with
    | none => return none
    | some (bp, outcome) =>
      let policy ← view fun h => h.config.placement
      let ptr ← edit (Region.place policy bp size)
      count fun c => { c with allocs := c.allocs + 1 }
      record .trace symbol "alloc" (some ptr) (some request) outcome ""
      return some ptr

/-- Hands out a block of at least `request` payload bytes. There is none for a request of no bytes,
one too large for 64 bits, or one the arena has no memory for. -/
def allocate (request : Nat) : Action (Heap A) (Option Nat) := do
  let ptr ← allocateAs "allocate" request
  afterwards "allocate"
  return ptr

/-- Releases on behalf of the operation `symbol`. -/
def releaseAs (symbol : String) (ptr : Nat) : Action (Heap A) Unit := do
  if ptr = 0 then
    record .debug symbol "free_null" none none "noop" ""
  else if (← readyFor symbol ptr) then
    let size ← Action.ask fun h => h.memory.blockSize ptr
    let start ← edit (Region.free ptr)
    count fun c => { c with frees := c.frees + 1 }
    let outcome := if start = ptr then "released" else "merged_into_prev"
    record .trace symbol "free" (some ptr) (some size) outcome ""

/-- Takes the block at `ptr` back. The pointer zero stands for no block. Without checking `ptr` must
be that of an allocated block. -/
def release (ptr : Nat) : Action (Heap A) Unit := do
  releaseAs "release" ptr
  afterwards "release"

/-- The size of a neighbour as far as it is free. -/
def freeSize (tag : Tag) : Nat := if tag.allocated then 0 else tag.size

/-- Where a block that has to get larger finds room. -/
inductive Room where
  /-- In the free block behind it. -/
  | behind
  /-- In the free block before it, and in one behind it as well. -/
  | around
  /-- In another place of the memory. -/
  | elsewhere
  deriving Repr, DecidableEq

/-- Where a block of `current` bytes between `before` and `after` free bytes finds room for `size`
bytes. A free predecessor rules out growing in place. -/
def Room.of (before current after size : Nat) : Except Fault Room := do
  if before = 0 then
    if after = 0 then
      return elsewhere
    let total ← Checked.add current after
    return if size ≤ total then behind else elsewhere
  else
    let total ← Checked.add (← Checked.add before current) after
    return if size ≤ total then around else elsewhere

/-- Makes the block at `ptr` of `current` bytes larger. If it has to move to another place and there
is none, it stays as it was. -/
def enlarge (symbol : String) (ptr current size request : Nat) :
    Action (Heap A) (Option Nat) := do
  let next ← Checked.add ptr current
  let after := freeSize (← Action.ask fun h => h.memory.header next)
  let before := freeSize (← Action.ask fun h => h.memory.precedingTag ptr)
  match ← Room.of before current after size with
  | .behind =>
    edit (Region.growInPlace ptr current after size)
    count fun c => { c with reallocsInPlace := c.reallocsInPlace + 1 }
    record .trace symbol "realloc_absorb_next" (some ptr) (some request) "in_place" ""
    return some ptr
  | .around =>
    let prev ← edit (Region.slideDown ptr before current after size)
    count fun c => { c with reallocsAbsorbedPrev := c.reallocsAbsorbedPrev + 1 }
    let event := if 0 < after then "realloc_absorb_both" else "realloc_absorb_prev"
    record .trace symbol event (some prev) (some request) "moved_down" ""
    return some prev
  | .elsewhere =>
    match ← allocateAs symbol request with
    | none => return none
    | some target =>
      edit (Region.moveTo ptr current request target)
      count fun c => { c with reallocsMoved := c.reallocsMoved + 1 }
      record .trace symbol "realloc_move" (some target) (some request) "moved" ""
      return some target

/-- Resizes the block at `ptr` to hold `request` bytes. A block that is large enough stays where it
is and gives back what it does not need. -/
def resizeAs (symbol : String) (ptr request : Nat) : Action (Heap A) (Option Nat) := do
  if ptr = 0 then
    allocateAs symbol request
  else if request = 0 then
    releaseAs symbol ptr
    return none
  else if !(← readyFor symbol ptr) then
    return none
  else
    match ← sized symbol request with
    | none => return none
    | some size =>
      let current ← Action.ask fun h => h.memory.blockSize ptr
      if size ≤ current then
        edit (Region.trim ptr current size)
        count fun c => { c with reallocsInPlace := c.reallocsInPlace + 1 }
        record .trace symbol "realloc_shrink" (some ptr) (some request) "in_place" ""
        return some ptr
      else
        enlarge symbol ptr current size request

/-- Gives the block at `ptr` room for `request` bytes; the answer is where it then is. The pointer
zero makes this an allocation, and a request of no bytes a release. What the block held survives up
to the smaller of its two sizes. If there is no memory the block stays as it was. -/
def resize (ptr request : Nat) : Action (Heap A) (Option Nat) := do
  let moved ← resizeAs "resize" ptr request
  afterwards "resize"
  return moved

/-- Allocates `items * size` bytes and clears the whole payload. -/
def callocAs (symbol : String) (items size : Nat) : Action (Heap A) (Option Nat) := do
  if wordLimit ≤ items * size then
    count fun c => { c with failedAllocs := c.failedAllocs + 1 }
    record .warn symbol "calloc_overflow" none none "overflow" s!"count={items} size={size}"
    return none
  else
    match ← allocateAs symbol (items * size) with
    | none => return none
    | some ptr =>
      edit (Region.clear ptr)
      return some ptr

/-- Hands out a block for a number of items of `size` bytes with all its payload zero. A product too
large for 64 bits is refused before anything else. -/
def calloc (items size : Nat) : Action (Heap A) (Option Nat) := do
  let ptr ← callocAs "calloc" items size
  afterwards "calloc"
  return ptr

end BoundaryHeap.Heap
