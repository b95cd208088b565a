import BoundaryHeap.Heap.Basic

/-!
How a heap is laid out and how it grows. The layout is a word of padding, the prologue, the
epilogue and then one free block in front of the epilogue. Growth appends a free block over the old
epilogue and puts a new epilogue behind it. An arena that grows in any other way than asked has
moved the end of the memory away from the epilogue, so the heap then stops until it is laid out
again.
-/

namespace BoundaryHeap.Heap

variable {A : Type} [Arena A]

/-- Scans the heap after an operation, if the settings ask for it, and records what is found. -/
def afterwards (symbol : String) : Action (Heap A) Unit := do
  if (← view fun h => h.config.check.scansAlways) then
    let violations ← Action.ask check
    modify fun h => violations.foldl (fun h violation =>
      h.withRecord .error symbol "invariant_violation" none none violation.label
        violation.message) h

/-- Asks the arena for a number of bytes more. The heap lets go of the memory meanwhile, so that the
arena can grow it in place. -/
def growArena (increment : Nat) : Action (Heap A) (Option Nat) :=
  Action.focus (fun h =>
    let arena := h.arena
    let h := { h with arena := Arena.setMemory arena .empty }
    (arena, fun arena => { h with arena })) (Arena.grow increment)

/-- Makes the arena grow by exactly `increment` bytes from the end of the memory on. -/
def growContiguous (increment : Nat) : Action (Heap A) (Except HeapError Nat) := do
  let expected ← view fun h => h.memory.size
  match ← growArena increment with
  | none => return .error (.outOfMemory increment expected)
  | some start =>
    if start ≠ expected then
      modify fun h => { h with initialized := false }
      return .error (.nonContiguousGrowth expected start)
    let grown := (← view fun h => h.memory.size) - expected
    if grown ≠ increment then
      modify fun h => { h with initialized := false }
      return .error (.growthSizeMismatch increment grown)
    count fun c =>
      { c with growCalls := c.growCalls + 1, growBytes := c.growBytes + increment }
    return .ok start

/-- Ends the memory in front of `stop` with the epilogue. -/
def closeAt (stop : Nat) : Action Memory Unit := do
  Memory.writeTag (← Block.headerOffset stop) (Tag.used 0)

/-- Appends a free block of at least `request` bytes and joins it with a free last block. The
answer is where the joined block starts. -/
def extend (symbol : String) (request : Nat) : Action (Heap A) (Except HeapError Nat) := do
  match Block.roundUp (max request Block.minSize) with
  | none => return .error (.requestOverflow request)
  | some size =>
    match ← growContiguous size with
    | .error error =>
      let event := match error with
        | .outOfMemory .. => "oom"
        | _ => "grow_failed"
      record .warn symbol event none (some size) error.label error.message
      return .error error
    | .ok start =>
      edit do
        Region.mark start (Tag.free size)
        Region.onMemory do closeAt (← Checked.add start size)
      let bytes ← view fun h => h.memory.size
      record .info symbol "arena_grow" (some start) (some size) "grown" s!"arena_bytes={bytes}"
      return .ok (← edit (Region.coalesce start))

/-- Writes the sentinels into a new memory and gives it a first free block. -/
def layOut : Action (Heap A) (Except HeapError Unit) := do
  match ← growContiguous (4 * Block.wordSize) with
  | .error error => return .error error
  | .ok base =>
    let prologue ← Checked.add base (2 * Block.wordSize)
    edit <| Region.onMemory do
      Memory.writeWord base 0
      Memory.writeTags prologue (Tag.used Block.prologueSize)
      closeAt (← Checked.add prologue Block.prologueSize)
    modify fun h => { h with prologue }
    let chunk ← view fun h => h.config.chunkSize
    match ← extend "init" chunk with
    | .error error => return .error error
    | .ok _ => return .ok ()

/-- Puts a heap to service whose layout has come to an end, unless it failed, and records that. -/
def conclude (result : Except HeapError Unit) : Action (Heap A) Unit :=
  match result with
  | .ok () => do
    modify fun h => { h with initialized := true }
    let (prologue, bytes, config) ← view fun h => (h.prologue, h.memory.size, h.config)
    record .info "init" "init" (some prologue) (some bytes) "ok"
      (s!"chunk_size={config.chunkSize} placement={config.placement.name} " ++
        s!"check={config.check.title}")
  | .error error => record .warn "init" "init" none none error.label error.message

/-- Lays the heap out afresh. Whatever was allocated before is forgotten. After a failure the heap
refuses every request until a later layout succeeds. -/
def init : Action (Heap A) (Except HeapError Unit) := do
  modify fun h =>
    { h with
      arena := Arena.reset h.arena
      freeList := .empty
      prologue := 0
      initialized := false }
  let result ← layOut
  conclude result
  afterwards "init"
  return result

end BoundaryHeap.Heap
