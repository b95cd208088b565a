import BoundaryHeap.Memory

/-!
An arena supplies the memory that a heap manages. Asked to grow, a well-behaved arena makes the
memory longer by exactly the bytes asked for and answers where they start, or refuses and leaves
the memory as it was. `LimitedArena` is well behaved; `ScriptedArena` departs from the contract at
chosen calls.
-/

namespace BoundaryHeap

/-- What a heap needs of its arena. -/
class Arena (A : Type) where
  /-- The memory held now. -/
  memory : A → Memory
  /-- Replaces the memory after the heap has written to it. -/
  setMemory : A → Memory → A
  /-- Asks for a number of bytes more; the answer is where they start. -/
  grow : Nat → Action A (Option Nat)
  /-- Gives all memory back, before a heap is laid out afresh. -/
  reset : A → A

/-- An arena whose memory never gets longer than a limit. -/
structure LimitedArena where
  memory : Memory
  /-- The most bytes the memory may have. -/
  limit : Nat
  /-- The calls that made the memory grow since the last reset. -/
  growCalls : Nat

namespace LimitedArena

/-- The limit of an arena that is given none: 20 MiB. -/
def defaultLimit : Nat := 20971520

/-- An arena without memory. -/
def withLimit (limit : Nat) : LimitedArena := ⟨Memory.empty, limit, 0⟩

/-- Appends zero bytes unless that would pass the limit. -/
def grow (increment : Nat) : Action LimitedArena (Option Nat) := fun a =>
  let start := a.memory.size
  let stop := start + increment
  if wordLimit ≤ stop ∨ a.limit < stop then
    .ok none a
  else if capacityLimit ≤ stop then
    .error .capacity a
  else
    .ok (some start) ⟨a.memory.extend increment, a.limit, a.growCalls + 1⟩

/-- Gives all memory back and counts from zero again. -/
def reset (a : LimitedArena) : LimitedArena := ⟨Memory.empty, a.limit, 0⟩

instance : Arena LimitedArena where
  memory a := a.memory
  setMemory a memory := { a with memory }
  grow := grow
  reset := reset

end LimitedArena

/-- How one call of a scripted arena departs from the contract. -/
structure Departure where
  /-- Refuse, whatever the limit says. -/
  refuses : Bool
  /-- Grow by this many bytes more than asked for; fewer than none is refused. -/
  excess : Int
  /-- Answer a start this far after the true one, or refuse if no 64-bit number is there. -/
  displacement : Int
  /-- Words that the arena writes, with their offsets, after it has grown. -/
  scribbles : List (Nat × Nat)

/-- The start that a departure shows for a true one. -/
def Departure.shown (departure : Departure) (start : Nat) : Option Nat :=
  let shown := (start : Int) + departure.displacement
  if 0 ≤ shown ∧ shown < wordLimit then some shown.toNat else none

/-- A limited arena that departs from the contract at the calls its script names. Calls are counted
from one over the life of the arena, and a reset does not start over. -/
structure ScriptedArena where
  inner : LimitedArena
  calls : Nat
  script : Nat → Option Departure

namespace ScriptedArena

/-- Writes words at their offsets, one after the other. -/
def scribble : List (Nat × Nat) → Action Memory Unit
  | [] => return
  | (offset, word) :: rest => do
    Memory.writeWord offset word
    scribble rest

/-- An action on the arena inside. -/
def onInner {α : Type} (act : Action LimitedArena α) : Action ScriptedArena α :=
  Action.focus (fun ⟨inner, calls, script⟩ => (inner, fun inner => ⟨inner, calls, script⟩)) act

/-- An action on the memory. -/
def onMemory {α : Type} (act : Action Memory α) : Action ScriptedArena α :=
  onInner <| Action.focus
    (fun ⟨memory, limit, growCalls⟩ => (memory, fun memory => ⟨memory, limit, growCalls⟩)) act

/-- Grows as the script says for this call. -/
def grow (increment : Nat) : Action ScriptedArena (Option Nat) := do
  modify fun a => { a with calls := a.calls + 1 }
  match ← Action.ask fun a => .ok (a.script a.calls) with
  | none => onInner (LimitedArena.grow increment)
  | some departure =>
    let amount := (increment : Int) + departure.excess
    if departure.refuses ∨ amount < 0 then
      return none
    match ← onInner (LimitedArena.grow amount.toNat) with
    | none => return none
    | some start =>
      onMemory (scribble departure.scribbles)
      return departure.shown start

instance : Arena ScriptedArena where
  memory a := a.inner.memory
  setMemory a memory := { a with inner := { a.inner with memory } }
  grow := grow
  reset a := { a with inner := a.inner.reset }

end ScriptedArena

end BoundaryHeap
