import BoundaryHeap.Workload.Builder
import BoundaryHeap.Workload.Profile

/-!
Generated traces. Each profile repeats a round of operations until the trace has as many as asked
for, and the blocks still live are then released. The same profile, seed, number of operations and
largest size always give the same trace.
-/

namespace BoundaryHeap.Workload

/-- Repeats rounds until there are `count` operations. Every round adds at least one, so that
`count` rounds are enough. -/
def repeatUntil {σ : Type} (count : Nat) (round : σ × Builder → Except Fault (σ × Builder)) :
    Nat → σ × Builder → Except Fault (σ × Builder)
  | 0, state => .ok state
  | rounds + 1, state =>
    if state.2.ops.size < count then do repeatUntil count round rounds (← round state)
    else .ok state

namespace Churn

/-- One operation: of a hundred rolls, the last twenty resize a live block and the thirty-five
before them release one; otherwise, or if none is live, a block is allocated. -/
def round (maxSize : Nat) (b : Builder) : Except Fault Builder := do
  let (roll, b) ← b.draw 0 99
  let (size, b) ← b.draw 1 maxSize
  let (picked, b) ← b.pickLive
  match picked with
  | some id =>
    if 80 ≤ roll then b.realloc id size
    else if 45 ≤ roll then b.free id
    else return (← b.alloc size).2
  | none => return (← b.alloc size).2

end Churn

namespace Sawtooth

/-- One wave of growing blocks, of which every fourth is kept. -/
def round (maxSize : Nat) (b : Builder) : Except Fault Builder := do
  let (wave, b) ← b.draw 8 32
  let step := max (maxSize / wave) 1
  let (ids, b) ← b.allocAll ((List.range wave).map fun i => (i + 1) * step)
  let passing := (ids.zipIdx.filter fun pair => pair.2 % 4 != 3).map (·.1)
  b.freeAll passing

end Sawtooth

namespace ReallocGrowth

/-- The blocks that grow, and the small ones from the oldest on. -/
structure Population where
  growing : Array Nat
  small : List Nat

/-- Allocates `count` blocks of random sizes between one and 64. -/
def plant (b : Builder) : Nat → Except Fault (List Nat × Builder)
  | 0 => .ok ([], b)
  | count + 1 => do
    let (size, b) ← b.draw 1 64
    let (id, b) ← b.alloc size
    let (ids, b) ← plant b count
    return (id :: ids, b)

/-- One step of growth for a random block, which starts over when it gets too large, and one more
small block, of which at most eight are kept. -/
def round (maxSize : Nat) : Population × Builder → Except Fault (Population × Builder)
  | (⟨growing, small⟩, b) => do
    let (slot, b) ← b.draw 0 (growing.size - 1)
    let id := growing.getD slot 0
    let (growth, b) ← b.draw 1 (max (maxSize / 8) 1)
    let next ← Checked.add (b.sizes.getD id 0) growth
    let (growing, b) ←
      if maxSize < next then do
        let b ← b.free id
        let (size, b) ← b.draw 1 64
        let (fresh, b) ← b.alloc size
        pure (growing.setIfInBounds slot fresh, b)
      else do
        let b ← b.realloc id next
        pure (growing, b)
    let (size, b) ← b.draw 16 64
    let (id, b) ← b.alloc size
    match small ++ [id] with
    | victim :: rest =>
      if 8 ≤ rest.length then return (⟨growing, rest⟩, ← b.free victim)
      else return (⟨growing, victim :: rest⟩, b)
    | [] => return (⟨growing, []⟩, b)

end ReallocGrowth

namespace Binary

/-- Allocates `pairs` pairs of a small and a large block. -/
def plant (low maxSize : Nat) (b : Builder) : Nat → Except Fault (List Nat × List Nat × Builder)
  | 0 => .ok ([], [], b)
  | pairs + 1 => do
    let (size, b) ← b.draw 8 64
    let (small, b) ← b.alloc size
    let (size, b) ← b.draw low maxSize
    let (large, b) ← b.alloc size
    let (smalls, larges, b) ← plant low maxSize b pairs
    return (small :: smalls, large :: larges, b)

/-- One round of pairs: the large blocks make room for as many that are sixteen bytes above the
largest size, and everything is released. -/
def round (maxSize : Nat) (b : Builder) : Except Fault Builder := do
  let (pairs, b) ← b.draw 8 24
  let (smalls, larges, b) ← plant (max (maxSize / 2) 1) maxSize b pairs
  let b ← b.freeAll larges
  let bigger ← Checked.add maxSize 16
  let (biggers, b) ← b.allocAll (List.replicate pairs bigger)
  b.freeAll (smalls ++ biggers)

end Binary

/-- Repeats rounds that need no memory of their own. -/
def repeatRound (count : Nat) (round : Builder → Except Fault Builder) (b : Builder) :
    Except Fault Builder := do
  let (_, b) ← repeatUntil count (fun state => do return ((), ← round state.2)) count ((), b)
  return b

/-- The trace under construction once it has at least `count` operations. -/
def build (profile : Profile) (seed : UInt64) (count maxSize : Nat) : Except Fault Builder := do
  let b := Builder.ofSeed seed
  match profile with
  | .churn => repeatRound count (Churn.round maxSize) b
  | .sawtooth => repeatRound count (Sawtooth.round maxSize) b
  | .reallocGrowth =>
    let (growers, b) ← b.draw 1 4
    let (growing, b) ← ReallocGrowth.plant b growers
    let (_, b) ←
      repeatUntil count (ReallocGrowth.round maxSize) count (⟨growing.toArray, []⟩, b)
    return b
  | .binary => repeatRound count (Binary.round maxSize) b

/-- A trace of about `count` operations with sizes up to `maxSize`, which is at least sixteen. The
binary profile asks for sixteen bytes more. -/
def generate (profile : Profile) (seed : UInt64) (count maxSize : Nat) : Except Fault Trace := do
  return (← build profile seed count (max maxSize 16)).finish

end BoundaryHeap.Workload
