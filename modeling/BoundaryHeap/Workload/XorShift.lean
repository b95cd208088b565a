import BoundaryHeap.Fault

/-!
The pseudo-random numbers of the workloads: a 64-bit state that three shifted copies of itself are
mixed into, one after the other, and that is multiplied by a constant on its way out.
-/

namespace BoundaryHeap.Workload

/-- The state of the generator. -/
structure XorShift where
  state : UInt64
  deriving Repr, DecidableEq

namespace XorShift

/-- The state for a seed. Zero would stay zero for ever, so it stands for another seed. -/
def ofSeed (seed : UInt64) : XorShift := ⟨if seed = 0 then 0x9E3779B97F4A7C15 else seed⟩

/-- The state after `x`. -/
def mix (x : UInt64) : UInt64 :=
  let x := x ^^^ (x >>> 12)
  let x := x ^^^ (x <<< 25)
  x ^^^ (x >>> 27)

/-- The next number. -/
def next (g : XorShift) : UInt64 × XorShift :=
  let x := mix g.state
  (x * 0x2545F4914F6CDD1D, ⟨x⟩)

/-- The next number brought into the range from `low` to `high`, both included. -/
def range (g : XorShift) (low high : Nat) : Except Fault (Nat × XorShift) := do
  let span ← Checked.add (← Checked.sub high low) 1
  let (number, g) := g.next
  return (low + number.toNat % span, g)

end XorShift

end BoundaryHeap.Workload
