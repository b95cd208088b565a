/-!
A fault is the reason why an operation has no answer at all: an access outside the managed bytes,
or a number that leaves 64 bits. Faults are kept apart from the answers a caller can act on, such
as a refused request. Every sum and difference that could leave 64 bits is computed here.
-/

namespace BoundaryHeap

/-- The reasons an operation stops without an answer. -/
inductive Fault where
  /-- A read or write reached outside the memory. -/
  | outOfRange
  /-- A sum or difference left the range of 64-bit unsigned numbers. -/
  | overflow
  /-- A walk along the free list came back to a node it had passed. -/
  | endlessList
  /-- A table or region would need more bytes than an address space has. -/
  | capacity
  deriving Repr, DecidableEq

/-- One more than the largest 64-bit unsigned number. -/
abbrev wordLimit : Nat := 18446744073709551616

/-- No single table or region reaches this many bytes. -/
abbrev capacityLimit : Nat := 9223372036854775808

namespace Checked

/-- The sum of two numbers, if it fits in 64 bits. -/
def add (a b : Nat) : Except Fault Nat :=
  if a + b < wordLimit then .ok (a + b) else .error .overflow

/-- The difference of two numbers, if the first is not the smaller. -/
def sub (a b : Nat) : Except Fault Nat :=
  if b ≤ a then .ok (a - b) else .error .overflow

theorem add_eq_ok {a b : Nat} (fits : a + b < wordLimit) : add a b = .ok (a + b) := if_pos fits

theorem add_eq_ok_iff {a b sum : Nat} : add a b = .ok sum ↔ a + b < wordLimit ∧ sum = a + b := by
  unfold add
  split
  · simp_all [eq_comm]
  · simp only [reduceCtorEq, false_iff, not_and]
    omega

theorem sub_eq_ok {a b : Nat} (ordered : b ≤ a) : sub a b = .ok (a - b) := if_pos ordered

end Checked

end BoundaryHeap
