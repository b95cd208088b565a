import BoundaryHeap.Double.Basic

/-!
The shortest decimal that reads back as a given double. On the grid of decimals with a last place
of `10 ^ place` only the two neighbours of the number need be tried, since if any point of the grid
rounds to the double one of them does. The coarsest grid with such a point wins.
-/

namespace BoundaryHeap.Decimal

/-- A decimal number `digits * 10 ^ place`. -/
structure Scientific where
  digits : Nat
  place : Int
  deriving Repr, DecidableEq

/-- The reals that round to a double, and the double itself, over one denominator. -/
structure Interval where
  low : Nat
  value : Nat
  high : Nat
  denominator : Nat
  /-- Whether the ends belong to the interval. -/
  closed : Bool

namespace Interval

/-- The interval of the double `mantissa * 2 ^ exponent`. Below a power of two doubles lie twice as
close as above it, so its lower half is shorter, unless the exponent is already the least. -/
def ofDouble (mantissa : Nat) (exponent : Int) : Interval :=
  let below := if mantissa = Nat.pow 2 52 ∧ exponent ≠ -Double.leastPower then 1 else 2
  let (unit, denominator) := fractionOf 1 (exponent - 2)
  { low := (4 * mantissa - below) * unit
    value := 4 * mantissa * unit
    high := (4 * mantissa + 2) * unit
    denominator
    closed := mantissa % 2 == 0 }

/-- The interval with all its numbers divided by `10 ^ place`. -/
def scale (i : Interval) (place : Int) : Interval :=
  match place with
  | .ofNat power => { i with denominator := i.denominator * Nat.pow 10 power }
  | .negSucc power =>
    let factor := Nat.pow 10 (power + 1)
    { i with low := i.low * factor, value := i.value * factor, high := i.high * factor }

/-- Whether a whole number lies in the interval. -/
def holds (i : Interval) (number : Nat) : Bool :=
  let scaled := number * i.denominator
  if i.closed then i.low ≤ scaled && scaled ≤ i.high
  else i.low < scaled && scaled < i.high

/-- The whole number of the interval next to its value, of two as near the even one. Only the two
neighbours of the value are tried. -/
def nearest? (i : Interval) : Option Nat :=
  let floor := i.value / i.denominator
  let rest := i.value % i.denominator
  match i.holds floor, i.holds (floor + 1) with
  | true, true =>
    if 2 * rest < i.denominator then some floor
    else if i.denominator < 2 * rest then some (floor + 1)
    else if floor % 2 = 0 then some floor else some (floor + 1)
  | true, false => some floor
  | false, true => some (floor + 1)
  | false, false => none

end Interval

/-- The first hit on the grids from `10 ^ place` on, each ten times finer than the one before. -/
def searchFrom (i : Interval) (place : Int) : Nat → Scientific
  | 0 => ⟨0, 0⟩
  | steps + 1 =>
    match (i.scale place).nearest? with
    | some digits => if digits = 0 then searchFrom i (place - 1) steps else ⟨digits, place⟩
    | none => searchFrom i (place - 1) steps

/-- The shortest decimal in the interval of the double `mantissa * 2 ^ exponent`. Doubles lie
between `10 ^ -324` and `10 ^ 309`, and two grids hold all of their seventeen digits below that. -/
def shortest (mantissa : Nat) (exponent : Int) : Scientific :=
  if mantissa = 0 then ⟨0, 0⟩
  else searchFrom (Interval.ofDouble mantissa exponent) 309 660

end BoundaryHeap.Decimal
