import BoundaryHeap.Double.Basic

/-!
Arithmetic of doubles. The exact result is a fraction, and the double next to it is the result, of
two as near the one whose last bit is zero. No step in between is rounded. A NaN among the operands
is the result, the first one if both are.
-/

namespace BoundaryHeap

/-- The whole number nearest to a quotient, of two as near the even one. -/
def roundDiv (numerator denominator : Nat) : Nat :=
  let floor := numerator / denominator
  let rest := numerator % denominator
  if 2 * rest < denominator then floor
  else if denominator < 2 * rest then floor + 1
  else if floor % 2 = 0 then floor else floor + 1

namespace Double

/-- The double next to a fraction. The fraction is measured in units of the least double, and
as many of its last binary digits are dropped as leave 53. The leading digit of the mantissa is in
the place of the last bit of the exponent, so the two are added up, and a digit that rounding
carries over goes where it should. There is nothing above infinity. -/
def ofFraction (negative : Bool) (numerator denominator : Nat) : Double :=
  let units := numerator * Nat.pow 2 leastPower
  let dropped := (units / denominator).log2 - 52
  let mantissa := roundDiv units (denominator * Nat.pow 2 dropped)
  signed negative (min (mantissa + dropped * Nat.pow 2 52) infiniteBits)

/-- The double next to a natural number. -/
def ofNat (number : Nat) : Double := ofFraction false number 1

/-- The double next to the decimal number that some digits make up, with the last of them `power`
places below or above the point. -/
def ofDecimal (digits : Nat) (below : Bool) (power : Nat) : Double :=
  if below then ofFraction false digits (Nat.pow 10 power)
  else ofFraction false (digits * Nat.pow 10 power) 1

instance : OfScientific Double := ⟨ofDecimal⟩

/-- A number with a sign. -/
def withSign (negative : Bool) (number : Nat) : Int := if negative then -number else number

/-- The sum of two doubles. Zero is negative only as the sum of two negative zeros. -/
def sum (x y : Double) : Double :=
  match x.shape, y.shape with
  | .nan, _ => x.quiet
  | _, .nan => y.quiet
  | .infinite a, .infinite b => if a = b then x else invalid
  | .infinite _, .finite .. => x
  | .finite .., .infinite _ => y
  | .finite a m p, .finite b n q =>
    let (r, s) := fractionOf m p
    let (t, u) := fractionOf n q
    let exact := withSign a (r * u) + withSign b (t * s)
    if exact = 0 then signed (a && b) 0
    else ofFraction (decide (exact < 0)) exact.natAbs (s * u)

/-- The difference of two doubles. A NaN that is taken away keeps its sign. -/
def difference (x y : Double) : Double := if y.isNaN then sum x y else sum x (-y)

/-- The product of two doubles. There is none of zero and infinity. -/
def product (x y : Double) : Double :=
  match x.shape, y.shape with
  | .nan, _ => x.quiet
  | _, .nan => y.quiet
  | .infinite a, .infinite b => infinity (a ^^ b)
  | .infinite a, .finite b n _ => if n = 0 then invalid else infinity (a ^^ b)
  | .finite a m _, .infinite b => if m = 0 then invalid else infinity (a ^^ b)
  | .finite a m p, .finite b n q =>
    let (r, s) := fractionOf m p
    let (t, u) := fractionOf n q
    ofFraction (a ^^ b) (r * t) (s * u)

/-- The quotient of two doubles. There is none of two zeros and none of two infinities. -/
def quotient (x y : Double) : Double :=
  match x.shape, y.shape with
  | .nan, _ => x.quiet
  | _, .nan => y.quiet
  | .infinite _, .infinite _ => invalid
  | .infinite a, .finite b .. => infinity (a ^^ b)
  | .finite a .., .infinite b => signed (a ^^ b) 0
  | .finite a m p, .finite b n q =>
    if n = 0 then
      if m = 0 then invalid else infinity (a ^^ b)
    else
      let (r, s) := fractionOf m p
      let (t, u) := fractionOf n q
      ofFraction (a ^^ b) (r * u) (s * t)

instance : Add Double := ⟨sum⟩
instance : Sub Double := ⟨difference⟩
instance : Mul Double := ⟨product⟩
instance : Div Double := ⟨quotient⟩

end Double

end BoundaryHeap
