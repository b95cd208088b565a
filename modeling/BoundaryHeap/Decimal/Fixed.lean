import BoundaryHeap.Double.Arithmetic
import BoundaryHeap.Text.Padded

/-!
Decimals with a fixed number of places, rounded from the exact value of a double. A half goes to
the even neighbour.
-/

namespace BoundaryHeap.Decimal

/-- The digits of a number of units of `10 ^ -places`, with a point in front of the last
`places`. -/
def placesText (places units : Nat) : String :=
  if places = 0 then toString units
  else
    s!"{units / Nat.pow 10 places}." ++
      String.ofList (Text.padded 10 places (units % Nat.pow 10 places))

/-- A double with `places` decimal places. A negative number keeps its sign even if it rounds to
zero. -/
def fixedText (places : Nat) (x : Double) : String :=
  match x.shape with
  | .nan => "NaN"
  | .infinite negative => if negative then "-inf" else "inf"
  | .finite negative mantissa exponent =>
    let (numerator, denominator) := fractionOf mantissa exponent
    let units := roundDiv (numerator * Nat.pow 10 places) denominator
    (if negative then "-" else "") ++ placesText places units

end BoundaryHeap.Decimal
