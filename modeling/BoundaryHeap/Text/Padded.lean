/-!
Numbers with at least so many digits, zeros in front making up for those they lack.
-/

namespace BoundaryHeap.Text

/-- The digits of a number in a base, at least `width` of them. -/
def padded (base width number : Nat) : List Char := (Nat.toDigits base number).leftpad width '0'

end BoundaryHeap.Text
