/-!
Doubles, the floating-point numbers of 64 bits. The bits are a sign, an exponent of 11 bits and a
fraction of 52. With the largest exponent they are infinite if the fraction is zero, and otherwise
no number at all, a NaN. There are many of these, and they are kept apart: which one an operation
leads to is part of its result.
-/

namespace BoundaryHeap

/-- A double, by its bits. -/
structure Double where
  bits : UInt64
  deriving Repr, DecidableEq

/-- What a double stands for. -/
inductive Double.Shape where
  | nan
  | infinite (negative : Bool)
  /-- The number `mantissa * 2 ^ exponent`, or its opposite. -/
  | finite (negative : Bool) (mantissa : Nat) (exponent : Int)
  deriving Repr, DecidableEq

namespace Double

/-- The least double above zero is `2 ^ -leastPower`. Every finite double is a multiple of it. -/
def leastPower : Nat := 1074

/-- The double of a sign and of the bits behind it. -/
def signed (negative : Bool) (magnitude : Nat) : Double :=
  ⟨UInt64.ofNat (magnitude + if negative then Nat.pow 2 63 else 0)⟩

/-- The bits of an infinite double behind its sign. -/
def infiniteBits : Nat := 2047 * Nat.pow 2 52

/-- The infinite double of a sign. -/
def infinity (negative : Bool) : Double := signed negative infiniteBits

/-- What an operation without a result leads to: the NaN with a sign and the first bit of the
fraction. -/
def invalid : Double := signed true (infiniteBits + Nat.pow 2 51)

/-- Reads the three fields of the bits. -/
def shape (x : Double) : Shape :=
  let bits := x.bits.toNat
  let negative := bits / Nat.pow 2 63 % 2 == 1
  let scale : Nat := bits / Nat.pow 2 52 % Nat.pow 2 11
  let fraction : Nat := bits % Nat.pow 2 52
  if scale = 2047 then
    if fraction = 0 then .infinite negative else .nan
  else if scale = 0 then
    .finite negative fraction (-leastPower)
  else
    .finite negative (fraction + Nat.pow 2 52) ((scale : Int) - 1 - leastPower)

/-- Whether a double is no number. -/
def isNaN (x : Double) : Bool := x.shape == .nan

/-- Whether a double is infinite, of either sign. -/
def isInfinite (x : Double) : Bool := x.shape == .infinite false || x.shape == .infinite true

/-- Whether a double is zero, of either sign. -/
def isZero (x : Double) : Bool := x.bits == 0 || x.bits == 0x8000000000000000

/-- The same NaN with the first bit of its fraction, which every NaN has that an operation leads
to. -/
def quiet (x : Double) : Double := ⟨x.bits ||| 0x0008000000000000⟩

/-- The opposite, which differs in the sign alone. -/
def opposite (x : Double) : Double := ⟨x.bits ^^^ 0x8000000000000000⟩

instance : Neg Double := ⟨opposite⟩

end Double

/-- The fraction, as numerator and denominator, that `mantissa * 2 ^ exponent` is. -/
def fractionOf (mantissa : Nat) (exponent : Int) : Nat × Nat :=
  match exponent with
  | .ofNat power => (mantissa * Nat.pow 2 power, 1)
  | .negSucc power => (mantissa, Nat.pow 2 (power + 1))

end BoundaryHeap
