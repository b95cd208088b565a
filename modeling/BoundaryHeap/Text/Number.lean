import BoundaryHeap.Fault
import BoundaryHeap.Text.Blank

/-!
Unsigned 64-bit numbers in text. A plain number is a row of digits, with a plus sign in front of it
or not. The settings form may also be set in blanks, be grouped by underscores, and be written in
hexadecimal after `0x`.
-/

namespace BoundaryHeap.Text

/-- The value of a character as a digit in a base of at most sixteen, letters in either case. -/
def digitValue? (base : Nat) (c : Char) : Option Nat :=
  let code := c.val.toNat
  let value :=
    if 48 ≤ code ∧ code ≤ 57 then code - 48
    else if 97 ≤ code ∧ code ≤ 102 then code - 87
    else if 65 ≤ code ∧ code ≤ 70 then code - 55
    else base
  if value < base then some value else none

/-- The number that a row of digits continues to, having begun with `value`. -/
def digitsFrom? (base value : Nat) : List Char → Option Nat
  | [] => some value
  | c :: rest => do digitsFrom? base (value * base + (← digitValue? base c)) rest

/-- The number that a row of at least one digit stands for, if it fits in 64 bits. -/
def unsigned? (base : Nat) (text : List Char) : Option Nat := do
  let digits := match text with
    | '+' :: rest => rest
    | _ => text
  if digits.isEmpty then none
  let value ← digitsFrom? base 0 digits
  if value < wordLimit then some value else none

/-- The number that a decimal text stands for. -/
def decimal? (text : List Char) : Option Nat := unsigned? 10 text

/-- The number that the text of a setting stands for. -/
def setting? (text : List Char) : Option Nat :=
  match (trim text).filter (· ≠ '_') with
  | '0' :: 'x' :: digits => unsigned? 16 digits
  | '0' :: 'X' :: digits => unsigned? 16 digits
  | digits => decimal? digits

end BoundaryHeap.Text
