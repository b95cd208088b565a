import BoundaryHeap.Double.Arithmetic
import BoundaryHeap.Fault
import BoundaryHeap.Json.Basic
import BoundaryHeap.Text.Number

/-!
Reading JSON text. The strict reader takes one whole document and refuses anything else: numbers
beyond all doubles, halves of surrogate pairs, and arrays and objects nested 128 deep included. The
lax reader only looks for the end of a value whose content does not matter, and lets those three
pass. Each function answers what it has read together with the rest of the text.
-/

namespace BoundaryHeap.Json.Reader

/-- Whether a character may stand between the parts of a document. -/
def isBlank (c : Char) : Bool := c = ' ' || c = '\n' || c = '\t' || c = '\r'

/-- The text after the blanks it begins with. -/
def skipBlanks (text : List Char) : List Char := text.dropWhile isBlank

/-- The text after a word it has to begin with. -/
def expect (word : List Char) (text : List Char) : Option (List Char) :=
  if word.isPrefixOf text then some (text.drop word.length) else none

/-! ## Numbers -/

/-- A digit. -/
def digit? (c : Char) : Option Nat := Text.digitValue? 10 c

/-- A power of ten as a double. -/
def powerOfTen (power : Nat) : Double := Double.ofNat (Nat.pow 10 power)

/-- The double near `value * 10 ^ exponent`, computed in steps that multiply or divide by at most
`10 ^ 308`. There is none beyond the largest double. Three steps turn any value into zero. -/
def scaled? (value : Double) (exponent : Int) : Nat → Option Double
  | 0 => some value
  | steps + 1 =>
    match exponent with
    | .ofNat power =>
      if power ≤ 308 then
        let product := value * powerOfTen power
        if product.isInfinite then none else some product
      else if value.isZero then some value
      else none
    | .negSucc power =>
      if power + 1 ≤ 308 then some (value / powerOfTen (power + 1))
      else if value.isZero then some value
      else scaled? (value / powerOfTen 308) (exponent + 308) steps

/-- Gives a double a sign. -/
def signed (negative : Bool) (value : Double) : Number := .real (if negative then -value else value)

/-- The double of a significand and an exponent. The lax reader does not ask whether there is
one. -/
def realOf? (strict negative : Bool) (significand : Nat) (exponent : Int) : Option Number :=
  match scaled? (Double.ofNat significand) exponent 4 with
  | some value => some (signed negative value)
  | none => if strict then none else some (.real 0.0)

/-- The digits that a text begins with, and the rest. -/
def spanDigits (text : List Char) : List Nat × List Char :=
  ((text.takeWhile fun c => (digit? c).isSome).filterMap digit?,
    text.dropWhile fun c => (digit? c).isSome)

/-- The significand that as many digits as fit in 64 bits make up, and how many of them do. -/
def significandFrom (value taken : Nat) : List Nat → Nat × Nat
  | [] => (value, taken)
  | digit :: rest =>
    if value * 10 + digit < wordLimit then significandFrom (value * 10 + digit) (taken + 1) rest
    else (value, taken)

/-- The exponent behind the letter of a number, and the rest of the text. -/
def exponentPart (text : List Char) : Option (Int × List Char) := do
  let (negative, text) := match text with
    | '+' :: rest => (false, rest)
    | '-' :: rest => (true, rest)
    | _ => (false, text)
  let (digits, rest) := spanDigits text
  if digits.isEmpty then none
  let value := digits.foldl (fun value digit => value * 10 + digit) (0 : Nat)
  return (if negative then -(value : Int) else value, rest)

/-- A number with a point or an exponent, or with more digits than fit in 64 bits. Digits that do
not fit count only for the exponent if they stand before the point, and not at all behind it. -/
def realPart (strict negative : Bool) (whole : List Nat) (text : List Char) :
    Option (Number × List Char) := do
  let (head, taken) := significandFrom 0 0 whole
  let dropped := whole.length - taken
  let (significand, place, text) ← match text with
    | '.' :: rest => do
      let (digits, rest) := spanDigits rest
      if digits.isEmpty then none
      let (value, used) := significandFrom head 0 digits
      pure (value, (dropped : Int) - used, rest)
    | _ => pure (head, (dropped : Int), text)
  let (exponent, text) ← match text with
    | 'e' :: rest => exponentPart rest
    | 'E' :: rest => exponentPart rest
    | _ => pure (0, text)
  let value ←
    if significand = 0 then pure (signed negative 0.0)
    else realOf? strict negative significand (place + exponent)
  return (value, text)

/-- A number after its sign. Zero may not begin a longer row of digits. -/
def number (strict negative : Bool) (text : List Char) : Option (Number × List Char) := do
  let (digits, rest) := spanDigits text
  match digits with
  | [] => none
  | 0 :: _ :: _ => none
  | _ =>
    let isReal : Bool := match rest with
      | c :: _ => c = '.' || c = 'e' || c = 'E'
      | [] => false
    let value := digits.foldl (fun value digit => value * 10 + digit) 0
    if isReal ∨ wordLimit ≤ value then
      realPart strict negative digits rest
    else if !negative then
      return (.natural value, rest)
    else if value = 0 ∨ capacityLimit < value then
      return (signed true (Double.ofNat value), rest)
    else
      return (.negative value, rest)

/-! ## Strings -/

/-- The number that four hexadecimal digits stand for. -/
def fourDigits : List Char → Option (Nat × List Char)
  | a :: b :: c :: d :: rest => do
    let value ← Text.digitsFrom? 16 0 [a, b, c, d]
    return (value, rest)
  | _ => none

/-- The character behind a backslash. One outside the basic plane is written as a pair of halves;
the lax reader lets a half stand alone. -/
def escape (strict : Bool) : List Char → Option (Char × List Char)
  | '"' :: rest => some ('"', rest)
  | '\\' :: rest => some ('\\', rest)
  | '/' :: rest => some ('/', rest)
  | 'b' :: rest => some ('\x08', rest)
  | 'f' :: rest => some ('\x0c', rest)
  | 'n' :: rest => some ('\n', rest)
  | 'r' :: rest => some ('\r', rest)
  | 't' :: rest => some ('\t', rest)
  | 'u' :: rest => do
    let (unit, rest) ← fourDigits rest
    if unit < 0xD800 ∨ 0xDFFF < unit then
      return (Char.ofNat unit, rest)
    else if !strict then
      return (Char.ofNat 0xFFFD, rest)
    else if 0xDC00 ≤ unit then
      none
    else
      let rest ← expect ['\\', 'u'] rest
      let (second, rest) ← fourDigits rest
      if 0xDC00 ≤ second ∧ second ≤ 0xDFFF then
        return (Char.ofNat (0x10000 + (unit - 0xD800) * 0x400 + (second - 0xDC00)), rest)
      else
        none
  | _ => none

/-- The characters of a string up to its closing quote, behind `read`, which is in reverse. -/
def stringFrom (strict : Bool) (read : List Char) : Nat → List Char → Option (String × List Char)
  | 0, _ => none
  | _, [] => none
  | fuel + 1, c :: rest =>
    if c = '"' then
      some (String.ofList read.reverse, rest)
    else if c = '\\' then do
      let (c, rest) ← escape strict rest
      stringFrom strict (c :: read) fuel rest
    else if c.toNat < 32 then
      none
    else
      stringFrom strict (c :: read) fuel rest

/-! ## Values -/

mutual

/-- A value. `depth` arrays or objects may still be opened; each step of the three readers uses up
one unit of `fuel`. -/
def value (strict : Bool) (fuel depth : Nat) (text : List Char) : Option (Value × List Char) :=
  match fuel with
  | 0 => none
  | fuel + 1 =>
    match skipBlanks text with
    | 'n' :: rest => do return (.null, ← expect ['u', 'l', 'l'] rest)
    | 't' :: rest => do return (.bool true, ← expect ['r', 'u', 'e'] rest)
    | 'f' :: rest => do return (.bool false, ← expect ['a', 'l', 's', 'e'] rest)
    | '"' :: rest => do
      let (text, rest) ← stringFrom strict [] fuel rest
      return (.string text, rest)
    | '[' :: rest =>
      if depth = 0 then none
      else do
        let (items, rest) ← items strict fuel (depth - 1) true rest
        return (.array items, rest)
    | '\x7b' :: rest =>
      if depth = 0 then none
      else do
        let (members, rest) ← members strict fuel (depth - 1) true rest
        return (.object members, rest)
    | '-' :: rest => do
      let (value, rest) ← number strict true rest
      return (.number value, rest)
    | text => do
      let (value, rest) ← number strict false text
      return (.number value, rest)

/-- The items of an array up to its closing bracket. -/
def items (strict : Bool) (fuel depth : Nat) (first : Bool) (text : List Char) :
    Option (List Value × List Char) :=
  match fuel with
  | 0 => none
  | fuel + 1 =>
    match skipBlanks text with
    | ']' :: rest => some ([], rest)
    | text => do
      let text ← if first then some text else expect [','] text
      let (item, rest) ← value strict fuel depth text
      let (others, rest) ← items strict fuel depth false rest
      return (item :: others, rest)

/-- The members of an object up to its closing brace. -/
def members (strict : Bool) (fuel depth : Nat) (first : Bool) (text : List Char) :
    Option (List (String × Value) × List Char) :=
  match fuel with
  | 0 => none
  | fuel + 1 =>
    match skipBlanks text with
    | '\x7d' :: rest => some ([], rest)
    | text => do
      let text ← if first then some text else expect [','] text
      let rest ← expect ['"'] (skipBlanks text)
      let (key, rest) ← stringFrom strict [] fuel rest
      let rest ← expect [':'] (skipBlanks rest)
      let (held, rest) ← value strict fuel depth rest
      let (others, rest) ← members strict fuel depth false rest
      return ((key, held) :: others, rest)

end

/-- Fuel for any value that a text can hold: each step reads a character or is followed by one that
does. -/
def fuelFor (text : List Char) : Nat := 3 * text.length + 3

/-- The number of arrays and objects that may be open at a time. -/
def maxDepth : Nat := 127

/-- Members of which those with an unknown key are read by the lax reader and left out. -/
def knownMembers (known : String → Bool) :
    Nat → Bool → List Char → Option (List (String × Value) × List Char)
  | 0, _, _ => none
  | fuel + 1, first, text =>
    match skipBlanks text with
    | '\x7d' :: rest => some ([], rest)
    | text => do
      let text ← if first then some text else expect [','] text
      let rest ← expect ['"'] (skipBlanks text)
      let (key, rest) ← stringFrom true [] fuel rest
      let rest ← expect [':'] (skipBlanks rest)
      if known key then
        let (held, rest) ← value true (fuelFor rest) (maxDepth - 1) rest
        let (others, rest) ← knownMembers known fuel false rest
        return ((key, held) :: others, rest)
      else
        let (_, rest) ← value false (fuelFor rest) rest.length rest
        knownMembers known fuel false rest

/-- Nothing but blanks may follow a document. -/
def finish {α : Type} : Option (α × List Char) → Option α
  | some (answer, rest) => if (skipBlanks rest).isEmpty then some answer else none
  | none => none

end Reader

/-- The value that a text is the JSON of. -/
def Value.ofText? (text : String) : Option Value :=
  let text := text.toList
  Reader.finish (Reader.value true (Reader.fuelFor text) Reader.maxDepth text)

/-- The two forms in which the fields of a record can be written. -/
inductive Fields where
  /-- An object with a member per field. -/
  | named (members : List (String × Value))
  /-- An array of the fields in their order. -/
  | positional (items : List Value)

/-- The fields of a record that a text is the JSON of. Only the members that are known matter. -/
def Fields.ofText? (known : String → Bool) (text : String) : Option Fields :=
  match Reader.skipBlanks text.toList with
  | '\x7b' :: rest =>
    (Reader.finish (Reader.knownMembers known (Reader.fuelFor rest) true rest)).map named
  | _ => match Value.ofText? text with
    | some (.array items) => some (positional items)
    | _ => none

namespace Value

/-- A whole number that fits in 64 bits. -/
def natural? : Value → Option Nat
  | number (.natural value) => some value
  | _ => none

/-- A text. -/
def string? : Value → Option String
  | string value => some value
  | _ => none

/-- The items of an array. -/
def items? : Value → Option (List Value)
  | array items => some items
  | _ => none

end Value

/-- The value of the member with a key, which may occur only once: nothing if it is written twice,
and `some none` if it is not written at all. -/
def member? (key : String) (members : List (String × Value)) : Option (Option Value) :=
  match members.filter fun member => member.1 == key with
  | [] => some none
  | [(_, value)] => some (some value)
  | _ => none

end BoundaryHeap.Json
