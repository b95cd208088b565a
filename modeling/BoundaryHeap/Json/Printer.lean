import BoundaryHeap.Decimal.Shortest
import BoundaryHeap.Json.Basic
import BoundaryHeap.Text.Padded

/-!
JSON text. The compact form has no blanks at all; the indented form has one line per item or member
and two blanks per level. Of the characters only quotes, backslashes and control characters are
escaped. A double is written with the fewest digits that read back.
-/

namespace BoundaryHeap.Json

/-- A character as it is written between quotes. -/
def escapeChar (c : Char) : List Char :=
  if c = '"' then ['\\', '"']
  else if c = '\\' then ['\\', '\\']
  else if c = '\n' then ['\\', 'n']
  else if c = '\r' then ['\\', 'r']
  else if c = '\t' then ['\\', 't']
  else if c = '\x08' then ['\\', 'b']
  else if c = '\x0c' then ['\\', 'f']
  else if c.toNat < 32 then
    ['\\', 'u'] ++ Text.padded 16 4 c.toNat
  else [c]

/-- A text between quotes. -/
def quote (text : String) : String :=
  String.ofList ('"' :: text.toList.flatMap escapeChar ++ ['"'])

/-- How the digits of a double are laid out. -/
structure RealFormat where
  /-- Numbers from `10 ^ this` on are written with an exponent. -/
  positionalBelow : Nat
  /-- Numbers below one with more zeros than this behind the point are written with an exponent. -/
  leadingZeros : Nat

/-- Doubles are positional below `10 ^ 16` and with up to four zeros behind the point. -/
def realFormat : RealFormat := ⟨16, 4⟩

/-- An exponent with its sign, also if it is positive. -/
def exponentText (exponent : Int) : String :=
  if 0 ≤ exponent then "e+" ++ toString exponent else "e" ++ toString exponent

/-- The digits of a decimal, laid out. -/
def RealFormat.text (format : RealFormat) (decimal : Decimal.Scientific) : String :=
  let digits := Nat.toDigits 10 decimal.digits
  let point : Int := digits.length + decimal.place
  if decimal.digits = 0 then "0.0"
  else if 0 ≤ decimal.place ∧ point ≤ format.positionalBelow then
    String.ofList (digits ++ List.replicate decimal.place.toNat '0') ++ ".0"
  else if 0 < point ∧ point ≤ format.positionalBelow then
    String.ofList (digits.take point.toNat ++ '.' :: digits.drop point.toNat)
  else if -(format.leadingZeros : Int) ≤ point ∧ point ≤ 0 then
    "0." ++ String.ofList (List.replicate (-point).toNat '0' ++ digits)
  else
    match digits with
    | [single] => String.ofList [single] ++ exponentText (point - 1)
    | first :: rest => String.ofList (first :: '.' :: rest) ++ exponentText (point - 1)
    | [] => ""

/-- A double as a JSON number; what is not finite has no number and is written as null. -/
def realText (x : Double) : String :=
  match x.shape with
  | .finite negative mantissa exponent =>
    (if negative then "-" else "") ++ realFormat.text (Decimal.shortest mantissa exponent)
  | _ => "null"

/-- A number as it is written. -/
def Number.text : Number → String
  | natural value => toString value
  | negative value => "-" ++ toString value
  | real value => realText value

mutual

/-- The compact text of a value. -/
def Value.compact : Value → String
  | .null => "null"
  | .bool value => if value then "true" else "false"
  | .number value => value.text
  | .string value => quote value
  | .array items => "[" ++ String.intercalate "," (compactItems items) ++ "]"
  | .object members => "\x7b" ++ String.intercalate "," (compactMembers members) ++ "\x7d"

/-- The compact text of every value of a list. -/
def compactItems : List Value → List String
  | [] => []
  | value :: rest => value.compact :: compactItems rest

/-- The compact text of every member of a list. -/
def compactMembers : List (String × Value) → List String
  | [] => []
  | (key, value) :: rest => (quote key ++ ":" ++ value.compact) :: compactMembers rest

end

/-- A line break and the blanks of a level. -/
def lineBreak (level : Nat) : String := String.ofList ('\n' :: List.replicate (2 * level) ' ')

/-- Lines between brackets, one level deeper than the brackets. -/
def bracketed (left right : String) (level : Nat) (lines : List String) : String :=
  if lines.isEmpty then left ++ right
  else
    left ++ lineBreak (level + 1) ++
      String.intercalate ("," ++ lineBreak (level + 1)) lines ++ lineBreak level ++ right

mutual

/-- The indented text of a value inside a text of some level. -/
def Value.indented (level : Nat) : Value → String
  | .array items => bracketed "[" "]" level (indentedItems (level + 1) items)
  | .object members => bracketed "\x7b" "\x7d" level (indentedMembers (level + 1) members)
  | value => value.compact

/-- The indented text of every value of a list. -/
def indentedItems (level : Nat) : List Value → List String
  | [] => []
  | value :: rest => value.indented level :: indentedItems level rest

/-- The indented text of every member of a list. -/
def indentedMembers (level : Nat) : List (String × Value) → List String
  | [] => []
  | (key, value) :: rest =>
    (quote key ++ ": " ++ value.indented level) :: indentedMembers level rest

end

/-- The indented text of a value. -/
def Value.pretty (value : Value) : String := value.indented 0

end BoundaryHeap.Json
