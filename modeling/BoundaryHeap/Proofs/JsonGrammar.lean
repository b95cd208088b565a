import BoundaryHeap.Proofs.JsonText
import Mathlib.Data.List.Forall2

/-!
The grammar of JSON texts without blanks, stated without a reader or a printer, and the compact text
of every value in it. A number that is not whole is bound to its form only, since the grammar of
numbers tells nothing about rounding.
-/

namespace BoundaryHeap.Json

/-! ## Texts between quotes -/

/-- The characters that have an escape of one letter, with that letter. -/
def shortEscapes : List (Char × Char) :=
  [('"', '"'), ('\\', '\\'), ('/', '/'), ('\x08', 'b'), ('\x0c', 'f'), ('\n', 'n'), ('\r', 'r'),
    ('\t', 't')]

/-- What may stand for a character between quotes. -/
inductive CharText : Char → List Char → Prop
  | plain {c : Char} (shown : 32 ≤ c.toNat) (quote : c ≠ '"') (backslash : c ≠ '\\') :
    CharText c [c]
  | short {c letter : Char} (known : (c, letter) ∈ shortEscapes) : CharText c ['\\', letter]
  | code {c : Char} {digits : List Char} (four : digits.length = 4)
    (value : Text.digitsFrom? 16 0 digits = some c.toNat) : CharText c ('\\' :: 'u' :: digits)

/-- What may stand for a text, the quotes around it included. -/
def Quoted (text : String) (written : List Char) : Prop :=
  ∃ pieces, List.Forall₂ CharText text.toList pieces ∧
    written = '"' :: (pieces.flatten ++ ['"'])

theorem charText_escapeChar (c : Char) : CharText c (escapeChar c) := by
  by_cases shown : 32 ≤ c.toNat
  · rw [escapeChar_of_shown shown]
    split
    next special =>
      rcases special with rfl | rfl
      · exact .short (by decide)
      · exact .short (by decide)
    next other =>
      obtain ⟨quote, backslash⟩ := not_or.mp other
      exact .plain shown quote backslash
  · have controls : ∀ code < 32,
        escapeChar (Char.ofNat code) = '\\' :: 'u' :: Text.padded 16 4 code ∧
          (Text.padded 16 4 code).length = 4 ∧
          Text.digitsFrom? 16 0 (Text.padded 16 4 code) = some code ∨
        ∃ known ∈ shortEscapes,
          known.1 = Char.ofNat code ∧ escapeChar (Char.ofNat code) = ['\\', known.2] := by decide
    have control := controls c.toNat (Nat.lt_of_not_le shown)
    rw [Char.ofNat_toNat] at control
    rcases control with ⟨same, four, value⟩ | ⟨⟨_, letter⟩, member, rfl, same⟩
    · rw [same]
      exact .code four value
    · rw [same]
      exact .short member

theorem quoted_quote (text : String) : Quoted text (quote text).toList := by
  refine ⟨text.toList.map escapeChar, ?_, by rw [toList_quote, List.flatMap]⟩
  rw [List.forall₂_map_right_iff]
  exact List.forall₂_same.mpr fun c _ => charText_escapeChar c

/-! ## Numbers -/

/-- A row of decimal digits, with at least one in it. -/
def Digits (text : List Char) : Prop := text ≠ [] ∧ ∀ c ∈ text, c.isDigit

/-- The digits of a whole number: a zero in front is the only one. -/
def Whole (text : List Char) : Prop := Digits text ∧ (text.head? = some '0' → text = ['0'])

/-- Decimal places behind their point. -/
def Places (text : List Char) : Prop := ∃ digits, Digits digits ∧ text = '.' :: digits

/-- An exponent behind its mark, with a sign or without. -/
def Exponent (text : List Char) : Prop :=
  ∃ mark sign digits, (mark = 'e' ∨ mark = 'E') ∧ (sign = [] ∨ sign = ['+'] ∨ sign = ['-']) ∧
    Digits digits ∧ text = mark :: (sign ++ digits)

/-- A number as it may be written. Only the whole number in it has to be there. -/
inductive Numeral : List Char → Prop
  | mk {sign whole places exponent : List Char} (signed : sign = [] ∨ sign = ['-'])
    (digits : Whole whole) (behind : places = [] ∨ Places places)
    (scaled : exponent = [] ∨ Exponent exponent) :
    Numeral (sign ++ (whole ++ (places ++ exponent)))

theorem digits_toDigits (number : Nat) : Digits (Nat.toDigits 10 number) :=
  ⟨Nat.toDigits_ne_nil, fun _ => Text.isDigit_of_mem_toDigits⟩

theorem isDigit_of_mem_replicate {count : Nat} {c : Char}
    (member : c ∈ List.replicate count '0') : c.isDigit := by
  rw [List.eq_of_mem_replicate member]
  rfl

/-- Only zero has a zero in front. -/
theorem head?_toDigits {number : Nat} (some : number ≠ 0) :
    (Nat.toDigits 10 number).head? ≠ .some '0' := by
  induction number using Nat.base_induction 10 (by decide) with
  | single digit small =>
    have shown : ∀ digit < 10, digit ≠ 0 → digit.digitChar ≠ '0' := by decide
    rw [Nat.toDigits_of_lt_base small]
    simpa using shown digit small some
  | digit front last small positive ih =>
    rw [← Nat.toDigits_append_toDigits (by decide) positive small,
      List.head?_append_of_ne_nil _ Nat.toDigits_ne_nil]
    exact ih (Nat.ne_of_gt positive)

theorem whole_of_head {text : List Char} (digits : Digits text) (front : text.head? ≠ some '0') :
    Whole text :=
  ⟨digits, fun zero => absurd zero front⟩

theorem whole_toDigits (number : Nat) : Whole (Nat.toDigits 10 number) := by
  by_cases zero : number = 0
  · rw [zero]
    exact ⟨digits_toDigits 0, fun _ => rfl⟩
  · exact whole_of_head (digits_toDigits number) (head?_toDigits zero)

theorem whole_zero : Whole ['0'] := whole_toDigits 0

/-- The text of a number: that of a whole number tells its value, and that of any other is a number
if it is finite. -/
def NumberText : Number → List Char → Prop
  | .natural value, text => Whole text ∧ Text.digitsFrom? 10 0 text = some value
  | .negative value, text =>
    ∃ digits, Whole digits ∧ Text.digitsFrom? 10 0 digits = some value ∧ text = '-' :: digits
  | .real value, text =>
    match value.shape with
    | .finite .. => Numeral text
    | _ => text = "null".toList

theorem exponent_exponentText (power : Int) : Exponent (exponentText power).toList := by
  cases power with
  | ofNat number =>
    have shown : (number : Int).repr.toList = Nat.toDigits 10 number := by
      simp [Int.repr, Nat.repr_eq_ofList_toDigits]
    exact ⟨'e', ['+'], _, .inl rfl, by simp, digits_toDigits number, by simp [exponentText, shown]⟩
  | negSucc number =>
    exact ⟨'e', ['-'], _, .inl rfl, by simp, digits_toDigits (number + 1),
      by simp [exponentText, Int.repr, Nat.repr_eq_ofList_toDigits]⟩

/-- A decimal is laid out as a number, whichever way it is. -/
theorem RealFormat.numeral_text (format : RealFormat) (decimal : Decimal.Scientific)
    {sign : List Char} (signed : sign = [] ∨ sign = ['-']) :
    Numeral (sign ++ (format.text decimal).toList) := by
  have positional {whole row : List Char} (digits : Whole whole) (behind : Digits row) :
      Numeral (sign ++ (whole ++ '.' :: row)) := by
    simpa using Numeral.mk signed digits (.inr ⟨row, behind, rfl⟩) (.inl rfl)
  have single : Digits ['0'] := whole_zero.1
  by_cases zero : decimal.digits = 0
  · simpa [text, zero] using positional whole_zero single
  have digits := digits_toDigits decimal.digits
  have front := head?_toDigits zero
  unfold text
  dsimp only
  rw [if_neg zero]
  generalize Nat.toDigits 10 decimal.digits = row at digits front
  -- one case for each way in which the digits are laid out
  split_ifs with whole cut small
  · have longer : Digits (row ++ List.replicate decimal.place.toNat '0') :=
      ⟨by simp [digits.1],
        List.forall_mem_append.mpr ⟨digits.2, fun _ => isDigit_of_mem_replicate⟩⟩
    have leads : Whole (row ++ List.replicate decimal.place.toNat '0') :=
      whole_of_head longer (by rwa [List.head?_append_of_ne_nil _ digits.1])
    simpa using positional leads single
  · have some : (row.length + decimal.place).toNat ≠ 0 := by omega
    have short : (row.length + decimal.place).toNat < row.length := by omega
    generalize (row.length + decimal.place).toNat = point at some short
    have before : Digits (row.take point) :=
      ⟨by simp [digits.1, some], fun c member => digits.2 c (List.mem_of_mem_take member)⟩
    have after : Digits (row.drop point) :=
      ⟨by simpa using short, fun c member => digits.2 c (List.mem_of_mem_drop member)⟩
    have leads : Whole (row.take point) :=
      whole_of_head before (by rwa [List.head?_take, if_neg some])
    simpa using positional leads after
  · have places : Digits (List.replicate (-(row.length + decimal.place)).toNat '0' ++ row) :=
      ⟨by simp [digits.1],
        List.forall_mem_append.mpr ⟨fun _ => isDigit_of_mem_replicate, digits.2⟩⟩
    simpa using positional whole_zero places
  · have scaled := exponent_exponentText (row.length + decimal.place - 1)
    generalize exponentText (row.length + decimal.place - 1) = exponent at scaled
    split
    next only =>
      have leads : Whole [only] := whole_of_head digits front
      simpa using Numeral.mk signed leads (.inl rfl) (.inr scaled)
    next first rest many =>
      have leads : Whole [first] :=
        whole_of_head ⟨by simp, by simpa using digits.2 first (by simp)⟩ (by simpa using front)
      have places : Places ('.' :: rest) :=
        ⟨rest, ⟨many, fun c member => digits.2 c (by simp [member])⟩, rfl⟩
      simpa using Numeral.mk signed leads (.inr places) (.inr scaled)
    next => exact absurd rfl digits.1

theorem Number.numberText_text (number : Number) : NumberText number number.text.toList := by
  cases number with
  | natural value =>
    have shown : (text (.natural value)).toList = Nat.toDigits 10 value := by
      simp [text, Nat.repr_eq_ofList_toDigits]
    rw [shown]
    exact ⟨whole_toDigits value, Text.digitsFrom?_toDigits value⟩
  | negative value =>
    exact ⟨Nat.toDigits 10 value, whole_toDigits value, Text.digitsFrom?_toDigits value,
      by simp [text, Nat.repr_eq_ofList_toDigits]⟩
  | real value =>
    rw [NumberText, text, realText]
    cases value.shape with
    | nan => rfl
    | infinite => rfl
    | finite negative mantissa exponent =>
      have sign : (if negative then "-" else "").toList = [] ∨
          (if negative then "-" else "").toList = ['-'] := by cases negative <;> simp
      simpa using realFormat.numeral_text (Decimal.shortest mantissa exponent) sign

/-! ## Values -/

/-- What may stand for a value, without blanks. -/
inductive Written : Value → List Char → Prop
  | null : Written .null "null".toList
  | bool (flag : Bool) : Written (.bool flag) (if flag then "true" else "false").toList
  | number {number : Number} {text : List Char} (digits : NumberText number text) :
    Written (.number number) text
  | string {content : String} {text : List Char} (quoted : Quoted content text) :
    Written (.string content) text
  | array {items : List Value} {texts : List (List Char)}
    (inside : List.Forall₂ Written items texts) :
    Written (.array items) ('[' :: ([','].intercalate texts ++ [']']))
  | object {members : List (String × Value)} {keys texts : List (List Char)}
    (named : List.Forall₂ Quoted (members.map Prod.fst) keys)
    (inside : List.Forall₂ Written (members.map Prod.snd) texts) :
    Written (.object members) ('\x7b' ::
      ([','].intercalate (List.zipWith (fun key text => key ++ ':' :: text) keys texts) ++
        ['\x7d']))

mutual

/-- The compact text of a value stands for it. -/
theorem Value.written_compact : (value : Value) → Written value value.compact.toList
  | .null => .null
  | .bool flag => .bool flag
  | .number number => .number number.numberText_text
  | .string text => .string (quoted_quote text)
  | .array items => by
    rw [toList_compact_array, ← intercalate_eq_row]
    exact .array (written_items items)
  | .object members => by
    have keys : List.Forall₂ Quoted (members.map Prod.fst)
        (members.map fun member => (quote member.1).toList) := by
      rw [List.forall₂_map_right_iff, List.forall₂_map_left_iff]
      exact List.forall₂_same.mpr fun member _ => quoted_quote member.1
    have texts : members.map memberText =
        List.zipWith (fun key text => key ++ ':' :: text)
          (members.map fun member => (quote member.1).toList)
          (members.map fun member => member.2.compact.toList) := by
      rw [List.zipWith_map, List.zipWith_self]
      rfl
    rw [toList_compact_object, ← intercalate_eq_row, texts]
    exact .object keys (written_members members)

theorem written_items : (items : List Value) →
    List.Forall₂ Written items (items.map (·.compact.toList))
  | [] => .nil
  | value :: rest => .cons value.written_compact (written_items rest)

theorem written_members : (members : List (String × Value)) →
    List.Forall₂ Written (members.map Prod.snd) (members.map fun member => member.2.compact.toList)
  | [] => .nil
  | (_, value) :: rest => .cons value.written_compact (written_members rest)

end

end BoundaryHeap.Json
