import BoundaryHeap.Json.Printer
import BoundaryHeap.Proofs.Words

/-!
What a compact JSON text is made of. A list of items or members is a row of texts, each but the
first one behind a comma. Control characters are escaped wherever they come from, so the text of a
value stays on one line.
-/

namespace BoundaryHeap.Json

/-! ## The form of a text -/

/-- A row of texts, each behind a comma unless it is the first one. -/
def row (first : Bool) : List (List Char) → List Char
  | [] => []
  | text :: texts => (if first then text else ',' :: text) ++ row false texts

theorem length_row_cons (first : Bool) (text : List Char) (texts : List (List Char)) :
    (row first (text :: texts)).length =
      (row false texts).length + text.length + (if first then 0 else 1) := by
  cases first <;> simp only [row, List.length_append] <;> simp <;> omega

theorem intercalate_eq_row (texts : List (List Char)) :
    [','].intercalate texts = row true texts := by
  match texts with
  | [] => rfl
  | [text] => simp [row]
  | text :: next :: texts =>
    rw [List.intercalate_cons_cons, intercalate_eq_row (next :: texts)]
    simp [row]

/-- The text of a member of an object. -/
def memberText (member : String × Value) : List Char :=
  (quote member.1).toList ++ ':' :: member.2.compact.toList

theorem compactItems_eq (items : List Value) : compactItems items = items.map Value.compact := by
  induction items with
  | nil => rfl
  | cons value rest ih => rw [compactItems, ih, List.map_cons]

theorem compactMembers_eq (members : List (String × Value)) :
    (compactMembers members).map String.toList = members.map memberText := by
  induction members with
  | nil => rfl
  | cons member rest ih => simp [compactMembers, ih, memberText]

theorem toList_quote (text : String) :
    (quote text).toList = '"' :: (text.toList.flatMap escapeChar ++ ['"']) := by
  simp [quote]

theorem toList_compact_natural (number : Nat) :
    (Value.natural number).compact.toList = Nat.toDigits 10 number := by
  simp [Value.natural, Value.compact, Number.text, Nat.repr_eq_ofList_toDigits]

theorem toList_compact_negative (number : Nat) :
    (Value.number (.negative number)).compact.toList = '-' :: Nat.toDigits 10 number := by
  simp [Value.compact, Number.text, Nat.repr_eq_ofList_toDigits]

theorem toList_compact_array (items : List Value) :
    (Value.array items).compact.toList =
      '[' :: (row true (items.map (·.compact.toList)) ++ [']']) := by
  simp [Value.compact, compactItems_eq, ← intercalate_eq_row, Function.comp_def]

theorem toList_compact_object (members : List (String × Value)) :
    (Value.object members).compact.toList =
      '\x7b' :: (row true (members.map memberText) ++ ['\x7d']) := by
  simp [Value.compact, compactMembers_eq, ← intercalate_eq_row]

/-! ## Its characters -/

/-- A text without control characters, which no line break divides. -/
def Unbroken (text : List Char) : Prop := ∀ c ∈ text, 32 ≤ c.toNat

@[simp] theorem unbroken_nil : Unbroken [] := fun _ member => absurd member List.not_mem_nil

@[simp] theorem unbroken_cons {c : Char} {text : List Char} :
    Unbroken (c :: text) ↔ 32 ≤ c.toNat ∧ Unbroken text := List.forall_mem_cons

@[simp] theorem unbroken_append {front behind : List Char} :
    Unbroken (front ++ behind) ↔ Unbroken front ∧ Unbroken behind := List.forall_mem_append

theorem Unbroken.newline_notMem {text : List Char} (unbroken : Unbroken text) : '\n' ∉ text :=
  fun member => absurd (unbroken '\n' member) (by decide)

theorem unbroken_toDigits (number : Nat) : Unbroken (Nat.toDigits 10 number) := by
  intro c member
  have digit := Char.isDigit_iff_toNat.mp (Text.isDigit_of_mem_toDigits member)
  have zero : '0'.toNat = 48 := rfl
  omega

/-- Of the characters that are no control characters only two are escaped. -/
theorem escapeChar_of_shown {c : Char} (shown : 32 ≤ c.toNat) :
    escapeChar c = if c = '"' ∨ c = '\\' then ['\\', c] else [c] := by
  have other : ∀ control : Char, control.toNat < 32 → c ≠ control := by
    rintro control low rfl
    omega
  have line := other '\n' (by decide)
  have back := other '\r' (by decide)
  have tab := other '\t' (by decide)
  have backspace := other '\x08' (by decide)
  have feed := other '\x0c' (by decide)
  by_cases quote : c = '"'
  · simp [escapeChar, quote]
  · by_cases backslash : c = '\\' <;>
      simp [escapeChar, quote, backslash, line, back, tab, backspace, feed, Nat.not_lt.mpr shown]

theorem unbroken_escapeChar (c : Char) : Unbroken (escapeChar c) := by
  by_cases shown : 32 ≤ c.toNat
  · rw [escapeChar_of_shown shown]
    split <;> simp [shown]
  · have controls : ∀ code < 32, (escapeChar (Char.ofNat code)).all (32 ≤ ·.toNat) := by decide
    have control := controls c.toNat (Nat.lt_of_not_le shown)
    rw [Char.ofNat_toNat, List.all_eq_true] at control
    exact fun d member => of_decide_eq_true (control d member)

theorem unbroken_quote (text : String) : Unbroken (quote text).toList := by
  have inside : Unbroken (text.toList.flatMap escapeChar) := by
    intro d member
    obtain ⟨c, -, escaped⟩ := List.mem_flatMap.mp member
    exact unbroken_escapeChar c d escaped
  simp [toList_quote, inside]

theorem unbroken_repr (value : Int) : Unbroken value.repr.toList := by
  have digits (number : Nat) : Unbroken number.repr.toList := by
    simpa [Nat.repr_eq_ofList_toDigits] using unbroken_toDigits number
  cases value with
  | ofNat number => exact digits number
  | negSucc number => simpa [Int.repr] using digits (number + 1)

theorem unbroken_exponentText (exponent : Int) : Unbroken (exponentText exponent).toList := by
  unfold exponentText
  split <;> simp [unbroken_repr]

theorem RealFormat.unbroken_text (format : RealFormat) (decimal : Decimal.Scientific) :
    Unbroken (format.text decimal).toList := by
  have digits := unbroken_toDigits decimal.digits
  have zeros (count : Nat) : Unbroken (List.replicate count '0') := by
    intro c member
    rw [List.eq_of_mem_replicate member]
    decide
  unfold RealFormat.text
  dsimp only
  generalize Nat.toDigits 10 decimal.digits = row at digits
  have front (count : Nat) : Unbroken (row.take count) :=
    fun c member => digits c (List.mem_of_mem_take member)
  have behind (count : Nat) : Unbroken (row.drop count) :=
    fun c member => digits c (List.mem_of_mem_drop member)
  split_ifs
  · simp
  · simp [digits, zeros]
  · simp [front, behind]
  · simp [digits, zeros]
  · split
    next single => simpa [unbroken_exponentText] using digits
    next first rest => simpa [unbroken_exponentText] using digits
    next => simp

theorem Number.unbroken_text (number : Number) : Unbroken number.text.toList := by
  cases number with
  | natural value => simpa [text, Nat.repr_eq_ofList_toDigits] using unbroken_toDigits value
  | negative value => simpa [text, Nat.repr_eq_ofList_toDigits] using unbroken_toDigits value
  | real value =>
    rw [text, realText]
    cases value.shape with
    | nan => simp
    | infinite => simp
    | finite negative mantissa exponent => cases negative <;> simp [realFormat.unbroken_text]

theorem unbroken_row {first : Bool} {texts : List (List Char)}
    (unbroken : ∀ text ∈ texts, Unbroken text) : Unbroken (row first texts) := by
  induction texts generalizing first with
  | nil => simp [row]
  | cons text texts ih =>
    obtain ⟨here, later⟩ := List.forall_mem_cons.mp unbroken
    cases first <;> simp [row, here, ih later]

mutual

/-- The text of a value has no control character in it, whatever the value is made of. -/
theorem Value.unbroken_compact : (value : Value) → Unbroken value.compact.toList
  | .null => by simp [Value.compact]
  | .bool flag => by cases flag <;> simp [Value.compact]
  | .number number => number.unbroken_text
  | .string text => unbroken_quote text
  | .array items => by simp [toList_compact_array, unbroken_row (unbroken_items items)]
  | .object members => by simp [toList_compact_object, unbroken_row (unbroken_members members)]

theorem unbroken_items : (items : List Value) →
    ∀ text ∈ items.map (·.compact.toList), Unbroken text
  | [] => by simp
  | value :: rest => List.forall_mem_cons.mpr ⟨value.unbroken_compact, unbroken_items rest⟩

theorem unbroken_members : (members : List (String × Value)) →
    ∀ text ∈ members.map memberText, Unbroken text
  | [] => by simp
  | (key, value) :: rest => by
    have here : Unbroken (memberText (key, value)) := by
      simp [memberText, unbroken_quote, value.unbroken_compact]
    exact List.forall_mem_cons.mpr ⟨here, unbroken_members rest⟩

end

end BoundaryHeap.Json
