import BoundaryHeap.Proofs.Words
import BoundaryHeap.Trace.Reader
import Mathlib.Data.List.DropRight

/-!
What the reader of traces makes of the characters of a text. The lines of a text are its pieces
between line breaks, the words of a line its pieces between blanks, and a word is a number if it
consists of digits, with a plus sign in front of them or not, and fits in 64 bits.
-/

namespace BoundaryHeap

namespace Text

/-! ## Words -/

/-- The words of a text are those of its pieces between blanks that are not empty. -/
theorem wordsFrom_eq {current text : List Char} : wordsFrom current text =
    ((text.splitOnP isBlank).modifyHead (current.reverse ++ ·)).filter (! ·.isEmpty) := by
  induction text generalizing current with
  | nil => cases current <;> simp [wordsFrom]
  | cons c rest ih =>
    obtain ⟨piece, pieces, split⟩ := List.exists_cons_of_ne_nil (List.splitOnP_ne_nil isBlank rest)
    rw [wordsFrom, List.splitOnP_cons_eq_if_modifyHead]
    split
    next blank => cases current <;> simp [ih, split]
    next => simp [ih, split]

theorem words_eq {text : List Char} :
    words text = (text.splitOnP isBlank).filter (! ·.isEmpty) := by
  obtain ⟨piece, pieces, split⟩ := List.exists_cons_of_ne_nil (List.splitOnP_ne_nil isBlank text)
  simp [words, wordsFrom_eq, split]

theorem words_dropWhile {text : List Char} : words (text.dropWhile isBlank) = words text := by
  induction text with
  | nil => rfl
  | cons c rest ih =>
    cases blank : isBlank c with
    | true => simpa [blank, words, wordsFrom] using ih
    | false => simp [blank]

theorem wordsFrom_eq_nil_iff {current text : List Char} :
    wordsFrom current text = [] ↔ current = [] ∧ ∀ c ∈ text, isBlank c := by
  induction text generalizing current with
  | nil => cases current <;> simp [wordsFrom]
  | cons c rest ih =>
    rw [wordsFrom, List.forall_mem_cons]
    cases blank : isBlank c <;> cases current <;> simp [ih]

theorem wordsFrom_append_blanks {current text blanks : List Char}
    (blank : ∀ c ∈ blanks, isBlank c) :
    wordsFrom current (text ++ blanks) = wordsFrom current text := by
  induction text generalizing current with
  | nil =>
    cases blanks with
    | nil => rfl
    | cons c rest =>
      obtain ⟨here, blank⟩ := List.forall_mem_cons.mp blank
      have nothing : wordsFrom [] rest = [] := wordsFrom_eq_nil_iff.mpr ⟨rfl, blank⟩
      simp [wordsFrom, here, nothing]
  | cons c rest ih => simp only [List.cons_append, wordsFrom, ih]

/-- Trimming a text leaves its words. -/
theorem words_trim {text : List Char} : words (trim text) = words text := by
  have blank : ∀ c ∈ (text.dropWhile isBlank).rtakeWhile isBlank, isBlank c :=
    fun c member => List.mem_rtakeWhile_imp member
  calc
    words (trim text) = words ((text.dropWhile isBlank).rdropWhile isBlank) := rfl
    _ = words ((text.dropWhile isBlank).rdropWhile isBlank ++
          (text.dropWhile isBlank).rtakeWhile isBlank) := (wordsFrom_append_blanks blank).symm
    _ = words (text.dropWhile isBlank) := by rw [List.rdropWhile_append_rtakeWhile]
    _ = words text := words_dropWhile

/-- Nothing is left of a text by trimming exactly if it has no word. -/
theorem trim_eq_nil_iff {text : List Char} : trim text = [] ↔ words text = [] := by
  have trimmed : trim text = [] ↔ ∀ c ∈ text.dropWhile isBlank, isBlank c :=
    List.rdropWhile_eq_nil_iff
  rw [trimmed, ← words_dropWhile, words, wordsFrom_eq_nil_iff]
  simp

/-! ## Numbers -/

/-- A row of decimal digits that stands for a number of 64 bits. -/
structure Digits (digits : List Char) (number : Nat) : Prop where
  some : digits ≠ []
  decimal : ∀ c ∈ digits, c.isDigit
  value : Nat.ofDigitChars 10 digits 0 = number
  fits : number < wordLimit

/-- A word that stands for a number: its digits, with a plus sign in front of them or not. -/
inductive Numeral : List Char → Nat → Prop
  | plain {word : List Char} {number : Nat} (digits : Digits word number) : Numeral word number
  | signed {word : List Char} {number : Nat} (digits : Digits word number) :
    Numeral ('+' :: word) number

theorem Digits.not_signed {word : List Char} {number : Nat} : ¬ Digits ('+' :: word) number :=
  fun digits => absurd (digits.decimal '+' List.mem_cons_self) (by decide)

theorem digitValue?_eq_some_iff {c : Char} {digit : Nat} :
    digitValue? 10 c = some digit ↔ c.isDigit ∧ c.toNat - '0'.toNat = digit := by
  have zero : '0'.toNat = 48 := rfl
  have nine : '9'.toNat = 57 := rfl
  have code : c.val.toNat = c.toNat := rfl
  rw [Char.isDigit_iff_toNat, zero, nine, digitValue?, code]
  split
  · rw [if_pos (by omega), Option.some_inj]
    omega
  · have high : ¬ (if 97 ≤ c.toNat ∧ c.toNat ≤ 102 then c.toNat - 87
        else if 65 ≤ c.toNat ∧ c.toNat ≤ 70 then c.toNat - 55 else 10) < 10 := by
      split_ifs <;> omega
    rw [if_neg high]
    simp only [reduceCtorEq, false_iff]
    omega

theorem digitsFrom?_eq_some_iff {value number : Nat} {digits : List Char} :
    digitsFrom? 10 value digits = some number ↔
      (∀ c ∈ digits, c.isDigit) ∧ Nat.ofDigitChars 10 digits value = number := by
  induction digits generalizing value with
  | nil => simp only [digitsFrom?, Nat.ofDigitChars_nil, Option.some_inj, List.not_mem_nil,
      false_implies, implies_true, true_and]
  | cons c rest ih =>
    simp only [digitsFrom?, Option.bind_eq_bind, Option.bind_eq_some_iff, List.forall_mem_cons,
      digitValue?_eq_some_iff, Nat.ofDigitChars_cons, ih, and_assoc, exists_and_left,
      exists_eq_left', Nat.mul_comm value]

/-- The words that are read as numbers are those that stand for them. -/
theorem decimal?_eq_some_iff {word : List Char} {number : Nat} :
    decimal? word = some number ↔ Numeral word number := by
  have read {digits : List Char} : (do
      if digits.isEmpty then none
      let value ← digitsFrom? 10 0 digits
      if value < wordLimit then some value else none) = some number ↔ Digits digits number := by
    simp only [List.isEmpty_iff, Option.bind_eq_bind, Option.bind_none,
      Option.ite_none_left_eq_some, Option.bind_eq_some_iff, Option.ite_none_right_eq_some,
      Option.some.injEq, digitsFrom?_eq_some_iff]
    constructor
    · rintro ⟨some, value, ⟨decimal, same⟩, fits, rfl⟩
      exact ⟨some, decimal, same, fits⟩
    · rintro ⟨some, decimal, same, fits⟩
      exact ⟨some, number, ⟨decimal, same⟩, fits, rfl⟩
  unfold decimal? unsigned?
  split
  next rest =>
    refine read.trans ⟨Numeral.signed, fun numeral => ?_⟩
    cases numeral with
    | plain digits => exact absurd digits Digits.not_signed
    | signed digits => exact digits
  next unsigned =>
    refine read.trans ⟨Numeral.plain, fun numeral => ?_⟩
    cases numeral with
    | plain digits => exact digits
    | signed digits => exact absurd rfl (unsigned _)

end Text

namespace Trace

open Text (isBlank trim)

/-! ## Lines -/

/-- The content of a line: what is left of it without its comment and the blanks around it. -/
def content (line : List Char) : List Char := trim (line.takeWhile (· ≠ '#'))

/-- The lines of a text that have a content, with their numbers and the pieces of the content
between blanks. -/
def contentOf (text : List Char) : List ContentLine :=
  ((text.splitOn '\n').zipIdx 1).filterMap fun (line, number) =>
    if content line = [] then none
    else some ⟨number, ((content line).splitOnP isBlank).filter (! ·.isEmpty)⟩

theorem linesFrom_eq {current text : List Char} :
    linesFrom current text = (text.splitOn '\n').modifyHead (current.reverse ++ ·) := by
  induction text generalizing current with
  | nil => simp [linesFrom, List.splitOn]
  | cons c rest ih =>
    obtain ⟨piece, pieces, split⟩ :=
      List.exists_cons_of_ne_nil (List.splitOnP_ne_nil (· == '\n') rest)
    rw [List.splitOn] at ih ⊢
    rw [linesFrom, List.splitOnP_cons_eq_if_modifyHead]
    by_cases ends : c = '\n' <;> simp [ends, ih, split]

theorem contentFrom_eq {number : Nat} {lines : List (List Char)} :
    contentFrom number lines = (lines.zipIdx number).filterMap fun (line, number) =>
      if content line = [] then none
      else some ⟨number, ((content line).splitOnP isBlank).filter (! ·.isEmpty)⟩ := by
  induction lines generalizing number with
  | nil => rfl
  | cons line rest ih =>
    have words : ((content line).splitOnP isBlank).filter (! ·.isEmpty) = lineWords line := by
      rw [← Text.words_eq, content, Text.words_trim, lineWords]
    have empty : content line = [] ↔ lineWords line = [] := Text.trim_eq_nil_iff
    rw [contentFrom, List.zipIdx_cons, List.filterMap_cons]
    by_cases none : lineWords line = [] <;> simp [none, empty, words, ih]

/-- The reader sees the content of a text. -/
theorem contentLines_eq {text : List Char} : contentLines text = contentOf text := by
  obtain ⟨line, lines, split⟩ :=
    List.exists_cons_of_ne_nil (List.splitOnP_ne_nil (· == '\n') text)
  rw [contentLines, linesFrom_eq, contentFrom_eq, contentOf, List.splitOn, split]
  rfl

/-- Every line of the content has words. -/
theorem words_ne_nil_of_mem {text : List Char} {line : ContentLine}
    (member : line ∈ contentOf text) : line.words ≠ [] := by
  obtain ⟨⟨piece, number⟩, -, kept⟩ := List.mem_filterMap.mp member
  dsimp only at kept
  split at kept
  next => cases kept
  next filled =>
    cases kept
    rw [← Text.words_eq]
    intro none
    rw [content, Text.words_trim] at none
    exact filled (Text.trim_eq_nil_iff.mpr none)

end Trace

end BoundaryHeap
