import BoundaryHeap.Text.Number
import Mathlib.Data.List.Basic

/-!
Numbers and words read back. The digits of a number stand for it, if it fits in 64 bits; and words
that are written one after the other, with a blank between any two, are the words of the text.
-/

namespace BoundaryHeap.Text

/-! ## Numbers -/

theorem digitValue?_digitChar :
    ∀ digit < 10, digitValue? 10 (Nat.digitChar digit) = some digit := by
  decide

theorem digitsFrom?_append {base value : Nat} {front behind : List Char} :
    digitsFrom? base value (front ++ behind) =
      (digitsFrom? base value front).bind fun found => digitsFrom? base found behind := by
  induction front generalizing value with
  | nil => rfl
  | cons c rest ih =>
    simp only [List.cons_append, digitsFrom?, Option.bind_eq_bind]
    cases digitValue? base c with
    | none => rfl
    | some digit => exact ih

/-- The digits of a number stand for it. -/
theorem digitsFrom?_toDigits (number : Nat) :
    digitsFrom? 10 0 (Nat.toDigits 10 number) = some number := by
  induction number using Nat.base_induction 10 (by decide) with
  | single digit small =>
    simp [Nat.toDigits_of_lt_base small, digitsFrom?, digitValue?_digitChar digit small]
  | digit front last small some ih =>
    rw [← Nat.toDigits_append_toDigits (by decide) some small, digitsFrom?_append, ih,
      Nat.toDigits_of_lt_base small]
    simp [digitsFrom?, digitValue?_digitChar last small, Nat.mul_comm]

theorem isDigit_of_mem_toDigits {number : Nat} {c : Char} (member : c ∈ Nat.toDigits 10 number) :
    c.isDigit :=
  Nat.isDigit_of_mem_toDigits (by decide) (by decide) member

/-- A printed number is read back exactly if it fits in 64 bits. -/
theorem decimal?_toDigits (number : Nat) :
    decimal? (Nat.toDigits 10 number) = if number < wordLimit then some number else none := by
  have unsigned : ∀ rest, Nat.toDigits 10 number = '+' :: rest → False := by
    intro rest same
    have digit : Char.isDigit '+' := isDigit_of_mem_toDigits (same ▸ List.mem_cons_self)
    exact absurd digit (by decide)
  rw [decimal?, unsigned?]
  · simp [digitsFrom?_toDigits]
  · exact unsigned

/-- A number read from text fits in 64 bits. -/
theorem lt_of_decimal? {word : List Char} {number : Nat} (known : decimal? word = some number) :
    number < wordLimit := by
  unfold decimal? unsigned? at known
  simp only [List.isEmpty_iff, Option.bind_eq_bind, Option.bind_none, Option.ite_none_left_eq_some,
    Option.bind_eq_some_iff, Option.ite_none_right_eq_some, Option.some.injEq,
    exists_eq_right_right] at known
  exact known.2.2

/-! ## Words -/

/-- A word, of which something is left when comments are cut off and blanks go. -/
structure Plain (word : List Char) : Prop where
  some : word ≠ []
  solid : ∀ c ∈ word, isBlank c = false
  shown : '#' ∉ word

theorem not_isBlank_of_isDigit {c : Char} (digit : c.isDigit) : isBlank c = false := by
  simp only [Char.isDigit, Bool.and_eq_true, decide_eq_true_eq, ge_iff_le,
    UInt32.le_iff_toNat_le] at digit
  have low : (48 : Nat) ≤ c.val.toNat := digit.1
  have high : c.val.toNat ≤ (57 : Nat) := digit.2
  simp only [isBlank, Bool.or_eq_false_iff, Bool.and_eq_false_iff, decide_eq_false_iff_not,
    beq_eq_false_iff_ne]
  omega

theorem plain_toDigits (number : Nat) : Plain (Nat.toDigits 10 number) where
  some := Nat.toDigits_ne_nil
  solid _ member := not_isBlank_of_isDigit (isDigit_of_mem_toDigits member)
  shown member := absurd (isDigit_of_mem_toDigits member) (by decide)

theorem wordsFrom_append {current word rest : List Char} (solid : ∀ c ∈ word, isBlank c = false) :
    wordsFrom current (word ++ rest) = wordsFrom (word.reverse ++ current) rest := by
  induction word generalizing current with
  | nil => rfl
  | cons c word ih =>
    obtain ⟨here, solid⟩ := List.forall_mem_cons.mp solid
    simp [wordsFrom, here, ih solid]

theorem words_singleton {word : List Char} (plain : Plain word) : words word = [word] := by
  have walked := @wordsFrom_append [] word [] plain.solid
  simpa [words, wordsFrom, plain.some] using walked

theorem words_append_blank {word rest : List Char} (plain : Plain word) :
    words (word ++ ' ' :: rest) = word :: words rest := by
  have blank : isBlank ' ' := by decide
  rw [words, wordsFrom_append plain.solid]
  simp [wordsFrom, blank, plain.some, words]

/-- The words of a line that is put together from words are these. -/
theorem words_intercalate {line : List (List Char)} (plain : ∀ word ∈ line, Plain word) :
    words ([' '].intercalate line) = line := by
  match line with
  | [] => rfl
  | [word] => simpa using words_singleton (plain word (by simp))
  | word :: next :: rest =>
    obtain ⟨here, plain⟩ := List.forall_mem_cons.mp plain
    have joined : [' '].intercalate (word :: next :: rest) =
        word ++ ' ' :: [' '].intercalate (next :: rest) := by simp
    rw [joined, words_append_blank here, words_intercalate plain]

end BoundaryHeap.Text
