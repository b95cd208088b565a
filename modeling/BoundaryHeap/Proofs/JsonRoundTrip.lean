import BoundaryHeap.Json.Reader
import BoundaryHeap.Proofs.JsonText
import Mathlib.Data.List.Induction

/-!
JSON text read back. The reader takes each piece of a compact text for what it was printed from:
rows of digits, texts between quotes, and rows of items and members, from which whole values are put
together. What stands behind a piece may be anything that can end it.
-/

namespace BoundaryHeap.Json

/-- A value that its compact text holds exactly. Its numbers are whole and fit in 64 bits, its
objects hold their members in the order of their keys, and it has at most `depth` arrays and objects
inside one another. -/
inductive Value.Exact : Nat → Value → Prop
  | null {depth : Nat} : Exact depth .null
  | bool {depth : Nat} (flag : Bool) : Exact depth (.bool flag)
  | natural {depth number : Nat} (fits : number < wordLimit) : Exact depth (.natural number)
  | negative {depth number : Nat} (some : 0 < number) (fits : number ≤ capacityLimit) :
    Exact depth (.number (.negative number))
  | string {depth : Nat} (text : String) : Exact depth (.string text)
  | array {depth : Nat} {items : List Value} (inside : ∀ value ∈ items, Exact depth value) :
    Exact (depth + 1) (.array items)
  | object {depth : Nat} {members : List (String × Value)}
    (sorted : members.Pairwise fun earlier later => earlier.1 < later.1)
    (inside : ∀ member ∈ members, Exact depth member.2) : Exact (depth + 1) (.object members)

namespace Reader

variable {depth fuel : Nat} {first : Bool} {rest : List Char}

/-- What may stand behind a value: nothing, or what ends it. -/
def Ends (rest : List Char) : Prop := ∀ c ∈ rest.head?, c = ',' ∨ c = ']' ∨ c = '\x7d'

@[simp] theorem ends_cons {c : Char} : Ends (c :: rest) ↔ c = ',' ∨ c = ']' ∨ c = '\x7d' := by
  simp [Ends]

theorem ends_row {texts : List (List Char)} {c : Char} (closing : c = ']' ∨ c = '\x7d') :
    Ends (row false texts ++ c :: rest) := by
  cases texts with
  | nil => simpa [row] using .inr closing
  | cons text texts => simp [row]

/-! ## Numbers -/

/-- The digits of a row that stands for a number make up this number. -/
theorem filterMap_of_digitsFrom? {value number : Nat} {digits : List Char}
    (known : Text.digitsFrom? 10 value digits = some number) :
    (∀ c ∈ digits, (digit? c).isSome) ∧
      (digits.filterMap digit?).foldl (fun value digit => value * 10 + digit) value = number := by
  induction digits generalizing value with
  | nil => simpa [Text.digitsFrom?] using known
  | cons c digits ih =>
    obtain ⟨digit, here, known⟩ := Option.bind_eq_some_iff.mp known
    have here : digit? c = some digit := here
    obtain ⟨decimal, same⟩ := ih known
    refine ⟨List.forall_mem_cons.mpr ⟨Option.isSome_of_eq_some here, decimal⟩, ?_⟩
    simpa [here] using same

/-- The digits of a number begin with a zero only if there is no other. -/
theorem filterMap_toDigits (number : Nat) :
    ∃ leading others, (Nat.toDigits 10 number).filterMap digit? = leading :: others ∧
      (leading = 0 → others = []) := by
  induction number using Nat.base_induction 10 (by decide) with
  | single digit small =>
    refine ⟨digit, [], ?_, fun _ => rfl⟩
    simp [Nat.toDigits_of_lt_base small, digit?, Text.digitValue?_digitChar digit small]
  | digit front last small some ih =>
    obtain ⟨leading, others, same, single⟩ := ih
    refine ⟨leading, others ++ [last], ?_, fun zero => ?_⟩
    · rw [← Nat.toDigits_append_toDigits (by decide) some small, List.filterMap_append, same,
        Nat.toDigits_of_lt_base small]
      simp [digit?, Text.digitValue?_digitChar last small]
    · have value := (filterMap_of_digitsFrom? (Text.digitsFrom?_toDigits front)).2
      rw [same, zero, single zero] at value
      exact absurd value (Nat.ne_of_lt some)

theorem spanDigits_toDigits {number : Nat} (ends : Ends rest) :
    spanDigits (Nat.toDigits 10 number ++ rest) =
      ((Nat.toDigits 10 number).filterMap digit?, rest) := by
  have digits := (filterMap_of_digitsFrom? (Text.digitsFrom?_toDigits number)).1
  have stop : rest.takeWhile (fun c => (digit? c).isSome) = [] ∧
      rest.dropWhile (fun c => (digit? c).isSome) = rest := by
    cases rest with
    | nil => exact ⟨rfl, rfl⟩
    | cons c rest => rcases ends_cons.mp ends with rfl | rfl | rfl <;> exact ⟨rfl, rfl⟩
  rw [spanDigits, List.takeWhile_append_of_pos digits, List.dropWhile_append_of_pos digits,
    stop.1, stop.2, List.append_nil]

/-- A row of digits without a point or an exponent is read as a whole number. Only zero with a sign
and what is below the range of signed numbers are not. -/
theorem number_toDigits {number : Nat} (negative : Bool) (fits : number < wordLimit)
    (ends : Ends rest) :
    Reader.number true negative (Nat.toDigits 10 number ++ rest) =
      some (if !negative then .natural number
        else if number = 0 ∨ capacityLimit < number then signed true (Double.ofNat number)
        else .negative number, rest) := by
  obtain ⟨leading, others, same, single⟩ := filterMap_toDigits number
  have value := (filterMap_of_digitsFrom? (Text.digitsFrom?_toDigits number)).2
  rw [same] at value
  unfold Reader.number
  rw [spanDigits_toDigits ends, same]
  dsimp only
  split
  next none => cases none
  next zero =>
    cases zero
    cases single rfl
  next =>
    have ended : rest = [] ∨
        ∃ c later, rest = c :: later ∧ (c = ',' ∨ c = ']' ∨ c = '\x7d') := by
      cases rest with
      | nil => exact .inl rfl
      | cons c later => exact .inr ⟨c, later, rfl, ends_cons.mp ends⟩
    rw [value]
    rcases ended with rfl | ⟨c, later, rfl, rfl | rfl | rfl⟩ <;>
      simp only [Nat.not_le.mpr fits, Bool.false_eq_true, or_false, if_false, Char.reduceEq,
        decide_false, Bool.or_self] <;>
      split_ifs <;> rfl

/-! ## Texts between quotes -/

theorem fourDigits_append {front : List Char} (four : front.length = 4) :
    fourDigits (front ++ rest) = (Text.digitsFrom? 16 0 front).map (·, rest) := by
  match front with
  | [a, b, c, d] =>
    simp only [fourDigits, List.cons_append, List.nil_append]
    cases Text.digitsFrom? 16 0 [a, b, c, d] <;> rfl

/-- A control character is read back from its four digits. -/
theorem escape_control {c : Char} (control : c.toNat < 32) :
    escape true ('u' :: (Text.padded 16 4 c.toNat ++ rest)) = some (c, rest) := by
  have digits : ∀ code < 32, (Text.padded 16 4 code).length = 4 ∧
      Text.digitsFrom? 16 0 (Text.padded 16 4 code) = some code := by decide
  obtain ⟨four, value⟩ := digits c.toNat control
  have plane : c.toNat < 0xD800 ∨ 0xDFFF < c.toNat := by omega
  simp [escape, fourDigits_append four, value, plane, Char.ofNat_toNat]

theorem stringFrom_escapeChar (c : Char) {read : List Char} :
    stringFrom true read (fuel + 1) (escapeChar c ++ rest) =
      stringFrom true (c :: read) fuel rest := by
  by_cases shown : 32 ≤ c.toNat
  · rw [escapeChar_of_shown shown]
    split
    next special => rcases special with rfl | rfl <;> simp [stringFrom, escape]
    next plain =>
      rw [not_or] at plain
      simp [stringFrom, plain, Nat.not_lt.mpr shown]
  · have control := Nat.lt_of_not_le shown
    unfold escapeChar
    split_ifs
    case neg => simp [stringFrom, escape_control control]
    all_goals
      subst c
      simp [stringFrom, escape]

/-- A printed text is read back up to its closing quote. -/
theorem stringFrom_escaped {text read : List Char} (enough : text.length < fuel) :
    stringFrom true read fuel (text.flatMap escapeChar ++ '"' :: rest) =
      some (String.ofList (read.reverse ++ text), rest) := by
  induction text generalizing read fuel with
  | nil =>
    obtain ⟨fuel, rfl⟩ := Nat.exists_eq_succ_of_ne_zero (Nat.ne_of_gt enough)
    simp [stringFrom]
  | cons c text ih =>
    obtain ⟨fuel, rfl⟩ := Nat.exists_eq_succ_of_ne_zero (Nat.ne_zero_of_lt enough)
    rw [List.flatMap_cons, List.append_assoc, stringFrom_escapeChar,
      ih (Nat.lt_of_succ_lt_succ enough)]
    simp

/-- Nothing is lost by escaping, so the printed text is no shorter. -/
theorem length_le_escaped (text : List Char) : text.length ≤ (text.flatMap escapeChar).length := by
  induction text with
  | nil => exact Nat.le_refl 0
  | cons c text ih =>
    have some : 0 < (escapeChar c).length := by
      unfold escapeChar
      split_ifs <;> simp
    rw [List.flatMap_cons, List.length_append, List.length_cons]
    omega

/-! ## Rows of items and members -/

theorem skipBlanks_cons {c : Char} (solid : isBlank c = false) :
    skipBlanks (c :: rest) = c :: rest := by
  simp [skipBlanks, solid]

theorem skipBlanks_comma : skipBlanks (',' :: rest) = ',' :: rest := skipBlanks_cons (by decide)

theorem skipBlanks_colon : skipBlanks (':' :: rest) = ':' :: rest := skipBlanks_cons (by decide)

theorem skipBlanks_quote : skipBlanks ('"' :: rest) = '"' :: rest := skipBlanks_cons (by decide)

theorem expect_cons (c : Char) : expect [c] (c :: rest) = some rest := by simp [expect]

/-- A text that begins like a value: neither with a blank nor with the end of an array. -/
def Opens (text : List Char) : Prop :=
  ∃ c rest, text = c :: rest ∧ isBlank c = false ∧ c ≠ ']'

/-- The compact text of a value is read for this value, with all that it holds. -/
def Reads (depth : Nat) (value : Value) : Prop :=
  ∀ fuel rest, 2 * value.compact.toList.length ≤ fuel → Ends rest →
    Reader.value true fuel depth (value.compact.toList ++ rest) = some (value, rest)

/-- A value whose text stands in a row is read up to what follows it there. -/
theorem Reads.in_row {value : Value} (reads : Reads depth value) (texts : List (List Char))
    {c : Char} (closing : c = ']' ∨ c = '\x7d') (rest : List Char)
    (enough : 2 * value.compact.toList.length ≤ fuel) :
    Reader.value true fuel depth (value.compact.toList ++ (row false texts ++ c :: rest)) =
      some (value, row false texts ++ c :: rest) :=
  reads fuel _ enough (ends_row closing)

/-- No value is read without fuel, which its text calls for. -/
theorem reads_of_opens {value : Value} (opens : Opens value.compact.toList)
    (reads : ∀ fuel rest, 2 * value.compact.toList.length ≤ fuel + 1 → Ends rest →
      Reader.value true (fuel + 1) depth (value.compact.toList ++ rest) = some (value, rest)) :
    Reads depth value := by
  intro fuel rest enough ends
  obtain ⟨c, text, starts, -⟩ := opens
  have some : fuel ≠ 0 := by
    rw [starts, List.length_cons] at enough
    omega
  obtain ⟨fuel, rfl⟩ := Nat.exists_eq_succ_of_ne_zero some
  exact reads fuel rest enough ends

theorem items_row {items : List Value} (opens : ∀ value ∈ items, Opens value.compact.toList)
    (reads : ∀ value ∈ items, Reads depth value)
    (enough : 2 * (row first (items.map (·.compact.toList))).length + 1 < fuel) :
    Reader.items true fuel depth first
      (row first (items.map (·.compact.toList)) ++ ']' :: rest) = some (items, rest) := by
  induction items generalizing first fuel with
  | nil =>
    obtain ⟨fuel, rfl⟩ := Nat.exists_eq_succ_of_ne_zero (Nat.ne_zero_of_lt enough)
    rfl
  | cons value items ih =>
    obtain ⟨fuel, rfl⟩ := Nat.exists_eq_succ_of_ne_zero (Nat.ne_zero_of_lt enough)
    obtain ⟨⟨c, text, starts, solid, other⟩, opens⟩ := List.forall_mem_cons.mp opens
    obtain ⟨here, reads⟩ := List.forall_mem_cons.mp reads
    have shown : 0 < value.compact.toList.length := by simp [starts]
    rw [List.map_cons, length_row_cons] at enough
    have item : Reader.value true fuel depth (value.compact.toList ++
        (row false (items.map (·.compact.toList)) ++ ']' :: rest)) =
          some (value, row false (items.map (·.compact.toList)) ++ ']' :: rest) :=
      here.in_row _ (.inl rfl) rest (by omega)
    have others : Reader.items true fuel depth false
        (row false (items.map (·.compact.toList)) ++ ']' :: rest) = some (items, rest) :=
      ih opens reads (by omega)
    cases first with
    | false => simp [row, Reader.items, skipBlanks_comma, expect_cons, item, others]
    | true =>
      rw [starts, List.cons_append] at item
      simp [row, starts, Reader.items, skipBlanks_cons solid, other, item, others]

section Members

variable {member : String × Value} {members : List (String × Value)}

theorem memberText_append : memberText member ++ rest =
    '"' :: (member.1.toList.flatMap escapeChar ++
      '"' :: ':' :: (member.2.compact.toList ++ rest)) := by
  simp [memberText, toList_quote]

theorem length_memberText (member : String × Value) : (memberText member).length =
    (member.1.toList.flatMap escapeChar).length + member.2.compact.toList.length + 3 := by
  simp [memberText, toList_quote]
  omega

/-- The key of a member is read back from its text. -/
theorem stringFrom_key (enough : (memberText member).length ≤ fuel) :
    stringFrom true [] fuel (member.1.toList.flatMap escapeChar ++ '"' :: rest) =
      some (member.1, rest) := by
  have shorter := length_le_escaped member.1.toList
  rw [length_memberText] at enough
  have read : stringFrom true [] fuel (member.1.toList.flatMap escapeChar ++ '"' :: rest) =
      some (String.ofList member.1.toList, rest) := stringFrom_escaped (by omega)
  rw [read, String.ofList_toList]

theorem members_row (reads : ∀ member ∈ members, Reads depth member.2)
    (enough : 2 * (row first (members.map memberText)).length + 1 < fuel) :
    Reader.members true fuel depth first (row first (members.map memberText) ++ '\x7d' :: rest) =
      some (members, rest) := by
  induction members generalizing first fuel with
  | nil =>
    obtain ⟨fuel, rfl⟩ := Nat.exists_eq_succ_of_ne_zero (Nat.ne_zero_of_lt enough)
    rfl
  | cons member members ih =>
    obtain ⟨fuel, rfl⟩ := Nat.exists_eq_succ_of_ne_zero (Nat.ne_zero_of_lt enough)
    obtain ⟨here, reads⟩ := List.forall_mem_cons.mp reads
    have length := length_memberText member
    rw [List.map_cons, length_row_cons] at enough
    have key : ∀ rest, stringFrom true [] fuel (member.1.toList.flatMap escapeChar ++
        '"' :: rest) = some (member.1, rest) := fun _ => stringFrom_key (by omega)
    have held : Reader.value true fuel depth (member.2.compact.toList ++
        (row false (members.map memberText) ++ '\x7d' :: rest)) =
          some (member.2, row false (members.map memberText) ++ '\x7d' :: rest) :=
      here.in_row _ (.inr rfl) rest (by omega)
    have others : Reader.members true fuel depth false
        (row false (members.map memberText) ++ '\x7d' :: rest) = some (members, rest) :=
      ih reads (by omega)
    cases first <;>
      simp [row, memberText_append, Reader.members, skipBlanks_comma, skipBlanks_quote,
        skipBlanks_colon, expect_cons, key, held, others]

/-- The members of a record are read back as well when the reader asks for each key whether it is
known. -/
theorem knownMembers_row {known : String → Bool} (keys : ∀ member ∈ members, known member.1)
    (reads : ∀ member ∈ members, Reads (maxDepth - 1) member.2)
    (enough : 2 * (row first (members.map memberText)).length + 1 < fuel) :
    knownMembers known fuel first (row first (members.map memberText) ++ '\x7d' :: rest) =
      some (members, rest) := by
  induction members generalizing first fuel with
  | nil =>
    obtain ⟨fuel, rfl⟩ := Nat.exists_eq_succ_of_ne_zero (Nat.ne_zero_of_lt enough)
    rfl
  | cons member members ih =>
    obtain ⟨fuel, rfl⟩ := Nat.exists_eq_succ_of_ne_zero (Nat.ne_zero_of_lt enough)
    obtain ⟨recognized, keys⟩ := List.forall_mem_cons.mp keys
    obtain ⟨here, reads⟩ := List.forall_mem_cons.mp reads
    have length := length_memberText member
    rw [List.map_cons, length_row_cons] at enough
    have ample : 2 * member.2.compact.toList.length ≤ fuelFor (member.2.compact.toList ++
        (row false (members.map memberText) ++ '\x7d' :: rest)) := by
      rw [fuelFor, List.length_append]
      omega
    have held := here.in_row (members.map memberText) (.inr rfl) rest ample
    have key : ∀ rest, stringFrom true [] fuel (member.1.toList.flatMap escapeChar ++
        '"' :: rest) = some (member.1, rest) := fun _ => stringFrom_key (by omega)
    have others : knownMembers known fuel false
        (row false (members.map memberText) ++ '\x7d' :: rest) = some (members, rest) :=
      ih keys reads (by omega)
    cases first <;>
      simp [row, memberText_append, knownMembers, skipBlanks_comma, skipBlanks_quote,
        skipBlanks_colon, expect_cons, key, recognized, held, others]

end Members

/-! ## Values -/

theorem toDigits_eq_cons (number : Nat) :
    ∃ c rest, Nat.toDigits 10 number = c :: rest ∧ c.isDigit := by
  obtain ⟨c, rest, same⟩ :=
    List.exists_cons_of_ne_nil (Nat.toDigits_ne_nil (n := number) (b := 10))
  exact ⟨c, rest, same, Text.isDigit_of_mem_toDigits (same ▸ List.mem_cons_self)⟩

theorem opens_of_digit {c : Char} (digit : c.isDigit) (rest : List Char) : Opens (c :: rest) := by
  have other : ∀ special : Char, special.isDigit = false → c ≠ special := by
    rintro special none rfl
    rw [none] at digit
    cases digit
  have blank := other ' ' (by decide)
  have line := other '\n' (by decide)
  have tab := other '\t' (by decide)
  have back := other '\r' (by decide)
  refine ⟨c, rest, rfl, ?_, other ']' (by decide)⟩
  simp [isBlank, blank, line, tab, back]

theorem opens_of_exact {value : Value} (exact : value.Exact depth) :
    Opens value.compact.toList := by
  cases exact with
  | null => exact ⟨_, _, rfl, by decide, by decide⟩
  | bool flag => cases flag <;> exact ⟨_, _, rfl, by decide, by decide⟩
  | @natural _ number =>
    obtain ⟨c, rest, starts, digit⟩ := toDigits_eq_cons number
    rw [toList_compact_natural, starts]
    exact opens_of_digit digit rest
  | negative => exact ⟨_, _, toList_compact_negative _, by decide, by decide⟩
  | string text => exact ⟨_, _, toList_quote text, by decide, by decide⟩
  | array => exact ⟨_, _, toList_compact_array _, by decide, by decide⟩
  | object => exact ⟨_, _, toList_compact_object _, by decide, by decide⟩

/-- What begins with a digit is read as a number. -/
theorem value_of_digit {c : Char} {text : List Char} (digit : c.isDigit) :
    Reader.value true (fuel + 1) depth (c :: text) =
      (number true false (c :: text)).map fun read => (.number read.1, read.2) := by
  obtain ⟨_, _, same, solid, -⟩ := opens_of_digit digit text
  cases same
  rw [Reader.value, skipBlanks_cons solid]
  split
  case h_8 => cases number true false (c :: text) <;> rfl
  all_goals
    rename_i same
    obtain ⟨rfl, -⟩ := List.cons.inj same
    exact absurd digit (by decide)

/-- A value is read back from its compact text, whatever stands behind the text that can end it. -/
theorem reads_of_exact {value : Value} (exact : value.Exact depth) : Reads depth value := by
  refine reads_of_opens (opens_of_exact exact) ?_
  induction exact with
  | null => exact fun _ _ _ _ => rfl
  | bool flag => cases flag <;> exact fun _ _ _ _ => rfl
  | @natural depth number fits =>
    intro fuel rest _ ends
    obtain ⟨c, text, starts, digit⟩ := toDigits_eq_cons number
    have read := number_toDigits false fits ends
    rw [starts, List.cons_append] at read
    rw [toList_compact_natural, starts, List.cons_append, value_of_digit digit, read]
    rfl
  | @negative depth number some fits =>
    intro fuel rest _ ends
    have small : number < wordLimit := Nat.lt_of_le_of_lt fits (by decide)
    have usual : ¬ (number = 0 ∨ capacityLimit < number) := by omega
    rw [toList_compact_negative, List.cons_append, Reader.value, skipBlanks_cons (by decide)]
    simp [number_toDigits true small ends, usual]
  | string text =>
    intro fuel rest enough _
    have shorter := length_le_escaped text.toList
    rw [Value.compact, toList_quote] at enough ⊢
    rw [List.length_cons, List.length_append] at enough
    have read : stringFrom true [] fuel (text.toList.flatMap escapeChar ++ '"' :: rest) =
        some (String.ofList text.toList, rest) := stringFrom_escaped (by omega)
    rw [String.ofList_toList] at read
    simp [Reader.value, skipBlanks_quote, read]
  | @array depth items inside reads =>
    intro fuel rest enough _
    have opens := fun value member => opens_of_exact (inside value member)
    rw [toList_compact_array, List.length_cons, List.length_append,
      List.length_singleton] at enough
    have read : Reader.items true fuel depth true
        (row true (items.map (·.compact.toList)) ++ ']' :: rest) = some (items, rest) :=
      items_row opens
        (fun value member => reads_of_opens (opens value member) (reads value member)) (by omega)
    rw [toList_compact_array, List.cons_append, Reader.value, skipBlanks_cons (by decide)]
    simp [read]
  | @object depth members sorted inside reads =>
    intro fuel rest enough _
    have opens := fun member listed => opens_of_exact (inside member listed)
    rw [toList_compact_object, List.length_cons, List.length_append,
      List.length_singleton] at enough
    have read : Reader.members true fuel depth true
        (row true (members.map memberText) ++ '\x7d' :: rest) = some (members, rest) :=
      members_row
        (fun member listed => reads_of_opens (opens member listed) (reads member listed)) (by omega)
    rw [toList_compact_object, List.cons_append, Reader.value, skipBlanks_cons (by decide)]
    simp [read]

end Reader

/-! ## The order of members -/

theorem insertMember_of_last {key : String} {value : Value} {members : List (String × Value)}
    (last : ∀ member ∈ members, member.1 < key) :
    Value.insertMember key value members = members ++ [(key, value)] := by
  induction members with
  | nil => rfl
  | cons member members ih =>
    obtain ⟨here, last⟩ := List.forall_mem_cons.mp last
    simp [Value.insertMember, String.lt_asymm here, (String.ne_of_lt here).symm, ih last]

/-- Members that are in order stay as they are when they are sorted. -/
theorem sortMembers_of_sorted {members : List (String × Value)}
    (sorted : members.Pairwise fun earlier later => earlier.1 < later.1) :
    Value.sortMembers members = members := by
  induction members using List.reverseRecOn with
  | nil => rfl
  | append_singleton front member ih =>
    obtain ⟨ordered, -, last⟩ := List.pairwise_append.mp sorted
    rw [Value.sortMembers, List.foldl_append, ← Value.sortMembers, ih ordered]
    exact insertMember_of_last fun earlier listed => last earlier listed member List.mem_cons_self

/-- A value that its text holds exactly is in the canonical order. -/
theorem Value.Exact.normalize_eq {depth : Nat} {value : Value} (exact : value.Exact depth) :
    value.normalize = value := by
  induction exact with
  | null => rfl
  | bool => rfl
  | natural => rfl
  | negative => rfl
  | string => rfl
  | @array _ items inside same =>
    have items_eq : normalizeItems items = items := by
      clear inside
      induction items with
      | nil => rfl
      | cons value items ih =>
        obtain ⟨here, same⟩ := List.forall_mem_cons.mp same
        rw [normalizeItems, here, ih same]
    rw [normalize, items_eq]
  | @object _ members sorted inside same =>
    have members_eq : normalizeMembers members = members := by
      clear sorted inside
      induction members with
      | nil => rfl
      | cons member members ih =>
        obtain ⟨here, same⟩ := List.forall_mem_cons.mp same
        rw [normalizeMembers, here, ih same]
    rw [normalize, members_eq, ofMembers, sortMembers_of_sorted sorted]

/-! ## Documents -/

/-- The fields of a record are read back from an object with a member for each of them. -/
theorem Fields.ofText?_compact {known : String → Bool} {members : List (String × Value)}
    (keys : ∀ member ∈ members, known member.1)
    (exact : ∀ member ∈ members, member.2.Exact (Reader.maxDepth - 1)) :
    Fields.ofText? known (Value.object members).compact = some (.named members) := by
  have enough : 2 * (row true (members.map memberText)).length + 1 <
      Reader.fuelFor (row true (members.map memberText) ++ ['\x7d']) := by
    rw [Reader.fuelFor, List.length_append]
    omega
  have read : Reader.knownMembers known
      (Reader.fuelFor (row true (members.map memberText) ++ ['\x7d'])) true
      (row true (members.map memberText) ++ ['\x7d']) = some (members, []) :=
    Reader.knownMembers_row keys (fun member listed => Reader.reads_of_exact (exact member listed))
      enough
  rw [Fields.ofText?, toList_compact_object, Reader.skipBlanks_cons (by decide)]
  simp [read, Reader.finish, Reader.skipBlanks]

end BoundaryHeap.Json
