import BoundaryHeap.Proofs.Action
import BoundaryHeap.Proofs.TraceLines
import Mathlib.Data.List.Forall2

/-!
The grammar of traces. `Denotes` says which lines describe a trace, and `Refused` for what lines
that describe none are refused, which is the first fault there is in them. Both are stated without
the reader. It follows them, and since lines either describe a trace or are refused for something,
it accepts no more than the grammar does and refuses lines for no other reason.
-/

namespace BoundaryHeap

namespace Trace

open Text (Numeral)

/-- How many operands the letter of an operation takes. -/
def operandCount? : Char → Option Nat
  | 'a' => some 2
  | 'r' => some 2
  | 'f' => some 1
  | _ => none

/-- The words of a line describe an operation on one of `idCount` blocks. -/
inductive Describes (idCount : Nat) : List (List Char) → TraceOp → Prop
  | alloc {word word' : List Char} {id size : Nat} (named : Numeral word id) (known : id < idCount)
    (sized : Numeral word' size) : Describes idCount [['a'], word, word'] (.alloc id size)
  | realloc {word word' : List Char} {id size : Nat} (named : Numeral word id)
    (known : id < idCount) (sized : Numeral word' size) :
    Describes idCount [['r'], word, word'] (.realloc id size)
  | free {word : List Char} {id : Nat} (named : Numeral word id) (known : id < idCount) :
    Describes idCount [['f'], word] (.free id)

/-- What a line describes no operation for: its letter comes first, then the number of its operands,
then the block, and the size last. -/
inductive Offends (idCount : Nat) (line : ContentLine) : TraceError → Prop
  | unknownOp {word : List Char} {operands : List (List Char)}
    (words : line.words = word :: operands)
    (unknown : ∀ letter count, operandCount? letter = some count → word ≠ [letter]) :
    Offends idCount line (.unknownOp line.number (String.ofList word))
  | arity {letter : Char} {count : Nat} {operands : List (List Char)}
    (words : line.words = [letter] :: operands) (letters : operandCount? letter = some count)
    (other : operands.length ≠ count) :
    Offends idCount line (.arity line.number letter count operands.length)
  | badId {letter : Char} {word : List Char} {rest : List (List Char)}
    (words : line.words = [letter] :: word :: rest)
    (letters : operandCount? letter = some (rest.length + 1)) (bad : ∀ id, ¬ Numeral word id) :
    Offends idCount line (.badNumber line.number (String.ofList word))
  | idOutOfRange {letter : Char} {word : List Char} {rest : List (List Char)} {id : Nat}
    (words : line.words = [letter] :: word :: rest)
    (letters : operandCount? letter = some (rest.length + 1)) (named : Numeral word id)
    (beyond : idCount ≤ id) : Offends idCount line (.idOutOfRange line.number id idCount)
  | badSize {letter : Char} {word word' : List Char} {id : Nat}
    (words : line.words = [[letter], word, word']) (letters : operandCount? letter = some 2)
    (named : Numeral word id) (known : id < idCount) (bad : ∀ size, ¬ Numeral word' size) :
    Offends idCount line (.badNumber line.number (String.ofList word'))

/-- What a line of the header is at fault for, where `count` of the four numbers stand on the lines
before it: a word that stands for no number, or one behind the fourth number. -/
inductive HeaderOffends (count : Nat) (line : ContentLine) : TraceError → Prop
  | badNumber {front rest : List (List Char)} {word : List Char} {numbers : List Nat}
    (words : line.words = front ++ word :: rest) (read : List.Forall₂ Numeral front numbers)
    (few : count + numbers.length < 4) (bad : ∀ number, ¬ Numeral word number) :
    HeaderOffends count line (.badNumber line.number (String.ofList word))
  | fifth {front rest : List (List Char)} {word : List Char} {numbers : List Nat}
    (words : line.words = front ++ word :: rest) (read : List.Forall₂ Numeral front numbers)
    (full : count + numbers.length = 4) :
    HeaderOffends count line (.unknownOp line.number (String.ofList word))

/-- The words on some lines stand for numbers. -/
def Numbers (lines : List ContentLine) (numbers : List Nat) : Prop :=
  List.Forall₂ Numeral (lines.flatMap (·.words)) numbers

/-- Lines describe a trace: the words of the first ones are the four numbers of its header, and each
of the others describes one operation, as many as the header announces. -/
inductive Denotes (lines : List ContentLine) : Trace → Prop
  | intro {header body : List ContentLine} {suggested idCount weight : Nat} {ops : List TraceOp}
    (split : lines = header ++ body)
    (headed : Numbers header [suggested, idCount, body.length, weight])
    (described : List.Forall₂ (fun line op => Describes idCount line.words op) body ops) :
    Denotes lines ⟨suggested, idCount, weight, ops⟩

/-- What lines are refused for is the first fault in them. A header that is too short counts only if
nothing is wrong with the numbers there are, and a wrong number of operations only if nothing else
is wrong at all. -/
inductive Refused (lines : List ContentLine) : TraceError → Prop
  | header {earlier behind : List ContentLine} {line : ContentLine} {numbers : List Nat}
    {error : TraceError} (split : lines = earlier ++ line :: behind)
    (headed : Numbers earlier numbers) (short : numbers.length < 4)
    (offends : HeaderOffends numbers.length line error) : Refused lines error
  | missingHeader {numbers : List Nat} {field : String} (headed : Numbers lines numbers)
    (absent : headerFields[numbers.length]? = some field) : Refused lines (.missingHeader field)
  | operation {header earlier behind : List ContentLine} {line : ContentLine}
    {suggested idCount opCount weight : Nat} {ops : List TraceOp} {error : TraceError}
    (split : lines = header ++ (earlier ++ line :: behind))
    (headed : Numbers header [suggested, idCount, opCount, weight])
    (described : List.Forall₂ (fun line op => Describes idCount line.words op) earlier ops)
    (offends : Offends idCount line error) : Refused lines error
  | countMismatch {header body : List ContentLine} {suggested idCount opCount weight : Nat}
    {ops : List TraceOp} (split : lines = header ++ body)
    (headed : Numbers header [suggested, idCount, opCount, weight])
    (described : List.Forall₂ (fun line op => Describes idCount line.words op) body ops)
    (other : body.length ≠ opCount) : Refused lines (.countMismatch opCount body.length)

variable {lines header body front behind : List ContentLine} {line : ContentLine}
  {words rest : List (List Char)} {word : List Char} {read numbers more : List Nat}
  {number idCount : Nat} {op : TraceOp} {ops : List TraceOp} {error : TraceError}

/-! ## Words that are numbers -/

theorem readNumber_of_numeral (numeral : Numeral word number) (place : Nat) :
    readNumber place word = .ok number := by
  rw [readNumber, Text.decimal?_eq_some_iff.mpr numeral]

theorem readNumber_of_bad (bad : ∀ number, ¬ Numeral word number) (place : Nat) :
    readNumber place word = .error (.badNumber place (String.ofList word)) := by
  have none : Text.decimal? word = none :=
    Option.eq_none_iff_forall_ne_some.mpr fun number known =>
      bad number (Text.decimal?_eq_some_iff.mp known)
  rw [readNumber, none]

/-- The words of a line and of those behind it stand for numbers one after the other. -/
theorem Numbers.of_cons (all : Numbers (line :: lines) numbers) : ∃ front behind,
    numbers = front ++ behind ∧ List.Forall₂ Numeral line.words front ∧ Numbers lines behind := by
  rw [Numbers, List.flatMap_cons] at all
  refine ⟨numbers.take line.words.length, numbers.drop line.words.length,
    (List.take_append_drop ..).symm, ?_, ?_⟩
  · simpa using List.forall₂_take line.words.length all
  · simpa [Numbers] using List.forall₂_drop line.words.length all

/-! ## Reading the header -/

/-- Words that stand for numbers are read as far as the header has room. -/
theorem readHeaderLine_append (place : Nat) (rest : List (List Char))
    (numerals : List.Forall₂ Numeral words numbers) (room : read.length + numbers.length ≤ 4) :
    readHeaderLine place read (words ++ rest) = readHeaderLine place (read ++ numbers) rest := by
  induction numerals generalizing read with
  | nil => simp
  | @cons word number words numbers numeral _ ih =>
    rw [List.length_cons] at room
    have short : read.length ≠ 4 := by omega
    have further := @ih (read ++ [number]) (by rw [List.length_append]; simpa using (by omega))
    rw [List.cons_append, readHeaderLine, if_neg short,
      Fault.bind_of_ok (readNumber_of_numeral numeral place)]
    simpa using further

theorem readHeaderLine_bad (place : Nat) (short : read.length < 4)
    (bad : ∀ number, ¬ Numeral word number) :
    readHeaderLine place read (word :: rest) = .error (.badNumber place (String.ofList word)) := by
  rw [readHeaderLine, if_neg (Nat.ne_of_lt short), readNumber_of_bad bad]
  rfl

theorem readHeaderLine_fifth (place : Nat) (full : read.length = 4) :
    readHeaderLine place read (word :: rest) = .error (.unknownOp place (String.ofList word)) := by
  rw [readHeaderLine, if_pos full]
  rfl

theorem readHeaderLine_of_offends (offends : HeaderOffends read.length line error) :
    readHeaderLine line.number read line.words = .error error := by
  cases offends with
  | badNumber words numerals few bad =>
    rw [words, readHeaderLine_append _ _ numerals (Nat.le_of_lt few)]
    exact readHeaderLine_bad _ (by rwa [List.length_append]) bad
  | fifth words numerals full =>
    rw [words, readHeaderLine_append _ _ numerals (Nat.le_of_eq full)]
    exact readHeaderLine_fifth _ (by rwa [List.length_append])

theorem readHeader_of_full (full : read.length = 4) (body : List ContentLine) :
    readHeader read body = .ok (read, body) := by
  cases body with
  | nil => rfl
  | cons line rest => rw [readHeader, if_neg (by omega)]; rfl

/-- Lines of numbers are read as far as the header has room. -/
theorem readHeader_append (filled : ∀ line ∈ header, line.words ≠ [])
    (numerals : Numbers header numbers) (room : read.length + numbers.length ≤ 4)
    (body : List ContentLine) :
    readHeader read (header ++ body) = readHeader (read ++ numbers) body := by
  induction header generalizing read numbers with
  | nil =>
    cases numerals
    rw [List.nil_append, List.append_nil]
  | cons line header ih =>
    obtain ⟨here, filled⟩ := List.forall_mem_cons.mp filled
    obtain ⟨front, behind, rfl, first, later⟩ := numerals.of_cons
    rw [List.length_append] at room
    have some : 0 < front.length := first.length_eq ▸ List.length_pos_iff.mpr here
    have short : read.length < 4 := by omega
    have whole : readHeaderLine line.number read (line.words ++ []) = .ok (read ++ front) :=
      readHeaderLine_append line.number [] first (by omega)
    rw [List.append_nil] at whole
    rw [List.cons_append, readHeader, if_pos short, Fault.bind_of_ok whole,
      ih filled later (by rw [List.length_append]; omega), List.append_assoc]

/-- Lines of at most four numbers are read as part of the header. -/
theorem readHeader_numbers (filled : ∀ line ∈ header, line.words ≠ [])
    (headed : Numbers header numbers) (room : numbers.length ≤ 4) (body : List ContentLine) :
    readHeader [] (header ++ body) = readHeader numbers body := by
  have whole : readHeader [] (header ++ body) = readHeader ([] ++ numbers) body :=
    readHeader_append filled headed (by simpa using room) body
  rwa [List.nil_append] at whole

/-! ## Reading operations -/

theorem readId_of_numeral {id : Nat} (named : Numeral word id) (known : id < idCount)
    (place : Nat) : readId place idCount word = .ok id := by
  rw [readId, Fault.bind_of_ok (readNumber_of_numeral named place), if_pos known]
  rfl

theorem readOp_of_describes (describes : Describes idCount line.words op) :
    readOp idCount line = .ok op := by
  obtain ⟨place, words⟩ := line
  cases describes with
  | alloc named known sized =>
    simp only [readOp, Fault.bind_of_ok (readId_of_numeral named known place),
      readNumber_of_numeral sized]
    rfl
  | realloc named known sized =>
    simp only [readOp, Fault.bind_of_ok (readId_of_numeral named known place),
      readNumber_of_numeral sized]
    rfl
  | free named known => exact Fault.bind_of_ok (readId_of_numeral named known place)

theorem readOps_append (described : List.Forall₂ (fun line op => Describes idCount line.words op)
    front ops) (behind : List ContentLine) :
    readOps idCount (front ++ behind) = (readOps idCount behind).map (ops ++ ·) := by
  induction described with
  | nil =>
    rw [List.nil_append]
    cases readOps idCount behind <;> rfl
  | cons describes _ ih =>
    rw [List.cons_append, readOps, Fault.bind_of_ok (readOp_of_describes describes), ih]
    cases readOps idCount behind <;> rfl

theorem operandCount?_eq_some {letter : Char} {count : Nat}
    (known : operandCount? letter = some count) :
    (letter = 'a' ∨ letter = 'r') ∧ count = 2 ∨ letter = 'f' ∧ count = 1 := by
  unfold operandCount? at known
  split at known <;> simp_all

/-- A line with as many operands as its letter takes is read from the number of its block on. -/
theorem readOp_named {letter : Char} (letters : operandCount? letter = some (rest.length + 1))
    (place idCount : Nat) : ∃ next : Nat → Except TraceError TraceOp,
      readOp idCount ⟨place, [letter] :: word :: rest⟩ = readId place idCount word >>= next := by
  rcases operandCount?_eq_some letters with ⟨sized, count⟩ | ⟨rfl, count⟩
  · obtain ⟨size, rfl⟩ := List.length_eq_one_iff.mp (Nat.succ.inj count)
    rcases sized with rfl | rfl <;> exact ⟨_, rfl⟩
  · obtain rfl := List.length_eq_zero_iff.mp (Nat.succ.inj count)
    exact ⟨_, rfl⟩

theorem readOp_of_offends (offends : Offends idCount line error) :
    readOp idCount line = .error error := by
  obtain ⟨place, words⟩ := line
  cases offends with
  | unknownOp known unknown =>
    obtain rfl := known
    have a := unknown 'a' 2 rfl
    have r := unknown 'r' 2 rfl
    have f := unknown 'f' 1 rfl
    rw [readOp]
    split <;> simp_all
    rfl
  | arity known letters other =>
    obtain rfl := known
    rcases operandCount?_eq_some letters with ⟨rfl | rfl, rfl⟩ | ⟨rfl, rfl⟩
    all_goals
      rw [readOp]
      split <;> simp_all
      rfl
  | badId known letters bad =>
    obtain rfl := known
    obtain ⟨next, same⟩ := readOp_named letters place idCount
    rw [same, readId, readNumber_of_bad bad]
    rfl
  | idOutOfRange known letters named beyond =>
    obtain rfl := known
    obtain ⟨next, same⟩ := readOp_named letters place idCount
    rw [same, readId, Fault.bind_of_ok (readNumber_of_numeral named place),
      if_neg (Nat.not_lt.mpr beyond)]
    rfl
  | badSize known letters named within bad =>
    obtain rfl := known
    have named := readId_of_numeral named within place
    rcases operandCount?_eq_some letters with ⟨rfl | rfl, -⟩ | ⟨-, never⟩
    · simp only [readOp, Fault.bind_of_ok named, readNumber_of_bad bad]
      rfl
    · simp only [readOp, Fault.bind_of_ok named, readNumber_of_bad bad]
      rfl
    · cases never

/-! ## Reading lines -/

section Headed

variable {suggested opCount weight : Nat} (filled : ∀ line ∈ header, line.words ≠ [])
  (headed : Numbers header [suggested, idCount, opCount, weight])

include filled headed

/-- Behind the header the lines are read as operations. -/
theorem ofLines_append (body : List ContentLine) : ofLines (header ++ body) = (do
    let ops ← readOps idCount body
    if ops.length = opCount then return ⟨suggested, idCount, weight, ops⟩
    else throw (.countMismatch opCount ops.length)) := by
  have read := readHeader_numbers filled headed (Nat.le_refl 4) body
  rw [ofLines, Fault.bind_of_ok (read.trans (readHeader_of_full rfl body))]

/-- Where every line describes an operation, only their number can be wrong. -/
theorem ofLines_of_described
    (described : List.Forall₂ (fun line op => Describes idCount line.words op) body ops) :
    ofLines (header ++ body) = if body.length = opCount then .ok ⟨suggested, idCount, weight, ops⟩
      else .error (.countMismatch opCount body.length) := by
  have read := readOps_append described []
  rw [List.append_nil] at read
  rw [ofLines_append filled headed, read, described.length_eq]
  simp only [readOps, Except.map, List.append_nil]
  rfl

end Headed

theorem ofLines_of_denotes {t : Trace} (filled : ∀ line ∈ lines, line.words ≠ [])
    (denotes : Denotes lines t) : ofLines lines = .ok t := by
  obtain ⟨rfl, headed, described⟩ := denotes
  obtain ⟨filled, -⟩ := List.forall_mem_append.mp filled
  rw [ofLines_of_described filled headed described, if_pos rfl]

theorem ofLines_of_refused (filled : ∀ line ∈ lines, line.words ≠ [])
    (refused : Refused lines error) : ofLines lines = .error error := by
  cases refused with
  | header split headed short offends =>
    subst split
    obtain ⟨filled, -⟩ := List.forall_mem_append.mp filled
    rw [ofLines, readHeader_numbers filled headed short.le, readHeader, if_pos short,
      readHeaderLine_of_offends offends]
    rfl
  | @missingHeader numbers field headed absent =>
    have short : numbers.length < 4 := (List.getElem?_eq_some_iff.mp absent).1
    have read := readHeader_numbers filled headed short.le []
    rw [List.append_nil] at read
    rw [ofLines, Fault.bind_of_ok (read.trans rfl)]
    have named : headerFields.getD numbers.length "" = field := by
      rw [List.getD_eq_getElem?_getD, absent]
      rfl
    -- a header is whole with four numbers only
    match numbers with
    | [] | [_] | [_, _] | [_, _, _] =>
      exact congrArg (Except.error ∘ TraceError.missingHeader) named
    | _ :: _ :: _ :: _ :: _ =>
      simp only [List.length_cons] at short
      omega
  | operation split headed described offends =>
    subst split
    obtain ⟨filled, -⟩ := List.forall_mem_append.mp filled
    rw [ofLines_append filled headed, readOps_append described, readOps,
      readOp_of_offends offends]
    rfl
  | countMismatch split headed described other =>
    subst split
    obtain ⟨filled, -⟩ := List.forall_mem_append.mp filled
    rw [ofLines_of_described filled headed described, if_neg other]

/-! ## Lines describe a trace or have a fault -/

/-- A fault behind a number is one of the whole line. -/
theorem HeaderOffends.cons {count place : Nat} (numeral : Numeral word number)
    (offends : HeaderOffends (count + 1) ⟨place, rest⟩ error) :
    HeaderOffends count ⟨place, word :: rest⟩ error := by
  cases offends with
  | @badNumber front behind bad numbers words read few not =>
    have split : word :: rest = (word :: front) ++ bad :: behind := congrArg (word :: ·) words
    exact .badNumber split (.cons numeral read) (by rw [List.length_cons]; omega) not
  | @fifth front behind fifth numbers words read full =>
    have split : word :: rest = (word :: front) ++ fifth :: behind := congrArg (word :: ·) words
    exact .fifth split (.cons numeral read) (by rw [List.length_cons]; omega)

/-- The words of a line of the header stand for numbers, or one of them is at fault. -/
theorem numbers_or_offends {count : Nat} (place : Nat) (words : List (List Char))
    (room : count ≤ 4) :
    (∃ numbers, List.Forall₂ Numeral words numbers ∧ count + numbers.length ≤ 4) ∨
      ∃ error, HeaderOffends count ⟨place, words⟩ error := by
  induction words generalizing count with
  | nil => exact .inl ⟨[], .nil, room⟩
  | cons word rest ih =>
    have first : word :: rest = [] ++ word :: rest := rfl
    by_cases full : count = 4
    · exact .inr ⟨_, .fifth first .nil full⟩
    have short : count < 4 := Nat.lt_of_le_of_ne room full
    by_cases numeral : ∃ number, Numeral word number
    · obtain ⟨number, numeral⟩ := numeral
      rcases ih short with ⟨numbers, later, within⟩ | ⟨error, offends⟩
      · exact .inl ⟨number :: numbers, .cons numeral later, by rw [List.length_cons]; omega⟩
      · exact .inr ⟨error, offends.cons numeral⟩
    · exact .inr ⟨_, .badNumber first .nil short (not_exists.mp numeral)⟩

/-- Lines start with a header of four numbers, or are numbers too few for one, or one of them is at
fault before there are four. -/
theorem headed_or_offends (lines : List ContentLine) {count : Nat} (room : count ≤ 4) :
    ∃ header rest numbers, lines = header ++ rest ∧ Numbers header numbers ∧
      count + numbers.length ≤ 4 ∧ (count + numbers.length = 4 ∨ rest = [] ∨
        ∃ line behind error, rest = line :: behind ∧ count + numbers.length < 4 ∧
          HeaderOffends (count + numbers.length) line error) := by
  induction lines generalizing count with
  | nil => exact ⟨[], [], [], rfl, .nil, room, .inr (.inl rfl)⟩
  | cons line lines ih =>
    by_cases full : count = 4
    · exact ⟨[], _, [], rfl, .nil, room, .inl full⟩
    rcases numbers_or_offends line.number line.words room with
      ⟨front, numerals, within⟩ | ⟨error, offends⟩
    · obtain ⟨header, rest, numbers, rfl, headed, within, ends⟩ := ih within
      have more : count + (front ++ numbers).length = count + front.length + numbers.length := by
        rw [List.length_append, Nat.add_assoc]
      refine ⟨line :: header, rest, front ++ numbers, rfl, ?_, more ▸ within, more ▸ ends⟩
      rw [Numbers, List.flatMap_cons]
      exact List.rel_append numerals headed
    · have short : count < 4 := Nat.lt_of_le_of_ne room full
      exact ⟨[], _, [], rfl, .nil, room, .inr (.inr ⟨line, lines, error, rfl, short, offends⟩)⟩

/-- A line with words describes an operation or is at fault. -/
theorem describes_or_offends (idCount : Nat) (filled : line.words ≠ []) :
    (∃ op, Describes idCount line.words op) ∨ ∃ error, Offends idCount line error := by
  obtain ⟨place, words⟩ := line
  obtain ⟨first, operands, rfl⟩ := List.exists_cons_of_ne_nil filled
  by_cases known : ∃ letter count, operandCount? letter = some count ∧ first = [letter]
  case neg =>
    refine .inr ⟨_, .unknownOp rfl fun letter count letters same => known ?_⟩
    exact ⟨letter, count, letters, same⟩
  obtain ⟨letter, count, letters, rfl⟩ := known
  by_cases counted : operands.length = count
  case neg => exact .inr ⟨_, .arity rfl letters counted⟩
  subst counted
  cases operands with
  | nil =>
    rcases operandCount?_eq_some letters with ⟨-, never⟩ | ⟨-, never⟩ <;> cases never
  | cons word rest =>
    by_cases named : ∃ id, Numeral word id
    case neg => exact .inr ⟨_, .badId rfl letters (not_exists.mp named)⟩
    obtain ⟨id, named⟩ := named
    by_cases within : id < idCount
    case neg => exact .inr ⟨_, .idOutOfRange rfl letters named (Nat.le_of_not_lt within)⟩
    rcases operandCount?_eq_some letters with ⟨sort, count⟩ | ⟨rfl, count⟩
    · obtain ⟨word', rfl⟩ := List.length_eq_one_iff.mp (Nat.succ.inj count)
      by_cases sized : ∃ size, Numeral word' size
      case neg => exact .inr ⟨_, .badSize rfl letters named within (not_exists.mp sized)⟩
      obtain ⟨size, sized⟩ := sized
      rcases sort with rfl | rfl
      · exact .inl ⟨_, .alloc named within sized⟩
      · exact .inl ⟨_, .realloc named within sized⟩
    · obtain rfl := List.length_eq_zero_iff.mp (Nat.succ.inj count)
      exact .inl ⟨_, .free named within⟩

/-- Lines with words describe operations, or there is a first one among them at fault. -/
theorem described_or_offends (idCount : Nat) (filled : ∀ line ∈ body, line.words ≠ []) :
    (∃ ops, List.Forall₂ (fun line op => Describes idCount line.words op) body ops) ∨
      ∃ earlier line behind ops error, body = earlier ++ line :: behind ∧
        List.Forall₂ (fun line op => Describes idCount line.words op) earlier ops ∧
        Offends idCount line error := by
  induction body with
  | nil => exact .inl ⟨[], .nil⟩
  | cons line body ih =>
    obtain ⟨here, filled⟩ := List.forall_mem_cons.mp filled
    rcases describes_or_offends idCount here with ⟨op, describes⟩ | ⟨error, offends⟩
    · rcases ih filled with
        ⟨ops, described⟩ | ⟨earlier, line', behind, ops, error, rfl, described, offends⟩
      · exact .inl ⟨op :: ops, .cons describes described⟩
      · exact .inr ⟨line :: earlier, line', behind, op :: ops, error, rfl,
          .cons describes described, offends⟩
    · exact .inr ⟨[], line, body, [], error, rfl, .nil, offends⟩

/-- The grammar leaves nothing out: lines describe a trace or are refused for something. -/
theorem denotes_or_refused (filled : ∀ line ∈ lines, line.words ≠ []) :
    (∃ t, Denotes lines t) ∨ ∃ error, Refused lines error := by
  obtain ⟨header, body, numbers, rfl, headed, within, ends⟩ :=
    headed_or_offends lines (Nat.zero_le 4)
  rw [Nat.zero_add] at within ends
  obtain ⟨-, filled⟩ := List.forall_mem_append.mp filled
  by_cases full : numbers.length = 4
  · obtain ⟨suggested, idCount, opCount, weight, rfl⟩ := List.length_eq_four.mp full
    rcases described_or_offends idCount filled with
      ⟨ops, described⟩ | ⟨earlier, line, behind, ops, error, rfl, described, offends⟩
    · by_cases counted : body.length = opCount
      · subst counted
        exact .inl ⟨_, .intro rfl headed described⟩
      · exact .inr ⟨_, .countMismatch rfl headed described counted⟩
    · exact .inr ⟨error, .operation rfl headed described offends⟩
  · have short : numbers.length < 4 := Nat.lt_of_le_of_ne within full
    rcases ends with whole | rfl | ⟨line, behind, error, rfl, -, offends⟩
    · exact absurd whole full
    · rw [List.append_nil]
      exact .inr ⟨_, .missingHeader headed (List.getElem?_eq_getElem short)⟩
    · exact .inr ⟨error, .header rfl headed short offends⟩

/-- A text is read as a trace exactly if its lines describe that trace, and refused exactly for the
first fault in them. -/
theorem ofText_grammar (text : String) :
    (∀ t, ofText text = .ok t ↔ Denotes (contentOf text.toList) t) ∧
    ∀ error, ofText text = .error error ↔ Refused (contentOf text.toList) error := by
  have filled : ∀ line ∈ contentOf text.toList, line.words ≠ [] :=
    fun line member => words_ne_nil_of_mem member
  rw [ofText, contentLines_eq]
  generalize contentOf text.toList = lines at filled
  refine ⟨fun t => ⟨fun read => ?_, ofLines_of_denotes filled⟩,
    fun error => ⟨fun refused => ?_, ofLines_of_refused filled⟩⟩
  · rcases denotes_or_refused filled with ⟨t', denotes⟩ | ⟨error, refused⟩
    · cases (ofLines_of_denotes filled denotes).symm.trans read
      exact denotes
    · cases (ofLines_of_refused filled refused).symm.trans read
  · rcases denotes_or_refused filled with ⟨t, denotes⟩ | ⟨error', refused'⟩
    · cases (ofLines_of_denotes filled denotes).symm.trans refused
    · cases (ofLines_of_refused filled refused').symm.trans refused
      exact refused'

example : ofText "64 1 2 # two operations\n\n +9\na 0 5\n f\t0 # no more\n" =
    .ok ⟨64, 1, 9, [.alloc 0 5, .free 0]⟩ := by rfl

-- the second line has a number too many, which comes before the third having no letter
example : ofText "64 1 2 9\nf 1 2\nx\n" = .error (.arity 2 'f' 1 2) := by rfl

end Trace

end BoundaryHeap
