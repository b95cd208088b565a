import BoundaryHeap.Proofs.Replay
import BoundaryHeap.Proofs.Words
import BoundaryHeap.Trace.Reader

/-!
The text of a trace read back. A text that is put together from lines of words falls into these
lines again, and each line of a trace stands for what it was printed from. So a trace is read back
from its text when its operations keep to the numbers announced, and every trace that has been read
is of this kind.
-/

namespace BoundaryHeap

/-! ## Texts put together from lines -/

namespace Trace

open Text (Plain isBlank)

/-- The text of lines of words. -/
def joined (lines : List (List (List Char))) : List Char :=
  lines.flatMap fun line => [' '].intercalate line ++ ['\n']

/-- Lines of words, numbered from `number` on. -/
def numbered (number : Nat) : List (List (List Char)) → List ContentLine
  | [] => []
  | words :: rest => ⟨number, words⟩ :: numbered (number + 1) rest

theorem numbered_append {number : Nat} {front behind : List (List (List Char))} :
    numbered number (front ++ behind) =
      numbered number front ++ numbered (number + front.length) behind := by
  induction front generalizing number with
  | nil => rfl
  | cons line rest ih =>
    rw [List.cons_append, numbered, ih, numbered, List.cons_append, List.length_cons]
    congr 3
    omega

/-- What a line of words consists of. -/
theorem mem_intercalate {line : List (List Char)} {c : Char}
    (member : c ∈ [' '].intercalate line) : c = ' ' ∨ ∃ word ∈ line, c ∈ word := by
  match line with
  | [] => simp at member
  | [word] => exact .inr ⟨word, by simpa using member⟩
  | word :: next :: rest =>
    rw [List.intercalate_cons_cons, List.append_assoc, List.mem_append, List.mem_append,
      List.mem_singleton] at member
    rcases member with here | blank | later
    · exact .inr ⟨word, List.mem_cons_self, here⟩
    · exact .inl blank
    · refine (mem_intercalate later).imp_right ?_
      rintro ⟨other, listed, inside⟩
      exact ⟨other, List.mem_cons_of_mem _ listed, inside⟩

section Lines

variable {line : List (List Char)} (plain : ∀ word ∈ line, Plain word)

include plain

theorem newline_notMem : '\n' ∉ [' '].intercalate line := by
  intro member
  rcases mem_intercalate member with same | ⟨word, listed, inside⟩
  · exact absurd same (by decide)
  · exact absurd ((plain word listed).solid _ inside) (by decide)

theorem lineWords_intercalate : lineWords ([' '].intercalate line) = line := by
  have whole : ([' '].intercalate line).takeWhile (· ≠ '#') = [' '].intercalate line := by
    refine List.takeWhile_eq_self_iff.mpr fun c member => ?_
    rw [decide_eq_true_eq]
    rintro rfl
    rcases mem_intercalate member with same | ⟨word, listed, inside⟩
    · exact absurd same (by decide)
    · exact (plain word listed).shown inside
  rw [lineWords, whole, Text.words_intercalate plain]

end Lines

theorem linesFrom_append {current line rest : List Char} (unbroken : '\n' ∉ line) :
    linesFrom current (line ++ '\n' :: rest) = (current.reverse ++ line) :: linesFrom [] rest := by
  induction line generalizing current with
  | nil => simp [linesFrom]
  | cons c line ih =>
    obtain ⟨other, unbroken⟩ := List.ne_and_not_mem_of_not_mem_cons unbroken
    simp [linesFrom, Ne.symm other, ih unbroken]

/-- A text put together from lines falls into these lines. -/
theorem contentFrom_joined {number : Nat} {lines : List (List (List Char))}
    (some : ∀ line ∈ lines, line ≠ []) (plain : ∀ line ∈ lines, ∀ word ∈ line, Plain word) :
    contentFrom number (linesFrom [] (joined lines)) = numbered number lines := by
  induction lines generalizing number with
  | nil => rfl
  | cons line rest ih =>
    obtain ⟨here, some⟩ := List.forall_mem_cons.mp some
    obtain ⟨solid, plain⟩ := List.forall_mem_cons.mp plain
    have split : joined (line :: rest) = [' '].intercalate line ++ '\n' :: joined rest := by
      simp [joined]
    rw [split, linesFrom_append (newline_notMem solid)]
    simp [contentFrom, lineWords_intercalate solid, here, numbered, ih some plain]

end Trace

/-! ## The lines of a trace -/

/-- The words on the line of an operation. -/
def TraceOp.words : TraceOp → List (List Char)
  | alloc id size => [['a'], Nat.toDigits 10 id, Nat.toDigits 10 size]
  | realloc id size => [['r'], Nat.toDigits 10 id, Nat.toDigits 10 size]
  | free id => [['f'], Nat.toDigits 10 id]

theorem TraceOp.toList_line (op : TraceOp) :
    op.line.toList = [' '].intercalate op.words ++ ['\n'] := by
  cases op <;> simp [line, words, toString]

theorem TraceOp.plain_words (op : TraceOp) : ∀ word ∈ op.words, Text.Plain word := by
  have letter : ∀ c ∈ ['a', 'r', 'f'], Text.Plain [c] := by
    intro c member
    simp only [List.mem_cons, List.not_mem_nil, or_false] at member
    rcases member with rfl | rfl | rfl <;>
      exact ⟨by decide, List.forall_mem_singleton.mpr (by decide), by decide⟩
  cases op <;> simp [words, Text.plain_toDigits, letter]

namespace Trace

/-- The numbers of the header. -/
def header (t : Trace) : List Nat := [t.suggestedHeapSize, t.idCount, t.ops.length, t.weight]

/-- The lines of the text of a trace. -/
def lines (t : Trace) : List (List (List Char)) :=
  t.header.map (fun number => [Nat.toDigits 10 number]) ++ t.ops.map TraceOp.words

theorem toList_text (t : Trace) : t.text.toList = joined t.lines := by
  have ops : (String.join (t.ops.map TraceOp.line)).toList = joined (t.ops.map TraceOp.words) := by
    rw [String.toList_join, joined, List.flatMap_map, List.flatMap_map]
    exact List.flatMap_congr fun op _ => op.toList_line
  simp [text, lines, header, joined, ops, toString]

theorem contentLines_text (t : Trace) : contentLines t.text.toList = numbered 1 t.lines := by
  rw [contentLines, toList_text]
  refine contentFrom_joined ?some ?plain
  case some =>
    intro line member
    rcases List.mem_append.mp member with header | operation
    · obtain ⟨number, -, rfl⟩ := List.mem_map.mp header
      simp
    · obtain ⟨op, -, rfl⟩ := List.mem_map.mp operation
      cases op <;> simp [TraceOp.words]
  case plain =>
    intro line member
    rcases List.mem_append.mp member with header | operation
    · obtain ⟨number, -, rfl⟩ := List.mem_map.mp header
      simpa using Text.plain_toDigits number
    · obtain ⟨op, -, rfl⟩ := List.mem_map.mp operation
      exact op.plain_words

/-- Every number of a trace fits in 64 bits. -/
structure Fits (t : Trace) : Prop where
  header : ∀ number ∈ t.header, number < wordLimit
  ids : ∀ op ∈ t.ops, op.id < wordLimit
  sizes : ∀ op ∈ t.ops, op.size < wordLimit

/-- The operations are about blocks with the numbers announced. -/
def Within (t : Trace) : Prop := ∀ op ∈ t.ops, op.id < t.idCount

/-! ## What is printed is read -/

variable {t : Trace} {line number idCount : Nat}

theorem readNumber_toDigits (fits : number < wordLimit) :
    readNumber line (Nat.toDigits 10 number) = .ok number := by
  rw [readNumber, Text.decimal?_toDigits, if_pos fits]

theorem readHeader_lines (fits : t.Fits) :
    readHeader [] (numbered 1 t.lines) = .ok (t.header, numbered 5 (t.ops.map TraceOp.words)) := by
  have known := fits.header
  simp only [header, List.forall_mem_cons] at known
  obtain ⟨suggested, count, length, weight, -⟩ := known
  have rest : ∀ body, readHeader t.header body = .ok (t.header, body) := by
    intro body
    cases body <;> rfl
  simp only [lines, header, List.map_cons, List.map_nil, List.cons_append, List.nil_append,
    numbered, readHeader, readHeaderLine, readNumber_toDigits, suggested, count, length, weight]
  exact rest _

/-- Reading goes on behind a number that is one of those announced. -/
theorem readId_toDigits {id : Nat} {α : Type} {next : Nat → Except TraceError α}
    (fits : id < wordLimit) : (readId line idCount (Nat.toDigits 10 id) >>= next) =
      if id < idCount then next id else .error (.idOutOfRange line id idCount) := by
  rw [readId, Fault.bind_of_ok (readNumber_toDigits fits)]
  split <;> rfl

theorem readOp_words {op : TraceOp} (known : op.id < wordLimit) (fits : op.size < wordLimit) :
    readOp idCount ⟨line, op.words⟩ =
      if op.id < idCount then .ok op else .error (.idOutOfRange line op.id idCount) := by
  cases op with
  | alloc id size =>
    have read : readNumber line (Nat.toDigits 10 size) = .ok size := readNumber_toDigits fits
    refine (readId_toDigits known).trans ?_
    simp only [read]
    rfl
  | realloc id size =>
    have read : readNumber line (Nat.toDigits 10 size) = .ok size := readNumber_toDigits fits
    refine (readId_toDigits known).trans ?_
    simp only [read]
    rfl
  | free id => exact readId_toDigits known

section Ops

variable {ops : List TraceOp} (known : ∀ op ∈ ops, op.id < wordLimit)
  (fits : ∀ op ∈ ops, op.size < wordLimit)

include known fits

/-- Operations about the numbers announced are read back, and the reading goes on behind them. -/
theorem readOps_words {rest : List ContentLine} (within : ∀ op ∈ ops, op.id < idCount) :
    readOps idCount (numbered line (ops.map TraceOp.words) ++ rest) =
      (readOps idCount rest).map (ops ++ ·) := by
  induction ops generalizing line with
  | nil =>
    rw [List.map_nil, numbered, List.nil_append]
    cases readOps idCount rest <;> rfl
  | cons op ops ih =>
    obtain ⟨here, known⟩ := List.forall_mem_cons.mp known
    obtain ⟨small, fits⟩ := List.forall_mem_cons.mp fits
    obtain ⟨inside, within⟩ := List.forall_mem_cons.mp within
    have read : readOp idCount ⟨line, op.words⟩ = .ok op :=
      (readOp_words here small).trans (if_pos inside)
    rw [List.map_cons, numbered, List.cons_append, readOps, Fault.bind_of_ok read,
      ih known fits within]
    cases readOps idCount rest <;> rfl

end Ops

/-- A trace that keeps to the numbers announced is read back from its text. -/
theorem ofText_text (fits : t.Fits) (within : t.Within) : ofText t.text = .ok t := by
  have body : readOps t.idCount (numbered 5 (t.ops.map TraceOp.words)) = .ok t.ops := by
    have read : readOps t.idCount (numbered 5 (t.ops.map TraceOp.words) ++ []) = _ :=
      readOps_words fits.ids fits.sizes within
    simpa [readOps, Except.map] using read
  rw [ofText, contentLines_text, ofLines, Fault.bind_of_ok (readHeader_lines fits)]
  simp only [header]
  rw [Fault.bind_of_ok body]
  exact if_pos rfl

/-- The first operation about another number is what the text is refused for. -/
theorem ofText_text_eq_error {front behind : List TraceOp} {op : TraceOp} (fits : t.Fits)
    (split : t.ops = front ++ op :: behind) (within : ∀ earlier ∈ front, earlier.id < t.idCount)
    (beyond : t.idCount ≤ op.id) :
    ofText t.text = .error (.idOutOfRange (front.length + 5) op.id t.idCount) := by
  have here : op ∈ t.ops := split ▸ by simp
  have sooner : ∀ earlier ∈ front, earlier ∈ t.ops := fun _ member => split ▸ by simp [member]
  have refused : readOp t.idCount ⟨5 + front.length, op.words⟩ =
      .error (.idOutOfRange (5 + front.length) op.id t.idCount) :=
    (readOp_words (fits.ids op here) (fits.sizes op here)).trans (if_neg (Nat.not_lt.mpr beyond))
  have body : readOps t.idCount (numbered 5 (t.ops.map TraceOp.words)) =
      .error (.idOutOfRange (front.length + 5) op.id t.idCount) := by
    rw [split, List.map_append, List.map_cons, numbered_append, numbered, List.length_map,
      readOps_words (fun _ member => fits.ids _ (sooner _ member))
        (fun _ member => fits.sizes _ (sooner _ member)) within, readOps, refused, Nat.add_comm]
    rfl
  rw [ofText, contentLines_text, ofLines, Fault.bind_of_ok (readHeader_lines fits)]
  simp only [header]
  rw [body]
  rfl

/-! ## What has been read -/

variable {text : String}

theorem lt_of_readNumber {word : List Char} (known : readNumber line word = .ok number) :
    number < wordLimit := by
  rw [readNumber] at known
  split at known
  next value read => exact Except.ok.inj known ▸ Text.lt_of_decimal? read
  next => cases known

theorem lt_of_readHeaderLine {read all : List Nat} {words : List (List Char)}
    (fits : ∀ number ∈ read, number < wordLimit)
    (known : readHeaderLine line read words = .ok all) : ∀ number ∈ all, number < wordLimit := by
  induction words generalizing read with
  | nil => exact Except.ok.inj known ▸ fits
  | cons word rest ih =>
    rw [readHeaderLine] at known
    split at known
    · cases known
    · obtain ⟨number, here, known⟩ := Fault.bind_eq_ok.mp known
      refine ih (List.forall_mem_append.mpr ⟨fits, ?_⟩) known
      exact List.forall_mem_singleton.mpr (lt_of_readNumber here)

theorem lt_of_readHeader {read all : List Nat} {lines body : List ContentLine}
    (fits : ∀ number ∈ read, number < wordLimit)
    (known : readHeader read lines = .ok (all, body)) : ∀ number ∈ all, number < wordLimit := by
  induction lines generalizing read with
  | nil =>
    cases known
    exact fits
  | cons line rest ih =>
    rw [readHeader] at known
    split at known
    · obtain ⟨more, here, known⟩ := Fault.bind_eq_ok.mp known
      exact ih (lt_of_readHeaderLine fits here) known
    · cases known
      exact fits

theorem lt_of_readId {word : List Char} {id : Nat} (known : readId line idCount word = .ok id) :
    id < wordLimit ∧ id < idCount := by
  obtain ⟨found, read, known⟩ := Fault.bind_eq_ok.mp known
  split at known
  next inside =>
    cases known
    exact ⟨lt_of_readNumber read, inside⟩
  next => cases known

theorem lt_of_readOp {line : ContentLine} {op : TraceOp} (known : readOp idCount line = .ok op) :
    (op.id < wordLimit ∧ op.id < idCount) ∧ op.size < wordLimit := by
  rw [readOp] at known
  split at known
  case h_1 =>
    obtain ⟨id, named, known⟩ := Fault.bind_eq_ok.mp known
    obtain ⟨size, read, known⟩ := Fault.bind_eq_ok.mp known
    cases known
    exact ⟨lt_of_readId named, lt_of_readNumber read⟩
  case h_2 =>
    obtain ⟨id, named, known⟩ := Fault.bind_eq_ok.mp known
    obtain ⟨size, read, known⟩ := Fault.bind_eq_ok.mp known
    cases known
    exact ⟨lt_of_readId named, lt_of_readNumber read⟩
  case h_3 =>
    obtain ⟨id, named, known⟩ := Fault.bind_eq_ok.mp known
    cases known
    exact ⟨lt_of_readId named, Nat.zero_lt_succ _⟩
  all_goals cases known

theorem lt_of_readOps {lines : List ContentLine} {ops : List TraceOp}
    (known : readOps idCount lines = .ok ops) :
    ∀ op ∈ ops, (op.id < wordLimit ∧ op.id < idCount) ∧ op.size < wordLimit := by
  induction lines generalizing ops with
  | nil =>
    cases known
    exact fun _ never => absurd never List.not_mem_nil
  | cons line rest ih =>
    obtain ⟨op, here, known⟩ := Fault.bind_eq_ok.mp known
    obtain ⟨others, later, known⟩ := Fault.bind_eq_ok.mp known
    cases known
    exact List.forall_mem_cons.mpr ⟨lt_of_readOp here, ih later⟩

/-- A trace that has been read has numbers that fit, and keeps to those announced. -/
theorem fits_of_ofText (known : ofText text = .ok t) : t.Fits ∧ t.Within := by
  obtain ⟨⟨numbers, body⟩, headed, known⟩ := Fault.bind_eq_ok.mp known
  have small := lt_of_readHeader (fun _ never => absurd never List.not_mem_nil) headed
  dsimp only at known
  split at known
  next suggested count length weight =>
    obtain ⟨ops, read, known⟩ := Fault.bind_eq_ok.mp known
    have each := lt_of_readOps read
    split at known
    next counted =>
      rw [← counted] at small
      cases known
      exact ⟨⟨small, fun op member => (each op member).1.1, fun op member => (each op member).2⟩,
        fun op member => (each op member).1.2⟩
    next => cases known
  next => cases known

/-- Exactly the traces that keep to the numbers announced are read back from their text. What has
been read from any text is such a trace, and printing it gives a text that stands for the same
trace, so that printing and reading once more changes neither the text nor its digest. -/
theorem text_reads_back :
    (∀ t : Trace, t.Fits →
      (ofText t.text = .ok t ↔ ∀ op ∈ t.ops, op.id < t.idCount) ∧
      ∀ front op behind, t.ops = front ++ op :: behind →
        (∀ earlier ∈ front, earlier.id < t.idCount) → t.idCount ≤ op.id →
        ofText t.text = .error (.idOutOfRange (front.length + 5) op.id t.idCount)) ∧
    ∀ text t, ofText text = .ok t →
      t.Fits ∧ (∀ op ∈ t.ops, op.id < t.idCount) ∧ ofText t.text = .ok t ∧
      ∀ again, ofText t.text = .ok again → again.text = t.text ∧ again.sha256 = t.sha256 := by
  constructor
  · intro t fits
    refine ⟨⟨fun read => (fits_of_ofText read).2, ofText_text fits⟩, ?_⟩
    exact fun front op behind split => ofText_text_eq_error fits split
  · intro text t known
    obtain ⟨fits, within⟩ := fits_of_ofText known
    have read := ofText_text fits within
    refine ⟨fits, within, read, fun again reread => ?_⟩
    cases read.symm.trans reread
    exact ⟨rfl, rfl⟩

/-- A text with comments, blank lines and a header on one line is read, and the trace printed and
read back; the second trace names a number that it does not announce. -/
theorem text_reads_back_sample :
    (∃ t, ofText "# two blocks\n20000 2 3 1\n\na 0 512 # the first\n r +0 0640\nf 0" = .ok t ∧
      t.text = "20000\n2\n3\n1\na 0 512\nr 0 640\nf 0\n" ∧ ofText t.text = .ok t) ∧
    ofText (Trace.text ⟨8, 1, 1, [.alloc 0 8, .free 1]⟩) = .error (.idOutOfRange 6 1 1) := by
  obtain ⟨printed, reread⟩ := text_reads_back
  constructor
  · have read : ofText "# two blocks\n20000 2 3 1\n\na 0 512 # the first\n r +0 0640\nf 0" =
        .ok ⟨20000, 2, 1, [.alloc 0 512, .realloc 0 640, .free 0]⟩ := by decide +kernel
    obtain ⟨-, -, again, -⟩ := reread _ _ read
    exact ⟨_, read, by decide +kernel, again⟩
  · have fits : Fits ⟨8, 1, 1, [.alloc 0 8, .free 1]⟩ := by
      constructor <;> decide
    exact (printed _ fits).2 [.alloc 0 8] (.free 1) [] rfl (by decide) (by decide)

end Trace

end BoundaryHeap
