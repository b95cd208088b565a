import BoundaryHeap.Text.Number
import BoundaryHeap.Trace.Basic

/-!
Reading the text of a trace. What follows a hash sign on a line is a comment, and a line without a
word says nothing. The first lines hold the four numbers of the header, one or several on a line;
each later line holds one operation. The first line at fault, counted from one, decides the error.
-/

namespace BoundaryHeap

/-- Why a text is not a trace. -/
inductive TraceError where
  /-- The text could not be read at all. -/
  | unreadable (reason : String)
  /-- The text ends before this number of the header. -/
  | missingHeader (field : String)
  | badNumber (line : Nat) (token : String)
  | unknownOp (line : Nat) (token : String)
  /-- An operation has too few or too many operands. -/
  | arity (line : Nat) (letter : Char) (expected found : Nat)
  | idOutOfRange (line id idCount : Nat)
  /-- The header announces another number of operations than there are. -/
  | countMismatch (declared found : Nat)
  deriving Repr, DecidableEq

/-- The short name of an error. -/
def TraceError.label : TraceError → String
  | unreadable _ => "io"
  | missingHeader _ => "missing_header"
  | badNumber .. => "bad_number"
  | unknownOp .. => "unknown_op"
  | arity .. => "arity"
  | idOutOfRange .. => "id_out_of_range"
  | countMismatch .. => "count_mismatch"

/-- What an error says to a person. -/
def TraceError.message : TraceError → String
  | unreadable reason => s!"io: {reason}"
  | missingHeader field => s!"trace ends before header field `{field}`"
  | badNumber line token => s!"line {line}: expected an unsigned integer, found `{token}`"
  | unknownOp line token => s!"line {line}: unknown op `{token}`"
  | arity line letter expected found =>
    s!"line {line}: op `{letter}` takes {expected} operands, found {found}"
  | idOutOfRange line id idCount => s!"line {line}: id {id} outside 0..{idCount}"
  | countMismatch declared found => s!"header declares {declared} ops, body has {found}"

namespace Trace

/-- A line with words on it. -/
structure ContentLine where
  /-- The number of the line in the text, from one on. -/
  number : Nat
  words : List (List Char)
  deriving Repr, DecidableEq

/-- The pieces of a text between line breaks, `current` being the start of the first one, in
reverse. -/
def linesFrom (current : List Char) : List Char → List (List Char)
  | [] => [current.reverse]
  | c :: rest =>
    if c = '\n' then current.reverse :: linesFrom [] rest else linesFrom (c :: current) rest

/-- The words of a line up to its comment. -/
def lineWords (line : List Char) : List (List Char) := Text.words (line.takeWhile (· ≠ '#'))

/-- The lines that have words, numbered from `number` on. -/
def contentFrom (number : Nat) : List (List Char) → List ContentLine
  | [] => []
  | line :: rest =>
    let words := lineWords line
    if words.isEmpty then contentFrom (number + 1) rest
    else ⟨number, words⟩ :: contentFrom (number + 1) rest

/-- The lines of a text that have words. -/
def contentLines (text : List Char) : List ContentLine := contentFrom 1 (linesFrom [] text)

/-- The names of the four numbers of the header. -/
def headerFields : List String := ["suggested_heap_size", "num_ids", "num_ops", "weight"]

/-- The number that a word stands for. -/
def readNumber (line : Nat) (word : List Char) : Except TraceError Nat :=
  match Text.decimal? word with
  | some value => .ok value
  | none => .error (.badNumber line (String.ofList word))

/-- Reads the words of a header line behind the numbers read before. A fifth number is taken for an
operation that is out of place. -/
def readHeaderLine (line : Nat) (read : List Nat) : List (List Char) → Except TraceError (List Nat)
  | [] => .ok read
  | word :: rest => do
    if read.length = 4 then
      throw (.unknownOp line (String.ofList word))
    readHeaderLine line (read ++ [← readNumber line word]) rest

/-- Reads header lines until there are four numbers. The answer holds the numbers and the lines
after the header. -/
def readHeader (read : List Nat) : List ContentLine →
    Except TraceError (List Nat × List ContentLine)
  | [] => .ok (read, [])
  | line :: rest => do
    if read.length < 4 then
      readHeader (← readHeaderLine line.number read line.words) rest
    else
      return (read, line :: rest)

/-- The number of a block, which has to be below `idCount`. -/
def readId (line idCount : Nat) (word : List Char) : Except TraceError Nat := do
  let id ← readNumber line word
  if id < idCount then return id else throw (.idOutOfRange line id idCount)

/-- The operation on a line. -/
def readOp (idCount : Nat) (line : ContentLine) : Except TraceError TraceOp := do
  let number := line.number
  match line.words with
  | [['a'], id, size] => do
    let id ← readId number idCount id
    return .alloc id (← readNumber number size)
  | [['r'], id, size] => do
    let id ← readId number idCount id
    return .realloc id (← readNumber number size)
  | [['f'], id] => do
    return .free (← readId number idCount id)
  | ['a'] :: operands => throw (.arity number 'a' 2 operands.length)
  | ['r'] :: operands => throw (.arity number 'r' 2 operands.length)
  | ['f'] :: operands => throw (.arity number 'f' 1 operands.length)
  | word :: _ => throw (.unknownOp number (String.ofList word))
  | [] => throw (.unknownOp number "")

/-- The operations on lines, in order. -/
def readOps (idCount : Nat) : List ContentLine → Except TraceError (List TraceOp)
  | [] => .ok []
  | line :: rest => do
    let op ← readOp idCount line
    return op :: (← readOps idCount rest)

/-- Reads the content lines of a trace. -/
def ofLines (lines : List ContentLine) : Except TraceError Trace := do
  let (header, body) ← readHeader [] lines
  match header with
  | [suggestedHeapSize, idCount, opCount, weight] =>
    let ops ← readOps idCount body
    if ops.length = opCount then
      return { suggestedHeapSize, idCount, weight, ops }
    else
      throw (.countMismatch opCount ops.length)
  | _ => throw (.missingHeader (headerFields.getD header.length ""))

/-- The trace that a text describes. -/
def ofText (text : String) : Except TraceError Trace := ofLines (contentLines text.toList)

end Trace

end BoundaryHeap
