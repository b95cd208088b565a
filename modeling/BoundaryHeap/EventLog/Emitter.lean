import BoundaryHeap.EventLog.Entry

/-!
The writer of an event log. It names the entries that have no name yet after the run and numbers
them from one on, and it enters the run into those that have none.
-/

namespace BoundaryHeap.EventLog

/-- An event log under way. -/
structure Emitter where
  runId : String
  /-- The entries named so far. This is counted without a bound, since a log does not come to hold
  as many entries as a word of 64 bits can count. -/
  named : Nat
  /-- The lines written so far. -/
  lines : Array String
  deriving Repr

namespace Emitter

/-- An empty log for a run. -/
def new (runId : String) : Emitter := ⟨runId, 0, #[]⟩

/-- The name of the entry with a number: the number has at least three digits. -/
def traceIdOf (runId : String) (number : Nat) : String :=
  s!"harness::{runId}::" ++ String.ofList (Text.padded 10 3 number)

/-- The next name. -/
def nextTraceId (e : Emitter) : String × Emitter :=
  let number := e.named + 1
  (traceIdOf e.runId number, { e with named := number })

/-- Writes the line of an entry. -/
def writeLine (e : Emitter) (entry : Entry) : Emitter :=
  { e with lines := e.lines.push entry.line }

/-- Writes an entry that has only its level and its event; the answer is the entry. -/
def emit (e : Emitter) (timestamp : String) (level : Level) (event : String) : Entry × Emitter :=
  let (traceId, e) := e.nextTraceId
  let entry := { Entry.new timestamp traceId level event with runId := some e.runId }
  (entry, e.writeLine entry)

/-- An entry with the name and the run that it lacks. -/
def complete (e : Emitter) (entry : Entry) : Entry × Emitter :=
  let (entry, e) :=
    if entry.traceId.isEmpty then
      let (traceId, e) := e.nextTraceId
      ({ entry with traceId }, e)
    else (entry, e)
  ({ entry with runId := some (entry.runId.getD e.runId) }, e)

/-- Writes an entry. -/
def emitEntry (e : Emitter) (entry : Entry) : Emitter :=
  let (entry, e) := e.complete entry
  e.writeLine entry

/-- The lines written so far, and the log without them. -/
def drain (e : Emitter) : List String × Emitter := (e.lines.toList, { e with lines := #[] })

/-- The text of the log: every line with a line break. -/
def text (e : Emitter) : String := String.join (e.lines.toList.map (· ++ "\n"))

end Emitter

end BoundaryHeap.EventLog
