import BoundaryHeap.CommandLine.Host
import BoundaryHeap.EventLog.Emitter

/-!
An event log on a file. What is added to it waits until there is no room for more to wait, and is
then written out together. So the file grows in large steps, and a file that takes nothing shows it
only at such a step.
-/

namespace BoundaryHeap.CommandLine

open EventLog (Emitter Entry)

/-- A log under way on a file. -/
structure LogFile where
  path : String
  /-- The writer of the lines; it keeps none of them. -/
  emitter : Emitter
  /-- What has been added and not yet been written out. -/
  waiting : String

namespace LogFile

/-- The most bytes that wait. -/
def room : Nat := 8192

/-- What is to be written out when a text is added to one that waits, and what waits after that. A
text for which there is no room makes the other give way, and one that fills all the room by itself
does not wait. -/
def queue (waiting text : String) : String × String :=
  let (out, waiting) :=
    if room < waiting.utf8ByteSize + text.utf8ByteSize then (waiting, "") else ("", waiting)
  if room ≤ text.utf8ByteSize then (out ++ text, waiting) else (out, waiting ++ text)

variable {m : Type → Type} [Monad m] [Host m]

/-- An empty log on a new file. -/
def create (path : String) : ExceptT FileError m LogFile := do
  Host.store (m := m) path ""
  return ⟨path, Emitter.new (← Host.runName (m := m)), ""⟩

/-- Writes a text to the end of the file, unless there is nothing to write. -/
def writeOut (log : LogFile) (text : String) : ExceptT FileError m Unit :=
  if text.isEmpty then return else Host.append (m := m) log.path text

/-- Adds a text to the log. -/
def addText (log : LogFile) (text : String) : ExceptT FileError m LogFile := do
  let (out, waiting) := queue log.waiting text
  log.writeOut out
  return { log with waiting }

/-- Adds an entry to the log: its line and a line break behind it. -/
def add (log : LogFile) (entry : Entry) : ExceptT FileError m LogFile := do
  let (lines, emitter) := (log.emitter.emitEntry entry).drain
  lines.foldlM (fun log line => do (← log.addText line).addText "\n") { log with emitter }

/-- Writes out all that waits. -/
def flush (log : LogFile) : ExceptT FileError m LogFile := do
  log.writeOut log.waiting
  return { log with waiting := "" }

end LogFile

end BoundaryHeap.CommandLine
