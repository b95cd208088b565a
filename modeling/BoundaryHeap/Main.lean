import BoundaryHeap.CommandLine.Run
import BoundaryHeap.EventLog.Timestamp
import Std.Time.DateTime.Timestamp

/-!
The program on a real system: its files, streams, environment and clocks.
-/

namespace BoundaryHeap.Main

open CommandLine (FileError Host)

/-- What the system says of a file it refuses. -/
def fileError : IO.Error → FileError
  | .noFileOrDirectory .. => .notFound
  | .permissionDenied .. => .denied
  | .inappropriateType _ code _ => if code = 20 then .notDirectory else .isDirectory
  | .resourceExhausted _ code text =>
    if code = 28 then .noSpace else .system code.toNat "Uncategorized" text
  | .invalidArgument _ code text =>
    if code = 36 then .nameTooLong else .system code.toNat "InvalidInput" text
  | .otherError code text => .system code.toNat "Uncategorized" text
  | error => .system 5 "Uncategorized" (toString error)

/-- The outcome of an action on a file. -/
def attempt {α : Type} (act : IO α) : IO (Except FileError α) := do
  match ← act.toBaseIO with
  | .ok answer => return .ok answer
  | .error error => return .error (fileError error)

/-- The time of day in milliseconds since the beginning of 1970. -/
def milliseconds : IO Nat := do
  let now ← Std.Time.Timestamp.now
  return now.toMillisecondsSinceUnixEpoch.val.toNat

/-- Opens a file and writes a text to it. -/
def write (mode : IO.FS.Mode) (path text : String) : IO (Except FileError Unit) := attempt do
  let handle ← IO.FS.Handle.mk path mode
  handle.putStr text
  handle.flush

instance : Host IO where
  contents path := attempt do
    let handle ← IO.FS.Handle.mk path .read
    handle.readBinToEnd
  store path text := write .write path text
  append path text := write .append path text
  print text := do (← IO.getStdout).putStr text
  report text := do (← IO.getStderr).putStr text
  lookUp name := IO.getEnv name
  timestamp := do return EventLog.Timestamp.text (← milliseconds)
  nanoseconds := IO.monoNanosNow
  runName := do
    let seconds := (← milliseconds) / 1000
    let instant ← IO.monoNanosNow
    return s!"replay-{seconds}-{instant}"

end BoundaryHeap.Main

/-- Runs the program on its arguments. -/
def main (arguments : List String) : IO UInt32 := BoundaryHeap.CommandLine.run arguments
