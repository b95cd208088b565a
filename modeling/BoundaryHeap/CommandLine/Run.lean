import BoundaryHeap.CommandLine.LogFile
import BoundaryHeap.CommandLine.Settings
import BoundaryHeap.Replay.Timed
import BoundaryHeap.Summary.Json
import BoundaryHeap.Summary.Markdown
import BoundaryHeap.Text.Quoted
import BoundaryHeap.Trace.Reader
import BoundaryHeap.Workload.Generate

/-!
The two commands of the program: one replays trace files and writes a summary and an event log, the
other generates a trace file. A command that fails says why and the program then ends with code one;
a command line without sense ends it with code two.
-/

namespace BoundaryHeap.CommandLine

open EventLog (Entry)

/-- Why a command failed. -/
inductive Failure where
  | option (error : OptionError)
  /-- Some traces could not be replayed. -/
  | traces (failed total : Nat)
  | file (error : FileError)
  /-- A trace could not be written. -/
  | traceFile (error : FileError)
  /-- A computation left the range of its numbers. -/
  | fault (fault : Fault)
  deriving Repr, DecidableEq

/-- The last line of a failed command, without what announces it. -/
def Failure.text : Failure → String
  | option error => Text.quote error.message
  | traces failed total => Text.quote s!"{failed} of {total} traces failed"
  | file error => error.detail
  | traceFile error => s!"Io({error.detail})"
  | fault .outOfRange => "memory access out of range"
  | fault .overflow => "number out of range"
  | fault .endlessList => "free list runs in a circle"
  | fault .capacity => "capacity overflow"

/-- The code that the program ends with. -/
def Failure.exitCode : Failure → UInt32
  | fault _ => 101
  | _ => 1

variable {m : Type → Type} [Monad m] [Host m]

/-- A result of the system, as a step of a command. -/
def ofFile {α : Type} (act : m (Except FileError α)) (wrap : FileError → Failure) :
    ExceptT Failure m α := do
  match ← act with
  | .ok answer => return answer
  | .error error => throw (wrap error)

/-- A result of the library, as a step of a command. -/
def ofFault {α : Type} : Except Fault α → ExceptT Failure m α
  | .ok answer => return answer
  | .error error => throw (.fault error)

/-- Adds an entry to the log, if there is one. -/
def logEntry (log : Option LogFile) (entry : String → Entry) :
    ExceptT Failure m (Option LogFile) := do
  match log with
  | none => return none
  | some log =>
    let timestamp ← Host.timestamp (m := m)
    return some (← ofFile (log.add (entry timestamp)).run .file)

/-- Adds the records of a heap to the log, if there is one. -/
def logRecords (log : Option LogFile) (records : List Record) :
    ExceptT Failure m (Option LogFile) :=
  match log with
  | none => return none
  | some _ => records.foldlM (fun log record => logEntry log (Entry.ofRecord · record)) log

/-- An object with sorted members, as the details of an entry. -/
def details (members : List (String × Json.Value)) : Option Json.Value :=
  some (Json.Value.ofMembers members)

/-- Reads and replays one trace file. -/
def replayFile (path : String) (options : Replay.Options) (log : Option LogFile) :
    ExceptT Failure m (TraceRun × Option LogFile) := do
  let read ← Host.readText (m := m) path
  let trace := match read with
    | .ok text => Trace.ofText text
    | .error error => .error (.unreadable error.message)
  match trace with
  | .error error =>
    let log ← logEntry log fun timestamp =>
      { Entry.new timestamp "" .error "trace_rejected" with
        outcome := some .error
        details := details [("trace", .string path), ("error", .string error.message)] }
    return (.failed path 0 error.message, log)
  | .ok trace =>
    let log ← logEntry log fun timestamp =>
      { Entry.new timestamp "" .info "replay_start" with
        details := details [("trace", .string path), ("ops", .natural trace.ops.length),
          ("sha256", .string trace.sha256)] }
    let started ← Host.nanoseconds (m := m)
    let outcome ← ofFault (← (Replay.runTimed (Host.nanoseconds (m := m)) trace options).run)
    let log ← logRecords log outcome.records
    let took := (← Host.nanoseconds (m := m)) - started
    let (run, level, event, ended, error) := match outcome.result with
      | .ok report =>
        (TraceRun.passed path trace.weight report, Level.info, "replay_done",
          EventLog.Outcome.pass, Json.Value.null)
      | .error error =>
        (TraceRun.failed path trace.weight error.message, Level.error, "replay_failed",
          EventLog.Outcome.fail, Json.Value.string error.message)
    let log ← logEntry log fun timestamp =>
      { Entry.new timestamp "" level event with
        outcome := some ended
        duration := some (min (took / 1000000) (wordLimit - 1))
        details := details [("trace", .string path), ("error", error)] }
    return (run, log)

/-- Replays trace files one after the other. -/
def replayFiles (options : Replay.Options) (log : Option LogFile) :
    List String → ExceptT Failure m (List TraceRun × Option LogFile)
  | [] => return ([], log)
  | path :: rest => do
    Host.report (m := m) s!"Replaying {path}\n"
    let (run, log) ← replayFile path options log
    match run.error with
    | some error => Host.report (m := m) s!"  FAIL: {error}\n"
    | none => pure ()
    let (runs, log) ← replayFiles options log rest
    return (run :: runs, log)

/-- Replays trace files and writes the summary and the log. -/
def replay (request : ReplayRequest) : ExceptT Failure m Unit := do
  let environment ← Host.environment (m := m)
  let config ← match configFor environment request with
    | .ok config => pure config
    | .error error => throw (.option error)
  let log ← match request.log with
    | none => pure none
    | some path => some <$> ofFile (LogFile.create path).run .file
  let (runs, log) ← replayFiles ⟨config, request.check⟩ log request.traces
  if let some log := log then
    discard (ofFile log.flush.run .file)
  let summary ← ofFault (Summary.ofRuns (← Host.timestamp (m := m)) runs)
  match request.output with
  | some path =>
    ofFile (Host.store (m := m) path summary.jsonText) .file
    Host.report (m := m) s!"Wrote summary to {path}\n"
  | none => Host.print (m := m) summary.markdown
  if !summary.allPassed then
    throw (.traces summary.failed summary.traces)

/-- Generates a trace and writes it to a file. -/
def synthesize (request : SynthesizeRequest) : ExceptT Failure m Unit := do
  let profile ← match Workload.Profile.ofName? request.profile with
    | some profile => pure profile
    | none => throw (.option (.unknownProfile request.profile))
  let seed ← match Text.setting? request.seed.toList with
    | some seed => pure seed
    | none => throw (.option (.invalidSeed request.seed))
  let trace ← ofFault
    (Workload.generate profile (UInt64.ofNat seed) request.ops request.maxSize)
  ofFile (Host.store (m := m) request.output trace.text) .traceFile
  Host.report (m := m)
    s!"Wrote {trace.ops.length} ops ({trace.idCount} ids) to {request.output}\n"

/-- How the program is called. -/
def usage : String :=
  "Usage: replay --trace FILE... [--check] [--split-threshold N] [--placement NAME]\n" ++
    "              [--chunk-size N] [--max-arena N] [--output FILE] [--log FILE]\n" ++
    "              [--log-level NAME]\n" ++
    "       synthesize --profile NAME [--seed N] [--ops N] [--max-size N] --output FILE\n"

/-- Runs the program; the answer is the code that it ends with. -/
def run (arguments : List String) : m UInt32 := do
  let act : Except Refusal (ExceptT Failure m Unit) := match Request.ofArguments arguments with
    | .ok (.replay request) => .ok (replay request)
    | .ok (.synthesize request) => .ok (synthesize request)
    | .ok .help => .error .help
    | .error refusal => .error refusal
  match act with
  | .error .help =>
    Host.print usage
    return 0
  | .error .malformed =>
    Host.report usage
    return 2
  | .ok act =>
    match ← act.run with
    | .ok () => return 0
    | .error failure =>
      Host.report s!"Error: {failure.text}\n"
      return failure.exitCode

end BoundaryHeap.CommandLine
