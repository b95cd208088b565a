import BoundaryHeap.Json.Printer
import BoundaryHeap.Json.Reader
import BoundaryHeap.Lifecycle

/-!
The entries of an event log. An entry is one line of JSON: an object that has a member for each
field that is set, in a fixed order.
-/

namespace BoundaryHeap.EventLog

open Json (Value Fields member?)

/-- How what an entry tells of ended. -/
inductive Outcome where
  | pass
  | fail
  | error
  deriving Repr, DecidableEq

namespace Outcome

/-- The name of an outcome. -/
def name : Outcome → String
  | pass => "pass"
  | fail => "fail"
  | error => "error"

/-- The outcome of a name, which has to be written exactly. -/
def ofName? : String → Option Outcome
  | "pass" => some pass
  | "fail" => some fail
  | "error" => some error
  | _ => none

end Outcome

/-- One entry of an event log. -/
structure Entry where
  timestamp : String
  /-- The name under which other logs can refer to the entry. -/
  traceId : String
  level : Level
  event : String
  runId : Option String
  /-- The operation of the heap that was called. -/
  symbol : Option String
  ptr : Option Nat
  size : Option Nat
  outcome : Option Outcome
  /-- How long a whole step took, in milliseconds. -/
  duration : Option Nat
  details : Option Value

namespace Entry

/-- An entry with none of the optional fields set. -/
def new (timestamp traceId : String) (level : Level) (event : String) : Entry :=
  { timestamp, traceId, level, event
    runId := none
    symbol := none
    ptr := none
    size := none
    outcome := none
    duration := none
    details := none }

/-- The entry for a record of a heap. -/
def ofRecord (timestamp : String) (record : Record) : Entry :=
  { new timestamp record.traceId record.level record.event with
    symbol := some record.symbol
    ptr := record.ptr
    size := record.size
    details := some (Value.ofMembers
      [("decision_id", .natural record.id), ("outcome", .string record.outcome),
        ("details", .string record.details), ("arena_bytes", .natural record.arenaBytes),
        ("free_blocks", .natural record.freeBlocks)]) }

/-- A member for a field that is set. -/
def optional {α : Type} (key : String) (write : α → Value) : Option α → List (String × Value)
  | some value => [(key, write value)]
  | none => []

/-- The members of an entry. -/
def members (e : Entry) : List (String × Value) :=
  [("timestamp", .string e.timestamp), ("trace_id", .string e.traceId),
    ("level", .string e.level.name), ("event", .string e.event)] ++
    optional "run_id" .string e.runId ++
    optional "symbol" .string e.symbol ++
    optional "ptr" .natural e.ptr ++
    optional "size" .natural e.size ++
    optional "outcome" (fun outcome => .string outcome.name) e.outcome ++
    optional "duration_ms" .natural e.duration ++
    optional "details" id e.details

/-- An entry as a JSON value. -/
def toJson (e : Entry) : Value := .object e.members

/-- The line of an entry, without the line break. -/
def line (e : Entry) : String := e.toJson.compact

/-- The name that a value stands for: a text, or an object whose only member is null. -/
def variantName? : Value → Option String
  | .string name => some name
  | .object [(name, .null)] => some name
  | _ => none

/-- The level with exactly this name. -/
def levelOfName? (name : String) : Option Level :=
  [Level.trace, .debug, .info, .warn, .error].find? fun level => level.name == name

/-- Reads a field that may be left out or be null. -/
def optionalOf? {α : Type} (read : Value → Option α) : Option Value → Option (Option α)
  | none => some none
  | some .null => some none
  | some value => (read value).map some

/-- The entry that the values of its fields make up; only the optional ones may be missing. -/
def ofValues? (timestamp traceId level event : Value)
    (runId symbol ptr size outcome duration details : Option Value) : Option Entry := do
  return {
    timestamp := ← timestamp.string?
    traceId := ← traceId.string?
    level := ← levelOfName? (← variantName? level)
    event := ← event.string?
    runId := ← optionalOf? Value.string? runId
    symbol := ← optionalOf? Value.string? symbol
    ptr := ← optionalOf? Value.natural? ptr
    size := ← optionalOf? Value.natural? size
    outcome := ← optionalOf? (fun value => do Outcome.ofName? (← variantName? value)) outcome
    duration := ← optionalOf? Value.natural? duration
    details := ← optionalOf? (fun value => some value.normalize) details }

/-- The names of the fields. -/
def fieldNames : List String :=
  ["timestamp", "trace_id", "level", "event", "run_id", "symbol", "ptr", "size", "outcome",
    "duration_ms", "details"]

/-- The entry with given members. -/
def ofMembers? (members : List (String × Value)) : Option Entry := do
  let timestamp ← member? "timestamp" members
  let traceId ← member? "trace_id" members
  let level ← member? "level" members
  let event ← member? "event" members
  ofValues? (← timestamp) (← traceId) (← level) (← event)
    (← member? "run_id" members) (← member? "symbol" members) (← member? "ptr" members)
    (← member? "size" members) (← member? "outcome" members)
    (← member? "duration_ms" members) (← member? "details" members)

/-- The entry that a line stands for. Members other than its fields do not matter; an array has to
hold the values of all fields in order. -/
def ofLine? (line : String) : Option Entry := do
  match ← Fields.ofText? fieldNames.contains line with
  | .named members => ofMembers? members
  | .positional [timestamp, traceId, level, event, runId, symbol, ptr, size, outcome, duration,
      details] =>
    ofValues? timestamp traceId level event (some runId) (some symbol) (some ptr) (some size)
      (some outcome) (some duration) (some details)
  | .positional _ => none

end Entry

end BoundaryHeap.EventLog
