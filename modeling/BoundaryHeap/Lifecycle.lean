import BoundaryHeap.Text.Padded

/-!
Lifecycle records tell what a heap did, one record per event. The heap numbers the records it
keeps from one on and keeps only those of at least its configured level.
-/

namespace BoundaryHeap

/-- How severe a record is, from the most talkative level to the gravest. -/
inductive Level where
  | trace
  | debug
  | info
  | warn
  | error
  deriving Repr, DecidableEq

namespace Level

/-- The place of a level in the order of severity. -/
def severity : Level → Nat
  | trace => 0
  | debug => 1
  | info => 2
  | warn => 3
  | error => 4

/-- The name of a level. -/
def name : Level → String
  | trace => "trace"
  | debug => "debug"
  | info => "info"
  | warn => "warn"
  | error => "error"

/-- The level of a name, written in any mix of cases. -/
def ofName? (name : String) : Option Level :=
  match name.toLower with
  | "trace" => some trace
  | "debug" => some debug
  | "info" => some info
  | "warn" => some warn
  | "warning" => some warn
  | "error" => some error
  | _ => none

theorem ofName?_name (level : Level) : ofName? level.name = some level := by
  cases level <;> decide +kernel

end Level

/-- One event in the life of a heap. -/
structure Record where
  /-- The number of the record. -/
  id : Nat
  /-- The name under which other logs can refer to the record. -/
  traceId : String
  level : Level
  /-- The operation of the heap that was called. -/
  symbol : String
  /-- What happened in it. -/
  event : String
  /-- The block concerned. -/
  ptr : Option Nat
  /-- The size concerned. -/
  size : Option Nat
  /-- How it ended. -/
  outcome : String
  details : String
  /-- The size of the memory when the record was made. -/
  arenaBytes : Nat
  /-- The length of the free list when the record was made. -/
  freeBlocks : Nat
  deriving Repr, DecidableEq

namespace Record

/-- The sixteen hexadecimal digits of a number below 2 ^ 64. -/
def hexadecimal (number : Nat) : String := String.ofList (Text.padded 16 16 number)

/-- The name of the record that an operation made under a number. -/
def traceIdOf (symbol : String) (id : Nat) : String :=
  s!"core::heap::{symbol}::{hexadecimal id}"

end Record

end BoundaryHeap
