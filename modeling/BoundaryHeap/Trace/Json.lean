import BoundaryHeap.Json.Printer
import BoundaryHeap.Json.Reader
import BoundaryHeap.Trace.Basic

/-!
Traces as JSON. A trace is an object of its fields, and an operation is an object whose member `op`
names its kind. Both may also be written as arrays of the same values in order.
-/

namespace BoundaryHeap

open Json

/-- An operation as a JSON value. -/
def TraceOp.toJson : TraceOp → Value
  | alloc id size =>
    .object [("op", .string "alloc"), ("id", .natural id), ("size", .natural size)]
  | realloc id size =>
    .object [("op", .string "realloc"), ("id", .natural id), ("size", .natural size)]
  | free id => .object [("op", .string "free"), ("id", .natural id)]

/-- A trace as a JSON value. -/
def Trace.toJson (t : Trace) : Value :=
  .object
    [("suggested_heap_size", .natural t.suggestedHeapSize), ("num_ids", .natural t.idCount),
      ("weight", .natural t.weight), ("ops", .array (t.ops.map TraceOp.toJson))]

/-- The whole number in the member with a key, which has to be there once. -/
def naturalMember? (key : String) (members : List (String × Value)) : Option Nat := do
  let held ← member? key members
  (← held).natural?

namespace TraceOp

/-- The operation of a kind, with its operands as named members. -/
def ofMembers? (kind : String) (members : List (String × Value)) : Option TraceOp := do
  match kind with
  | "alloc" => return alloc (← naturalMember? "id" members) (← naturalMember? "size" members)
  | "realloc" => return realloc (← naturalMember? "id" members) (← naturalMember? "size" members)
  | "free" => return free (← naturalMember? "id" members)
  | _ => none

/-- The operation of a kind, with its operands in order. -/
def ofItems? (kind : String) (items : List Value) : Option TraceOp := do
  match kind, items with
  | "alloc", [id, size] => return alloc (← id.natural?) (← size.natural?)
  | "realloc", [id, size] => return realloc (← id.natural?) (← size.natural?)
  | "free", [id] => return free (← id.natural?)
  | _, _ => none

/-- The operation that a JSON value stands for. -/
def ofJson? : Value → Option TraceOp
  | .object members => do
    let held ← member? "op" members
    let kind ← (← held).string?
    ofMembers? kind members
  | .array (kind :: items) => do ofItems? (← kind.string?) items
  | _ => none

end TraceOp

/-- The operations that a JSON array stands for. -/
def Trace.opsOfJson? (value : Value) : Option (List TraceOp) := do
  (← value.items?).mapM TraceOp.ofJson?

/-- The trace that a JSON text stands for. Members other than its fields do not matter. -/
def Trace.ofJsonText? (text : String) : Option Trace := do
  let known := ["suggested_heap_size", "num_ids", "weight", "ops"]
  match ← Fields.ofText? known.contains text with
  | .named members =>
    let ops ← member? "ops" members
    return {
      suggestedHeapSize := ← naturalMember? "suggested_heap_size" members
      idCount := ← naturalMember? "num_ids" members
      weight := ← naturalMember? "weight" members
      ops := ← opsOfJson? (← ops) }
  | .positional [suggestedHeapSize, idCount, weight, ops] =>
    return {
      suggestedHeapSize := ← suggestedHeapSize.natural?
      idCount := ← idCount.natural?
      weight := ← weight.natural?
      ops := ← opsOfJson? ops }
  | .positional _ => none

end BoundaryHeap
