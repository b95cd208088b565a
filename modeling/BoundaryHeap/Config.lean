import BoundaryHeap.Arena
import BoundaryHeap.Block
import BoundaryHeap.Lifecycle

/-!
The settings of one heap: how far it grows at a time, which end of a free block it hands out, how
much it checks of its own accord, which records it keeps and how long its memory may get.
-/

namespace BoundaryHeap

/-- The end of a free block that an allocation takes when something is left over. -/
inductive Side where
  /-- The low addresses; the rest follows. -/
  | front
  /-- The high addresses; the rest comes first. -/
  | back
  deriving Repr, DecidableEq

/-- The name of a side. -/
def Side.name : Side → String
  | front => "front"
  | back => "back"

/-- How the side is chosen. -/
inductive Placement where
  /-- Blocks above a size go to the front and the others to the back. -/
  | threshold (limit : Nat)
  | front
  | back
  deriving Repr, DecidableEq

namespace Placement

/-- The threshold of a heap that is given none. -/
def defaultThreshold : Nat := 100

/-- The side for a block of `size` bytes. -/
def side (p : Placement) (size : Nat) : Side :=
  match p with
  | threshold limit => if limit < size then .front else .back
  | front => .front
  | back => .back

/-- The name of a policy. -/
def name : Placement → String
  | threshold _ => "threshold"
  | front => "front"
  | back => "back"

/-- The threshold of a policy that has one. -/
def limit? : Placement → Option Nat
  | threshold limit => some limit
  | _ => none

/-- The policy of a name, written in any mix of cases; `limit` is its threshold if it has one. -/
def ofName? (name : String) (limit : Nat) : Option Placement :=
  match name.toLower with
  | "threshold" => some (threshold limit)
  | "default" => some (threshold limit)
  | "size" => some (threshold limit)
  | "front" => some front
  | "always-front" => some front
  | "first" => some front
  | "back" => some back
  | "always-back" => some back
  | "tail" => some back
  | _ => none

end Placement

/-- How much a heap checks of its own accord. -/
inductive CheckLevel where
  /-- Nothing. Releasing what is not allocated has no meaning then. -/
  | off
  /-- The pointers given to release and resize. -/
  | validate
  /-- Those pointers, and the whole heap after every operation. -/
  | paranoid
  deriving Repr, DecidableEq

namespace CheckLevel

/-- Whether pointers are tested before they are used. -/
def testsPointers (c : CheckLevel) : Bool := c ≠ off

/-- Whether the whole heap is scanned after every operation. -/
def scansAlways (c : CheckLevel) : Bool := c = paranoid

/-- The name of a level. -/
def name : CheckLevel → String
  | off => "off"
  | validate => "validate"
  | paranoid => "paranoid"

/-- The level as the record of a layout shows it. -/
def title : CheckLevel → String
  | off => "Off"
  | validate => "Validate"
  | paranoid => "Paranoid"

/-- The level of a name, written in any mix of cases. Any other name turns checking off. -/
def ofName (name : String) : CheckLevel :=
  match name.toLower with
  | "validate" => validate
  | "pointers" => validate
  | "on" => validate
  | "1" => validate
  | "paranoid" => paranoid
  | "full" => paranoid
  | "scan" => paranoid
  | "2" => paranoid
  | _ => off

end CheckLevel

/-- The settings of one heap. -/
structure HeapConfig where
  /-- The fewest bytes by which the memory grows when no free block fits. -/
  chunkSize : Nat
  placement : Placement
  check : CheckLevel
  /-- Records below this level are not kept. -/
  logLevel : Level
  /-- The limit of the arena that a heap makes for itself. -/
  maxArenaBytes : Nat
  deriving Repr, DecidableEq

namespace HeapConfig

/-- The chunk size of a heap that is given none: 4 KiB. -/
def defaultChunkSize : Nat := 4096

/-- The settings of a heap that is given none. -/
def standard : HeapConfig :=
  { chunkSize := defaultChunkSize
    placement := .threshold Placement.defaultThreshold
    check := .off
    logLevel := .info
    maxArenaBytes := LimitedArena.defaultLimit }

/-- Sets the chunk size, rounded up to the alignment. Zero, and a size that cannot be rounded up,
leave it as it is. -/
def withChunkSize (c : HeapConfig) (size : Nat) : HeapConfig :=
  if size = 0 then c
  else match Block.roundUp size with
    | some rounded => { c with chunkSize := rounded }
    | none => c

end HeapConfig

end BoundaryHeap
