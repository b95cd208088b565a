import BoundaryHeap.Config
import BoundaryHeap.Text.Number

/-!
Settings from named variables. A variable that is not set, or holds a text that means nothing,
leaves the standard setting; the check level alone takes any text, an unknown one for off.
-/

namespace BoundaryHeap

/-- A look-up of variables by name. -/
abbrev Environment := String → Option String

namespace HeapConfig

/-- The number that a variable holds. -/
def number? (environment : Environment) (key : String) : Option Nat := do
  Text.setting? (← environment key).toList

/-- The settings that an environment asks for. -/
def ofEnvironment (environment : Environment) : HeapConfig :=
  let base := match number? environment "TAGHEAP_CHUNK_SIZE" with
    | some size => standard.withChunkSize size
    | none => standard
  let limit := (number? environment "TAGHEAP_SPLIT_THRESHOLD").getD Placement.defaultThreshold
  let placement :=
    ((environment "TAGHEAP_PLACEMENT").bind (Placement.ofName? · limit)).getD (.threshold limit)
  let check := ((environment "TAGHEAP_CHECK").map CheckLevel.ofName).getD base.check
  let logLevel := ((environment "TAGHEAP_LOG").bind Level.ofName?).getD base.logLevel
  { base with placement, check, logLevel }

end HeapConfig

end BoundaryHeap
