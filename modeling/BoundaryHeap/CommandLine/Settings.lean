import BoundaryHeap.CommandLine.Request
import BoundaryHeap.Config.Environment

/-!
The settings of the heap that a replay runs on: the environment gives them and options override
them. The threshold of an option comes first; a threshold in the environment counts only if the
environment itself asks for placement by threshold.
-/

namespace BoundaryHeap.CommandLine

/-- Why a command cannot use the value of an option. -/
inductive OptionError where
  | unknownPlacement (name : String)
  | unknownLevel (name : String)
  | unknownProfile (name : String)
  | invalidSeed (text : String)
  deriving Repr, DecidableEq

/-- What an error says to a person. -/
def OptionError.message : OptionError → String
  | unknownPlacement name => s!"unknown placement `{name}`"
  | unknownLevel name => s!"unknown log level `{name}`"
  | unknownProfile name => s!"unknown profile `{name}`"
  | invalidSeed text => s!"invalid seed `{text}`"

/-- The threshold for a replay, given what the environment asks for. -/
def threshold (option : Option Nat) (placement : Placement) : Nat :=
  option.getD (placement.limit?.getD Placement.defaultThreshold)

/-- The placement for a replay, given what the environment asks for. -/
def placementFor (request : ReplayRequest) (placement : Placement) :
    Except OptionError Placement :=
  let limit := threshold request.splitThreshold placement
  match request.placement with
  | some name =>
    match Placement.ofName? name limit with
    | some placement => .ok placement
    | none => .error (.unknownPlacement name)
  | none =>
    match placement with
    | .threshold _ => .ok (.threshold limit)
    | other => .ok other

/-- The settings for a replay. -/
def configFor (environment : Environment) (request : ReplayRequest) :
    Except OptionError HeapConfig := do
  let base := HeapConfig.ofEnvironment environment
  let base := match request.chunkSize with
    | some size => base.withChunkSize size
    | none => base
  let placement ← placementFor request base.placement
  let check := if request.check ∧ base.check = .off then .validate else base.check
  match Level.ofName? request.logLevel with
  | none => throw (.unknownLevel request.logLevel)
  | some logLevel =>
    return { base with
      placement, check, logLevel
      maxArenaBytes := request.maxArena.getD base.maxArenaBytes }

end BoundaryHeap.CommandLine
