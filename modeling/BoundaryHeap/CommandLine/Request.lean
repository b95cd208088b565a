import BoundaryHeap.Text.Number

/-!
Command lines. A command line names one of two commands and its options; each option is written in
full after two dashes, with its value after an equals sign or as the next argument. An argument that
begins with a dash is never a value unless it is a dash alone.
-/

namespace BoundaryHeap.CommandLine

/-- The options of the command that replays traces. -/
structure ReplayRequest where
  traces : List String
  /-- Test pointers, and scan the heap after every operation. -/
  check : Bool
  splitThreshold : Option Nat
  placement : Option String
  chunkSize : Option Nat
  maxArena : Option Nat
  /-- Where the summary goes; without it the summary is printed. -/
  output : Option String
  /-- Where the event log goes. -/
  log : Option String
  logLevel : String
  deriving Repr, DecidableEq

/-- The options of the command that generates a trace. -/
structure SynthesizeRequest where
  profile : String
  seed : String
  ops : Nat
  maxSize : Nat
  output : String
  deriving Repr, DecidableEq

/-- What a command line asks for. -/
inductive Request where
  | replay (request : ReplayRequest)
  | synthesize (request : SynthesizeRequest)
  /-- An explanation of the command line. -/
  | help
  deriving Repr, DecidableEq

/-- How many values an option takes each time it is written. -/
inductive Arity where
  | none
  | one
  /-- One or more, as long as the arguments that follow are values. -/
  | many
  deriving Repr, DecidableEq

/-- An option as it was written. -/
structure Occurrence where
  name : String
  values : List String
  deriving Repr, DecidableEq

/-- Why a command line is not carried out as it stands. -/
inductive Refusal where
  /-- It makes no sense. -/
  | malformed
  /-- It asks for help. -/
  | help
  deriving Repr, DecidableEq

/-- Whether an argument can be the value of an option. -/
def isValue (argument : String) : Bool :=
  match argument.toList with
  | '-' :: _ :: _ => false
  | _ => true

/-- The name of an option and the value written together with it. -/
def splitOption (option : List Char) : String × Option String :=
  let name := String.ofList (option.takeWhile (· ≠ '='))
  match option.dropWhile (· ≠ '=') with
  | _ :: value => (name, some (String.ofList value))
  | [] => (name, none)

/-- The options that arguments hold, up to one that asks for help. -/
structure Written where
  options : List Occurrence
  /-- Whether help is asked for. -/
  help : Bool
  deriving Repr, DecidableEq

/-- The same options behind one more. -/
def Written.after (written : Written) (option : Occurrence) : Written :=
  { written with options := option :: written.options }

/-- The options that arguments hold. Two dashes alone end the options, and no argument may follow
them. What follows a question for help does not matter. -/
def occurrences (arity : String → Option Arity) : Nat → List String → Except Refusal Written
  | 0, _ => .ok ⟨[], false⟩
  | _, [] => .ok ⟨[], false⟩
  | fuel + 1, argument :: rest =>
    match argument.toList with
    | ['-', '-'] => if rest.isEmpty then .ok ⟨[], false⟩ else .error .malformed
    | '-' :: '-' :: option => do
      let (name, attached) := splitOption option
      match arity name, attached with
      | some .none, none => return (← occurrences arity fuel rest).after ⟨name, []⟩
      | some .one, some value => return (← occurrences arity fuel rest).after ⟨name, [value]⟩
      | some .many, some value => return (← occurrences arity fuel rest).after ⟨name, [value]⟩
      | some .one, none =>
        match rest with
        | value :: rest =>
          if isValue value then return (← occurrences arity fuel rest).after ⟨name, [value]⟩
          else throw .malformed
        | [] => throw .malformed
      | some .many, none =>
        let values := rest.takeWhile isValue
        if values.isEmpty then throw .malformed
        else return (← occurrences arity fuel (rest.dropWhile isValue)).after ⟨name, values⟩
      | _, _ =>
        if name = "help" ∧ attached.isNone then return ⟨[], true⟩ else throw .malformed
    | '-' :: 'h' :: _ => .ok ⟨[], true⟩
    | _ => .error .malformed

/-- The values of an option that may be written several times. -/
def valuesOf (name : String) (written : List Occurrence) : List String :=
  (written.filter (·.name == name)).flatMap (·.values)

/-- The value of an option that may be written once. -/
def valueOf (name : String) (written : List Occurrence) : Except Refusal (Option String) :=
  match written.filter (·.name == name) with
  | [] => .ok none
  | [occurrence] => .ok occurrence.values.head?
  | _ => .error .malformed

/-- Whether an option without a value is written; it may be written once. -/
def isWritten (name : String) (written : List Occurrence) : Except Refusal Bool :=
  match written.filter (·.name == name) with
  | [] => .ok false
  | [_] => .ok true
  | _ => .error .malformed

/-- A path, which may not be empty. -/
def pathOf (value : String) : Except Refusal String :=
  if value.isEmpty then .error .malformed else .ok value

/-- The path in an option. -/
def pathOption (name : String) (written : List Occurrence) : Except Refusal (Option String) := do
  (← valueOf name written).mapM pathOf

/-- The number in an option. -/
def numberOption (name : String) (written : List Occurrence) : Except Refusal (Option Nat) := do
  (← valueOf name written).mapM fun value =>
    match Text.decimal? value.toList with
    | some number => .ok number
    | none => .error .malformed

/-- What an option has to hold if it cannot be left out. -/
def required {α : Type} : Option α → Except Refusal α
  | some value => .ok value
  | none => .error .malformed

/-- The options of the command that replays traces. -/
def replayArity : String → Option Arity
  | "trace" => some .many
  | "check" => some .none
  | "split-threshold" => some .one
  | "placement" => some .one
  | "chunk-size" => some .one
  | "max-arena" => some .one
  | "output" => some .one
  | "log" => some .one
  | "log-level" => some .one
  | _ => none

/-- The options of the command that generates a trace. -/
def synthesizeArity : String → Option Arity
  | "profile" => some .one
  | "seed" => some .one
  | "ops" => some .one
  | "max-size" => some .one
  | "output" => some .one
  | _ => none

/-- The request to replay traces that options make. Help is given if the options in front make
sense, even if others are missing. -/
def ReplayRequest.ofWritten (written : Written) : Except Refusal ReplayRequest := do
  let options := written.options
  let request : ReplayRequest :=
    { traces := ← (valuesOf "trace" options).mapM pathOf
      check := ← isWritten "check" options
      splitThreshold := ← numberOption "split-threshold" options
      placement := ← valueOf "placement" options
      chunkSize := ← numberOption "chunk-size" options
      maxArena := ← numberOption "max-arena" options
      output := ← pathOption "output" options
      log := ← pathOption "log" options
      logLevel := (← valueOf "log-level" options).getD "info" }
  if written.help then throw .help
  if request.traces.isEmpty then throw .malformed
  return request

/-- The request to generate a trace that options make. Help is given if the options in front make
sense, even if others are missing. -/
def SynthesizeRequest.ofWritten (written : Written) : Except Refusal SynthesizeRequest := do
  let options := written.options
  let profile ← valueOf "profile" options
  let seed ← valueOf "seed" options
  let ops ← numberOption "ops" options
  let maxSize ← numberOption "max-size" options
  let output ← pathOption "output" options
  if written.help then throw .help
  return {
    profile := ← required profile
    seed := seed.getD "0x5EED"
    ops := ops.getD 10000
    maxSize := maxSize.getD 4096
    output := ← required output }

/-- The request that the arguments of the program make. -/
def Request.ofArguments : List String → Except Refusal Request
  | "replay" :: arguments => do
    let written ← occurrences replayArity (arguments.length + 1) arguments
    return .replay (← ReplayRequest.ofWritten written)
  | "synthesize" :: arguments => do
    let written ← occurrences synthesizeArity (arguments.length + 1) arguments
    return .synthesize (← SynthesizeRequest.ofWritten written)
  | ["help"] => .ok .help
  | ["help", "replay"] => .ok .help
  | ["help", "synthesize"] => .ok .help
  | ["help", "help"] => .ok .help
  | argument :: _ =>
    match argument.toList with
    | '-' :: 'h' :: _ => .error .help
    | _ => if argument = "--help" then .error .help else .error .malformed
  | [] => .error .malformed

end BoundaryHeap.CommandLine
