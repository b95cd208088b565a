import BoundaryHeap.Replay.Run

/-!
Replays beside a clock. Time counts between two readings of the clock, one right before a call of
the heap and one right after it. To lay out the heap, to test and fill blocks and to scan the heap
takes no time that counts.
-/

namespace BoundaryHeap.Replay

variable {m : Type → Type} [Monad m] {α : Type}

/-- A part of a replay beside a clock. The state of the replay goes together with the time, in
nanoseconds, that the calls of the heap have taken. -/
abbrev TimedStep (m : Type → Type) (α : Type) :=
  ExceptT ReplayError (StateT (State × Nat) (ExceptT Fault m)) α

/-- What calls no heap takes no time. -/
instance : MonadLift Step (TimedStep m) where
  monadLift part := ExceptT.mk fun (s, spent) => do
    let (ended, s) ← part.run.result s
    return (ended, s, spent)

/-- Counts a time that a call of the heap has taken. -/
def spend (nanoseconds : Nat) : TimedStep m Unit :=
  ExceptT.mk fun (s, spent) => return (.ok (), s, spent + nanoseconds)

/-- A call of the heap between two readings of the clock. -/
def timed (clock : m Nat) (act : Action (Heap LimitedArena) α) : TimedStep m α := do
  let before ← clock
  let answer ← onHeap act
  let after ← clock
  spend (after - before)
  return answer

/-- The same outcome of a replay whose calls of the heap took some time. -/
def Outcome.withTime (outcome : Outcome) (nanoseconds : Nat) : Outcome :=
  { outcome with result := outcome.result.map (·.withTime nanoseconds) }

/-- Replays a trace against a fresh heap and puts the time that the calls of the heap take into the
report. -/
def runTimed (clock : m Nat) (trace : Trace) (options : Options) : ExceptT Fault m Outcome := do
  match ← start trace options with
  | .error outcome => return outcome
  | .ok s =>
    let (ended, s, spent) ←
      (applyAllWith (timed clock) options trace.idCount 0 trace.ops).run.run (s, 0)
    return (← finish trace options ended s).withTime spent

end BoundaryHeap.Replay
