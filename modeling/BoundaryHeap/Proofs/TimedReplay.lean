import BoundaryHeap.Proofs.Replay
import BoundaryHeap.Replay.Timed

/-!
A replay beside a clock is the same replay. What the clock says goes into its report and nowhere
else, and in a replay that comes to its end the clock is read twice for each operation.
-/

namespace BoundaryHeap.Replay

variable {m : Type → Type} [Monad m] {α β : Type}

/-- The times between two readings of a clock, `count` times over, added up. -/
def laps (clock : m Nat) : Nat → m Nat
  | 0 => return 0
  | count + 1 => do
    let before ← clock
    let after ← clock
    return after - before + (← laps clock count)

/-- The result of a part of a replay, with the time that calls of the heap have taken. -/
def besides (spent : Nat) (result : Except Fault (Except ReplayError α × State)) :
    Except Fault (Except ReplayError α × State × Nat) :=
  result.map fun (ended, s) => (ended, s, spent)

@[simp] theorem besides_ok (spent : Nat) (ended : Except ReplayError α) (s : State) :
    besides spent (.ok (ended, s)) = .ok (ended, s, spent) := rfl

@[simp] theorem besides_error (spent : Nat) (fault : Fault) :
    besides spent (.error fault : Except Fault (Except ReplayError α × State)) = .error fault := rfl

/-- Beside a clock a part of a replay comes to the same result as without, whatever the clock says.
If it comes to its end, the time that counts is that of `calls` calls of the heap. What the clock is
asked does not depend on the time that has been spent before. -/
def TimedStep.Times (timed : TimedStep m α) (clock : m Nat) (part : Step α) (calls : Nat) : Prop :=
  ∀ s, ∃ time : m Nat,
    (∀ spent, (timed.run.run (s, spent)).run =
      (fun more => besides (spent + more) (part.run.result s)) <$> time) ∧
    ∀ answer s', part.run.result s = .ok (.ok answer, s') → time = laps clock calls

theorem Step.result_bind (part : Step α) (rest : α → Step β) (s : State) :
    (part >>= rest).run.result s =
      match part.run.result s with
      | .error fault => .error fault
      | .ok (.error error, s) => .ok (.error error, s)
      | .ok (.ok answer, s) => (rest answer).run.result s := by
  simp only [Action.result, ExceptT.run_bind, EStateM.run_bind]
  obtain ⟨ended | answer, s⟩ | ⟨fault, s⟩ := part.run.run s <;> rfl

namespace TimedStep

theorem run_bind (timed : TimedStep m α) (next : α → TimedStep m β) (s : State) (spent : Nat) :
    ((timed >>= next).run.run (s, spent)).run = (timed.run.run (s, spent)).run >>= fun
      | .error fault => pure (.error fault)
      | .ok (.error error, s, spent) => pure (.ok (.error error, s, spent))
      | .ok (.ok answer, s, spent) => ((next answer).run.run (s, spent)).run := by
  simp only [ExceptT.run_bind, StateT.run_bind]
  congr 1
  funext result
  obtain fault | ⟨ended | answer, s, spent⟩ := result <;> rfl

theorem run_spend (nanoseconds : Nat) (s : State) (spent : Nat) :
    ((spend nanoseconds : TimedStep m Unit).run.run (s, spent)).run =
      pure (.ok (.ok (), s, spent + nanoseconds)) := rfl

end TimedStep

section

variable [LawfulMonad m] {clock : m Nat}

theorem laps_add (clock : m Nat) (first rest : Nat) :
    laps clock (first + rest) = do
      let earlier ← laps clock first
      let later ← laps clock rest
      return earlier + later := by
  induction first with
  | zero => simp only [Nat.zero_add, laps, pure_bind, bind_pure]
  | succ first ih =>
    rw [Nat.succ_add, laps, laps, ih]
    simp only [bind_assoc, pure_bind, Nat.add_assoc]

namespace TimedStep

theorem run_part (part : Step α) (s : State) (spent : Nat) :
    ((liftM part : TimedStep m α).run.run (s, spent)).run =
      pure (besides spent (part.run.result s)) := by
  have run : ((liftM part : TimedStep m α).run.run (s, spent)).run =
      ((liftM (part.run.result s) : ExceptT Fault m (Except ReplayError α × State)) >>=
        fun (ended, s) => pure (ended, s, spent)).run := rfl
  rw [run]
  cases part.run.result s with
  | error fault => exact pure_bind ..
  | ok result => exact pure_bind ..

theorem run_read (clock : m Nat) (s : State) (spent : Nat) :
    ((liftM clock : TimedStep m Nat).run.run (s, spent)).run =
      (fun time => .ok (.ok time, s, spent)) <$> clock := by
  simp only [liftM, monadLift, MonadLift.monadLift, ExceptT.run_lift, StateT.run_map,
    StateT.run_lift, ExceptT.run_map, bind_pure_comp, Functor.map_map]
  rfl

end TimedStep

namespace TimedStep.Times

/-- What calls no heap takes no time. -/
theorem lift (part : Step α) : (liftM part : TimedStep m α).Times clock part 0 := by
  intro s
  refine ⟨Pure.pure 0, fun spent => ?_, fun _ _ _ => rfl⟩
  rw [run_part, map_pure, Nat.add_zero]

/-- The heap is called between two readings of the clock. -/
theorem timed (act : Action (Heap LimitedArena) α) :
    (Replay.timed clock act).Times clock (onHeap act) 1 := by
  intro s
  have run : ∀ spent, ((Replay.timed clock act).run.run (s, spent)).run = do
      let before ← clock
      match (onHeap act).run.result s with
      | .error fault => Pure.pure (.error fault)
      | .ok (.error error, s) => Pure.pure (.ok (.error error, s, spent))
      | .ok (.ok answer, s) => do
        let after ← clock
        return .ok (.ok answer, s, spent + (after - before)) := by
    intro spent
    rw [Replay.timed, TimedStep.run_bind, run_read, bind_map_left]
    congr 1
    funext before
    simp only [run_bind, run_part, pure_bind]
    obtain fault | ⟨error | answer, s'⟩ := (onHeap act).run.result s
    · rfl
    · rfl
    · simp only [besides_ok, run_read, bind_map_left, run_spend, pure_bind]
      rfl
  match come : (onHeap act).run.result s with
  | .error _ | .ok (.error _, _) =>
    refine ⟨(fun _ => 0) <$> clock, fun spent => ?_, fun _ _ ended => by cases ended⟩
    rw [run, come, Functor.map_map]
    exact bind_pure_comp ..
  | .ok (.ok answer, s') =>
    refine ⟨laps clock 1, fun spent => ?_, fun _ _ _ => rfl⟩
    rw [run, come]
    simp only [laps, besides_ok, map_bind, map_pure, pure_bind, Nat.add_zero]

theorem pure (answer : α) :
    (Pure.pure answer : TimedStep m α).Times clock (Pure.pure answer) 0 := by
  intro s
  refine ⟨Pure.pure 0, fun spent => ?_, fun _ _ _ => rfl⟩
  rw [map_pure]
  rfl

theorem bind {timed : TimedStep m α} {part : Step α} {first : Nat}
    {next : α → TimedStep m β} {rest : α → Step β} {more : Nat}
    (times : timed.Times clock part first)
    (after : ∀ answer, (next answer).Times clock (rest answer) more) :
    (timed >>= next).Times clock (part >>= rest) (first + more) := by
  intro s
  obtain ⟨time, ran, whole⟩ := times s
  match come : part.run.result s with
  | .error _ | .ok (.error _, _) =>
    refine ⟨time, fun spent => ?_, fun answer s' completed => ?_⟩
    · rw [run_bind, ran, Step.result_bind, come, bind_map_left]
      exact bind_pure_comp ..
    · rw [Step.result_bind, come] at completed
      cases completed
  | .ok (.ok answer, s') =>
    obtain ⟨time', ran', whole'⟩ := after answer s'
    refine ⟨do return (← time) + (← time'), fun spent => ?_, fun answer' s'' completed => ?_⟩
    · rw [run_bind, ran, Step.result_bind, come]
      simp only [besides_ok, bind_map_left, ran', map_bind, Functor.map_map, Nat.add_assoc,
        bind_pure_comp]
    · rw [Step.result_bind, come] at completed
      rw [laps_add, whole _ _ come, whole' _ _ completed]

/-- An operation calls the heap once. -/
theorem carryOut (index : Nat) (op : TraceOp) :
    (carryOutWith (Replay.timed clock) index op).Times clock (carryOutWith onHeap index op) 1 :=
  (lift _).bind fun _ => (timed _).bind fun _ => lift _

theorem apply (idCount index : Nat) (op : TraceOp) :
    (applyWith (Replay.timed clock) idCount index op).Times clock
      (applyWith onHeap idCount index op) 1 :=
  (lift _).bind fun _ => carryOut index op

theorem applyAll (options : Options) (idCount index : Nat) (ops : List TraceOp) :
    (applyAllWith (Replay.timed clock) options idCount index ops).Times clock
      (Replay.applyAll options idCount index ops) ops.length := by
  induction ops generalizing index with
  | nil => exact pure ()
  | cons op rest ih =>
    have calls : (op :: rest).length = 1 + (0 + (0 + rest.length)) := by
      rw [List.length_cons]
      omega
    rw [calls, applyAll_cons]
    exact (apply idCount index op).bind fun _ => (lift _).bind fun _ => (lift _).bind fun _ =>
      ih (index + 1)

end TimedStep.Times

/-- A replay beside a clock, taken apart as a replay without. -/
theorem run_runTimed (clock : m Nat) (trace : Trace) (options : Options) :
    (runTimed clock trace options).run =
      match start trace options with
      | .error fault => pure (.error fault)
      | .ok (.error outcome) => pure (.ok outcome)
      | .ok (.ok s) =>
        ((applyAllWith (timed clock) options trace.idCount 0 trace.ops).run.run (s, 0)).run >>= fun
          | .error fault => pure (.error fault)
          | .ok (ended, s, spent) =>
            pure ((finish trace options ended s).map (·.withTime spent)) := by
  rw [runTimed]
  obtain fault | ⟨outcome | s⟩ := start trace options
  · exact pure_bind ..
  · exact pure_bind ..
  · refine (pure_bind ..).trans ?_
    change ExceptT.run _ = _
    rw [ExceptT.run_bind]
    congr 1
    funext played
    obtain fault | ⟨ended, s, spent⟩ := played
    · rfl
    · change ExceptT.run (liftM (finish trace options ended s) >>= _) =
        pure ((finish trace options ended s).map (·.withTime spent))
      cases finish trace options ended s <;> exact pure_bind (m := m) ..

/-- What a clock says beside a replay goes into the report, if the replay comes to its end, and
changes nothing else. It is then what the clock says of one call of the heap for each operation. -/
theorem runTimed_eq (clock : m Nat) (trace : Trace) (options : Options) :
    ∃ time : m Nat,
      (runTimed clock trace options).run =
        (fun spent => (run trace options).map (·.withTime spent)) <$> time ∧
      ∀ outcome found, run trace options = .ok outcome → outcome.result = .ok found →
        time = laps clock trace.ops.length := by
  rw [run_runTimed]
  cases started : start trace options with
  | error fault =>
    have broken : run trace options = .error fault := by rw [run, started]; rfl
    refine ⟨pure 0, ?_, fun _ _ ran => by rw [broken] at ran; cases ran⟩
    rw [broken, map_pure]
    rfl
  | ok begun =>
    rw [run, Fault.bind_of_ok started]
    obtain ⟨reason, records, rfl⟩ | ⟨heap, -, rfl⟩ := start_eq_ok started
    · refine ⟨pure 0, by rw [map_pure]; rfl, fun _ _ ran ended => ?_⟩
      cases ran
      cases ended
    · have times : (applyAllWith (timed clock) options trace.idCount 0 trace.ops).Times clock _ _ :=
        .applyAll options trace.idCount 0 trace.ops
      obtain ⟨time, played, whole⟩ := times ⟨heap, [], 0, 0, 0, 0, 0⟩
      refine ⟨time, ?_, fun outcome found completed ended => ?_⟩
      · simp only [played, bind_map_left, Nat.zero_add]
        rw [← bind_pure_comp (m := m)]
        congr 1
        funext spent
        obtain fault | ⟨ended, s⟩ :=
          (applyAll options trace.idCount 0 trace.ops).run.result ⟨heap, [], 0, 0, 0, 0, 0⟩
        · rfl
        · rfl
      · obtain ⟨⟨stopped, s⟩, played, finished⟩ := Fault.bind_eq_ok.mp completed
        cases stopped with
        | error error =>
          cases finished
          cases ended
        | ok done => exact whole done s played

end

/-! ## A steady clock -/

/-- A clock that goes on by `tick` with every reading. -/
def steady (tick : Nat) : StateM Nat Nat := modifyGet fun now => (now, now + tick)

theorem run_laps_steady (tick count now : Nat) :
    (laps (steady tick) count).run now = (count * tick, now + 2 * (count * tick)) := by
  induction count generalizing now with
  | zero =>
    rw [Nat.zero_mul]
    rfl
  | succ count ih =>
    have lap : (laps (steady tick) (count + 1)).run now =
        ((now + tick - now) + ((laps (steady tick) count).run (now + tick + tick)).1,
          ((laps (steady tick) count).run (now + tick + tick)).2) := rfl
    rw [lap, ih]
    have spent : now + tick - now + count * tick = (count + 1) * tick := by
      rw [Nat.succ_mul]
      omega
    have later : now + tick + tick + 2 * (count * tick) = now + 2 * ((count + 1) * tick) := by
      rw [Nat.succ_mul]
      omega
    exact Prod.ext spent later

/-- Beside a steady clock a replay that comes to its end reports a tick for each operation, however
much else it does. -/
theorem runTimed_steady {trace : Trace} {options : Options} {outcome : Outcome} {found : Report}
    (ran : run trace options = .ok outcome) (ended : outcome.result = .ok found) (tick now : Nat) :
    ((runTimed (steady tick) trace options).run.run now).1 =
      .ok (outcome.withTime (trace.ops.length * tick)) := by
  obtain ⟨time, timed, whole⟩ := runTimed_eq (steady tick) trace options
  rw [timed, whole outcome found ran ended, StateT.run_map, run_laps_steady, ran]
  rfl

end BoundaryHeap.Replay
