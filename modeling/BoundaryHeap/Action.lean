import BoundaryHeap.Fault

/-!
Actions change a state and answer, or meet a fault. A fault does not undo what went before it: it
leaves behind the state that was reached when it was met, and that state can still be looked at.
-/

namespace BoundaryHeap

/-- A change of a state that answers or meets a fault. There is a state after it in both cases. -/
abbrev Action (σ α : Type) := EStateM Fault σ α

/-- A computation that needs no state is an action that leaves the state as it is. -/
instance {σ : Type} : MonadLift (Except Fault) (EStateM Fault σ) where
  monadLift computation := fun s =>
    match computation with
    | .ok answer => .ok answer s
    | .error fault => .error fault s

namespace Action

variable {σ τ α : Type}

/-- A question to the state, which leaves it as it is. -/
@[inline] def ask (question : σ → Except Fault α) : Action σ α := fun s =>
  match question s with
  | .ok answer => .ok answer s
  | .error fault => .error fault s

/-- An action on a part of the state. The state is taken apart into that part and a way to put
another in its place, so that the action is the only holder of the part. -/
@[inline] def focus (split : σ → τ × (τ → σ)) (act : Action τ α) : Action σ α := fun s =>
  let (part, restore) := split s
  match act.run part with
  | .ok answer part => .ok answer (restore part)
  | .error fault part => .error fault (restore part)

/-- The answer and the state after an action, unless it meets a fault. -/
def result (act : Action σ α) (s : σ) : Except Fault (α × σ) :=
  match act.run s with
  | .ok answer s => .ok (answer, s)
  | .error fault _ => .error fault

@[simp] theorem run_lift (computation : Except Fault α) (s : σ) :
    (liftM computation : Action σ α).run s =
      match computation with
      | .ok answer => .ok answer s
      | .error fault => .error fault s := rfl

@[simp] theorem run_ask (question : σ → Except Fault α) (s : σ) :
    (ask question).run s =
      match question s with
      | .ok answer => .ok answer s
      | .error fault => .error fault s := rfl

@[simp] theorem run_focus (split : σ → τ × (τ → σ)) (act : Action τ α) (s : σ) :
    (focus split act).run s =
      match act.run (split s).1 with
      | .ok answer part => .ok answer ((split s).2 part)
      | .error fault part => .error fault ((split s).2 part) := rfl

end Action

end BoundaryHeap
