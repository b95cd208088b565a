import BoundaryHeap.Action

/-!
What an action ensures: started in a state, it answers in a way that a postcondition accepts, or it
meets a fault that is excused. With nothing excused this also says that the action answers at all,
so the rules here carry totality and correctness through a program at once.
-/

namespace BoundaryHeap

namespace Fault

variable {ε α β : Type} {computation : Except ε α} {next : α → Except ε β} {found : α} {answer : β}

/-- A computation in two parts answers through an answer of the first, whatever its errors are. -/
theorem bind_eq_ok : (computation >>= next) = .ok answer ↔
    ∃ found, computation = .ok found ∧ next found = .ok answer := by
  cases computation <;> simp [bind, Except.bind]

theorem bind_of_ok (known : computation = .ok found) : (computation >>= next) = next found := by
  rw [known]
  rfl

end Fault

namespace Action

variable {σ τ α β : Type}

/-- Run in `s`, the action answers as `post` asks, or meets a fault that is excused. -/
def Ensures (act : Action σ α) (s : σ) (excused : Fault → Prop) (post : α → σ → Prop) : Prop :=
  match act.run s with
  | .ok answer s' => post answer s'
  | .error fault _ => excused fault

/-- Nothing is excused: the action has to answer. -/
abbrev Total : Fault → Prop := fun _ => False

/-- An action that starts with another answers through an answer of that one. -/
theorem run_bind_eq_ok {act : Action σ α} {next : α → Action σ β} {s s' : σ} {answer : β} :
    (act >>= next).run s = .ok answer s' ↔
      ∃ found middle, act.run s = .ok found middle ∧ (next found).run middle = .ok answer s' := by
  rw [EStateM.run_bind]
  cases act.run s with
  | ok found middle =>
    refine ⟨fun rest => ⟨found, middle, rfl, rest⟩, ?_⟩
    rintro ⟨_, _, ⟨rfl, rfl⟩, rest⟩
    exact rest
  | error fault middle => simp

theorem run_ask_eq_ok {question : σ → Except Fault α} {s s' : σ} {answer : α} :
    (ask question).run s = .ok answer s' ↔ question s = .ok answer ∧ s = s' := by
  rw [run_ask]
  cases question s <;> simp

theorem result_eq_ok {act : Action σ α} {s s' : σ} {answer : α} :
    act.result s = .ok (answer, s') ↔ act.run s = .ok answer s' := by
  rw [result]
  cases act.run s <;> simp

/-- The answer of an action that is run to its end. -/
theorem exists_run_of_result {act : Action σ α} {s : σ} {answer : α}
    (known : (act.result s).map (·.1) = .ok answer) : ∃ s', act.run s = .ok answer s' := by
  rw [result] at known
  cases ran : act.run s with
  | ok found s' =>
    rw [ran] at known
    cases known
    exact ⟨s', rfl⟩
  | error fault s' =>
    rw [ran] at known
    cases known

namespace Ensures

variable {act : Action σ α} {s s' : σ} {excused excused' : Fault → Prop}
  {post post' : α → σ → Prop} {answer : α}

theorem of_run (ran : act.run s = .ok answer s') (holds : post answer s') :
    act.Ensures s excused post := by
  unfold Ensures
  rw [ran]
  exact holds

theorem pure (holds : post answer s) : (Pure.pure answer : Action σ α).Ensures s excused post :=
  of_run rfl holds

theorem imp (ensured : act.Ensures s excused post)
    (weaker : ∀ answer s', post answer s' → post' answer s') : act.Ensures s excused post' := by
  unfold Ensures at *
  split <;> rename_i ran <;> rw [ran] at ensured
  · exact weaker _ _ ensured
  · exact ensured

theorem excuse (ensured : act.Ensures s excused post)
    (milder : ∀ fault, excused fault → excused' fault) : act.Ensures s excused' post := by
  unfold Ensures at *
  split <;> rename_i ran <;> rw [ran] at ensured
  · exact ensured
  · exact milder _ ensured

/-- An action that always answers does so whatever would be excused. -/
theorem of_total (ensured : act.Ensures s Total post) : act.Ensures s excused post :=
  ensured.excuse fun _ never => never.elim

/-- What an action ensures holds of the answer it gives. -/
theorem holds (ensured : act.Ensures s excused post) (ran : act.run s = .ok answer s') :
    post answer s' := by
  unfold Ensures at ensured
  rwa [ran] at ensured

/-- An action that always answers has an answer, and a state after it. -/
theorem exists_run (ensured : act.Ensures s Total post) :
    ∃ answer s', act.run s = .ok answer s' ∧ post answer s' := by
  unfold Ensures at ensured
  split at ensured
  next answer s' ran => exact ⟨answer, s', ran, ensured⟩
  next => exact ensured.elim

theorem bind {next : α → Action σ β} {last : β → σ → Prop}
    (first : act.Ensures s excused post)
    (then_ : ∀ answer s', post answer s' → (next answer).Ensures s' excused last) :
    (act >>= next).Ensures s excused last := by
  unfold Ensures at first ⊢
  rw [EStateM.run_bind]
  cases ran : act.run s with
  | ok answer s' =>
    rw [ran] at first
    exact then_ answer s' first
  | error fault s' =>
    rw [ran] at first
    exact first

/-- A step whose outcome is known. -/
theorem step {next : α → Action σ β} {last : β → σ → Prop} (ran : act.run s = .ok answer s')
    (rest : (next answer).Ensures s' excused last) : (act >>= next).Ensures s excused last := by
  have known : act.Ensures s excused fun found s'' => found = answer ∧ s'' = s' :=
    of_run ran ⟨rfl, rfl⟩
  apply known.bind
  rintro _ _ ⟨rfl, rfl⟩
  exact rest

/-- A question whose answer is known. -/
theorem ask {question : σ → Except Fault α} {next : α → Action σ β} {last : β → σ → Prop}
    (known : question s = .ok answer) (rest : (next answer).Ensures s excused last) :
    (Action.ask question >>= next).Ensures s excused last :=
  step (by rw [run_ask, known]) rest

/-- A computation whose result is known. -/
theorem lift {computation : Except Fault α} {next : α → Action σ β} {last : β → σ → Prop}
    (known : computation = .ok answer) (rest : (next answer).Ensures s excused last) :
    ((liftM computation : Action σ α) >>= next).Ensures s excused last :=
  step (by rw [run_lift, known]) rest

theorem modify {change : σ → σ} {next : PUnit → Action σ β} {last : β → σ → Prop}
    (rest : (next ⟨⟩).Ensures (change s) excused last) :
    ((modify change : Action σ PUnit) >>= next).Ensures s excused last :=
  step rfl rest

theorem focus {split : σ → τ × (τ → σ)} {act : Action τ α}
    (ensured : act.Ensures (split s).1 excused fun answer part => post answer ((split s).2 part)) :
    (Action.focus split act).Ensures s excused post := by
  unfold Ensures at ensured ⊢
  rw [run_focus]
  cases ran : act.run (split s).1 <;> rw [ran] at ensured <;> exact ensured

end Ensures

/-! ## What an action leaves alone -/

/-- The state after an action, whether it answers or meets a fault. -/
def last (act : Action σ α) (s : σ) : σ :=
  match act.run s with
  | .ok _ s' => s'
  | .error _ s' => s'

/-- Whatever state the action starts from, it leaves what `gauge` shows of the state as it is. -/
def Preserves {γ : Type} (act : Action σ α) (gauge : σ → γ) : Prop :=
  ∀ s, gauge (act.last s) = gauge s

namespace Preserves

variable {γ : Type} {gauge : σ → γ} {act : Action σ α}

theorem pure (answer : α) : (Pure.pure answer : Action σ α).Preserves gauge := fun _ => rfl

theorem bind {next : α → Action σ β} (first : act.Preserves gauge)
    (then_ : ∀ answer, (next answer).Preserves gauge) : (act >>= next).Preserves gauge := by
  intro s
  have before := first s
  unfold last at *
  rw [EStateM.run_bind]
  cases ran : act.run s with
  | ok answer s' =>
    rw [ran] at before
    exact (then_ answer s').trans before
  | error fault s' =>
    rw [ran] at before
    exact before

theorem ask (question : σ → Except Fault α) : (Action.ask question).Preserves gauge := by
  intro s
  unfold last
  rw [run_ask]
  cases question s <;> rfl

theorem lift (computation : Except Fault α) :
    (liftM computation : Action σ α).Preserves gauge := by
  intro s
  unfold last
  rw [run_lift]
  cases computation <;> rfl

theorem modify {change : σ → σ} (same : ∀ s, gauge (change s) = gauge s) :
    (modify change : Action σ PUnit).Preserves gauge := same

theorem focus {split : σ → τ × (τ → σ)} {act : Action τ α}
    (same : ∀ s part, gauge ((split s).2 part) = gauge s) :
    (Action.focus split act).Preserves gauge := by
  intro s
  unfold last
  rw [run_focus]
  cases act.run (split s).1 <;> exact same ..

/-- What is left alone is as it was, if the action answers. -/
theorem of_ok {s s' : σ} {answer : α} (preserves : act.Preserves gauge)
    (ran : act.run s = .ok answer s') : gauge s' = gauge s := by
  have same := preserves s
  unfold last at same
  rwa [ran] at same

theorem of_error {s s' : σ} {fault : Fault} (preserves : act.Preserves gauge)
    (ran : act.run s = .error fault s') : gauge s' = gauge s := by
  have same := preserves s
  unfold last at same
  rwa [ran] at same

end Preserves

end Action

end BoundaryHeap
