import BoundaryHeap.Heap.Call
import BoundaryHeap.Proofs.Steps

/-!
What a heap does apart from its checks and its records. `bare` takes both away; an action is
`Transparent` in a heap if it comes to the same with them and without, and reports no damage. Over
any arena this holds of all that an operation does beyond testing a pointer and scanning the heap.
-/

namespace BoundaryHeap

namespace Action

variable {σ τ α : Type}

/-- An outcome with the state seen through a map. -/
def seen (erase : σ → τ) : EStateM.Result Fault σ α → EStateM.Result Fault τ α
  | .ok answer s => .ok answer (erase s)
  | .error fault s => .error fault (erase s)

/-- Outcomes that look alike have the same answer, or the same fault. -/
theorem answer_eq_of_seen_eq {erase : σ → τ} {act : Action σ α} {s s' : σ}
    (same : seen erase (act.run s') = seen erase (act.run s)) :
    (act.result s').map (·.1) = (act.result s).map (·.1) := by
  unfold result
  cases ran : act.run s <;> cases ran' : act.run s' <;> rw [ran, ran'] at same
  case ok.ok =>
    injection same with answers _
    exact congrArg Except.ok answers
  case error.error =>
    injection same with faults _
    exact congrArg Except.error faults
  all_goals cases same

end Action

/-- An event that tells of a pointer refused or of a heap damaged. -/
def TellsDamage (event : String) : Prop :=
  event = "invalid_pointer" ∨ event = "invariant_violation"

/-- What is recorded when nothing is wrong: not of the gravest level, and not of any damage. -/
def Harmless (level : Level) (event : String) : Prop :=
  level.severity < Level.error.severity ∧ ¬ TellsDamage event

instance {level : Level} {event : String} : Decidable (Harmless level event) :=
  inferInstanceAs (Decidable (_ ∧ ¬ (_ ∨ _)))

namespace Heap

variable {A : Type} {h h' : Heap A} {α β : Type}

/-- What is left of a heap without its checks and its records. -/
def bare (h : Heap A) : Heap A :=
  { h with
    config := { h.config with check := .off, logLevel := .error }
    nextRecord := 1
    records := #[] }

/-- A heap that has refused no pointer and reported no damage. -/
structure Quiet (h : Heap A) : Prop where
  accepted : h.counters.invalidPointers = 0
  undamaged : ∀ record ∈ h.records, ¬ TellsDamage record.event

/-- The action comes to the same in the heap as in what is left of it without checks and records,
and reports no damage. -/
structure Transparent (act : Action (Heap A) α) (h : Heap A) : Prop where
  seen : act.run h.bare = Action.seen bare (act.run h)
  quiet : h.Quiet → (act.last h).Quiet

namespace Transparent

variable {act : Action (Heap A) α} {answer : α}

theorem of_run (ran : act.run h = .ok answer h') (ranBare : act.run h.bare = .ok answer h'.bare)
    (quiet : h.Quiet → h'.Quiet) : Transparent act h where
  seen := by
    rw [ran, ranBare]
    rfl
  quiet := by
    unfold Action.last
    rw [ran]
    exact quiet

theorem pure : Transparent (Pure.pure answer) h := of_run rfl rfl id

theorem ask {question : Heap A → Except Fault α} (same : question h.bare = question h) :
    Transparent (Action.ask question) h := by
  constructor
  · rw [Action.run_ask, Action.run_ask, same]
    cases question h <;> rfl
  · unfold Action.last
    rw [Action.run_ask]
    cases question h <;> exact id

theorem view {question : Heap A → α} (same : question h.bare = question h) :
    Transparent (view question) h :=
  ask (congrArg Except.ok same)

theorem lift (computation : Except Fault α) :
    Transparent (liftM computation : Action (Heap A) α) h := by
  constructor
  · rw [Action.run_lift, Action.run_lift]
    cases computation <;> rfl
  · unfold Action.last
    rw [Action.run_lift]
    cases computation <;> exact id

theorem bind {next : α → Action (Heap A) β} (first : Transparent act h)
    (then_ : ∀ answer h', act.run h = .ok answer h' → Transparent (next answer) h') :
    Transparent (act >>= next) h := by
  constructor
  · rw [EStateM.run_bind, EStateM.run_bind, first.seen]
    cases ran : act.run h with
    | ok answer h' => exact (then_ answer h' ran).seen
    | error fault h' => rfl
  · intro quiet
    have before := first.quiet quiet
    unfold Action.last at before ⊢
    rw [EStateM.run_bind]
    cases ran : act.run h with
    | ok answer h' =>
      rw [ran] at before
      exact (then_ answer h' ran).quiet before
    | error fault h' =>
      rw [ran] at before
      exact before

theorem modify {change : Heap A → Heap A} (same : change h.bare = (change h).bare)
    (quiet : h.Quiet → (change h).Quiet) :
    Transparent (modify change : Action (Heap A) PUnit) h :=
  of_run rfl (congrArg (EStateM.Result.ok PUnit.unit) same) quiet

theorem focus {τ : Type} {split : Heap A → τ × (τ → Heap A)} {act : Action τ α}
    (part : (split h.bare).1 = (split h).1)
    (restore : ∀ part, (split h.bare).2 part = ((split h).2 part).bare)
    (quiet : ∀ part, h.Quiet → ((split h).2 part).Quiet) :
    Transparent (Action.focus split act) h := by
  constructor
  · rw [Action.run_focus, Action.run_focus, part]
    cases act.run (split h).1 <;> exact congrArg _ (restore _)
  · unfold Action.last
    rw [Action.run_focus]
    cases act.run (split h).1 <;> exact quiet _

/-- Heaps that are the same without checks and records stay so, and give the same answer. -/
theorem exists_run {h₁ : Heap A} (first : Transparent act h) (second : Transparent act h')
    (same : h'.bare = h.bare) (ran : act.run h = .ok answer h₁) :
    ∃ h₁', act.run h' = .ok answer h₁' ∧ h₁'.bare = h₁.bare := by
  have outcome := second.seen
  rw [same, first.seen, ran] at outcome
  cases ran' : act.run h' with
  | ok found h₁' =>
    rw [ran'] at outcome
    injection outcome with answers states
    exact ⟨h₁', answers ▸ rfl, states.symm⟩
  | error fault h₁' =>
    rw [ran'] at outcome
    cases outcome

theorem answer_eq (first : Transparent act h) (second : Transparent act h')
    (same : h'.bare = h.bare) : (act.result h').map (·.1) = (act.result h).map (·.1) :=
  Action.answer_eq_of_seen_eq (second.seen.symm.trans (same ▸ first.seen))

theorem quiet_of_run (transparent : Transparent act h) (ran : act.run h = .ok answer h')
    (quiet : h.Quiet) : h'.Quiet := by
  have after := transparent.quiet quiet
  unfold Action.last at after
  rwa [ran] at after

/-- Counting anything but a refused pointer. -/
theorem count {change : Counters → Counters}
    (kept : ∀ counters, (change counters).invalidPointers = counters.invalidPointers) :
    Transparent (count change) h :=
  .modify rfl fun quiet => ⟨(kept _).trans quiet.accepted, quiet.undamaged⟩

variable [Arena A]

theorem edit (act : Action Region α) : Transparent (edit act) h :=
  .focus rfl (fun _ => rfl) fun _ quiet => ⟨quiet.accepted, quiet.undamaged⟩

theorem growArena (increment : Nat) : Transparent (growArena increment) h :=
  .focus rfl (fun _ => rfl) fun _ quiet => ⟨quiet.accepted, quiet.undamaged⟩

end Transparent

variable [Arena A]

/-! ## Records -/

section Records

variable {level : Level} {symbol event : String} {ptr size : Option Nat} {outcome details : String}

theorem bare_withRecord (h : Heap A) :
    (h.withRecord level symbol event ptr size outcome details).bare = h.bare := by
  unfold withRecord
  split <;> rfl

/-- Without records only the gravest are kept. -/
theorem withRecord_bare (h : Heap A) (harmless : Harmless level event) :
    h.bare.withRecord level symbol event ptr size outcome details = h.bare := if_pos harmless.1

theorem Quiet.withRecord (quiet : h.Quiet) (harmless : Harmless level event) :
    (h.withRecord level symbol event ptr size outcome details).Quiet := by
  unfold Heap.withRecord
  split
  · exact quiet
  · refine ⟨quiet.accepted, ?_⟩
    intro record kept
    cases Array.mem_push.mp kept with
    | inl older => exact quiet.undamaged record older
    | inr newest =>
      subst newest
      exact harmless.2

theorem record_transparent (h : Heap A) (harmless : Harmless level event := by decide) :
    Transparent (record level symbol event ptr size outcome details) h :=
  .modify ((withRecord_bare h harmless).trans (bare_withRecord h).symm)
    fun quiet => quiet.withRecord harmless

end Records

/-! ## Growth -/

theorem growContiguous_transparent (h : Heap A) (increment : Nat) :
    Transparent (growContiguous increment) h := by
  unfold growContiguous
  refine .bind (.view rfl) fun expected h₁ _ => ?_
  refine .bind (.growArena increment) fun start h₂ _ => ?_
  cases start with
  | none => exact .pure
  | some start =>
    simp only []
    split
    · exact .bind (.modify rfl fun quiet => ⟨quiet.accepted, quiet.undamaged⟩) fun _ _ _ => .pure
    refine .bind (.view rfl) fun size h₃ _ => ?_
    split
    · exact .bind (.modify rfl fun quiet => ⟨quiet.accepted, quiet.undamaged⟩) fun _ _ _ => .pure
    · exact .bind (.count fun _ => rfl) fun _ _ _ => .pure

theorem extend_transparent (h : Heap A) (symbol : String) (request : Nat) :
    Transparent (extend symbol request) h := by
  unfold extend
  cases Block.roundUp (max request Block.minSize) with
  | none => exact .pure
  | some size =>
    refine .bind (growContiguous_transparent h size) fun grown h₁ _ => ?_
    cases grown with
    | error error =>
      refine .bind (record_transparent h₁ ?_) fun _ _ _ => .pure
      split <;> decide
    | ok start =>
      refine .bind (.edit _) fun _ h₂ _ => .bind (.view rfl) fun bytes h₃ _ => ?_
      refine .bind (record_transparent h₃) fun _ h₄ _ => ?_
      exact .bind (.edit _) fun _ _ _ => .pure

theorem layOut_transparent (h : Heap A) : Transparent layOut h := by
  unfold layOut
  refine .bind (growContiguous_transparent h _) fun grown h₁ _ => ?_
  cases grown with
  | error error => exact .pure
  | ok base =>
    refine .bind (.lift _) fun prologue h₂ _ => .bind (.edit _) fun _ h₃ _ => ?_
    refine .bind (.modify rfl fun quiet => ⟨quiet.accepted, quiet.undamaged⟩) fun _ h₄ _ => ?_
    refine .bind (.view rfl) fun chunk h₅ _ => ?_
    refine .bind (extend_transparent h₅ "init" chunk) fun extended h₆ _ => ?_
    cases extended <;> exact .pure

/-- The record of a layout names the checks, so it takes the settings from the heap at hand. -/
theorem conclude_transparent (h : Heap A) (result : Except HeapError Unit) :
    Transparent (conclude result) h := by
  cases result with
  | ok =>
    have harmless : Harmless .info "init" := by decide
    refine .of_run rfl ?_ fun quiet => Quiet.withRecord ⟨quiet.accepted, quiet.undamaged⟩ harmless
    rw [bare_withRecord]
    rfl
  | error error => exact record_transparent h

/-! ## Requests -/

theorem ready_transparent (h : Heap A) (symbol : String) : Transparent (ready symbol) h := by
  unfold ready
  refine .bind (.view rfl) fun serves h₁ _ => ?_
  split
  · exact .pure
  · exact .bind (record_transparent h₁) fun _ _ _ => .pure

theorem sized_transparent (h : Heap A) (symbol : String) (request : Nat) :
    Transparent (sized symbol request) h := by
  unfold sized
  cases Block.sizeFor request with
  | some size => exact .pure
  | none =>
    refine .bind (.count fun _ => rfl) fun _ h₁ _ => ?_
    exact .bind (record_transparent h₁) fun _ _ _ => .pure

theorem supply_transparent (h : Heap A) (symbol : String) (size : Nat) :
    Transparent (supply symbol size) h := by
  unfold supply
  refine .bind (.ask rfl) fun found h₁ _ => ?_
  cases found with
  | some bp => exact .pure
  | none =>
    refine .bind (.view rfl) fun chunk h₂ _ => ?_
    refine .bind (extend_transparent h₂ symbol _) fun extended h₃ _ => ?_
    cases extended with
    | ok bp => exact .pure
    | error error => exact .bind (.count fun _ => rfl) fun _ _ _ => .pure

theorem allocateAs_transparent (h : Heap A) (symbol : String) (request : Nat) :
    Transparent (allocateAs symbol request) h := by
  unfold allocateAs
  refine .bind (ready_transparent h symbol) fun serves h₁ _ => ?_
  split
  · exact .pure
  split
  · exact .bind (record_transparent h₁) fun _ _ _ => .pure
  refine .bind (sized_transparent h₁ symbol request) fun size h₂ _ => ?_
  cases size with
  | none => exact .pure
  | some size =>
    refine .bind (supply_transparent h₂ symbol size) fun supplied h₃ _ => ?_
    cases supplied with
    | none => exact .pure
    | some supplied =>
      refine .bind (.view rfl) fun policy h₄ _ => .bind (.edit _) fun ptr h₅ _ => ?_
      refine .bind (.count fun _ => rfl) fun _ h₆ _ => ?_
      exact .bind (record_transparent h₆) fun _ _ _ => .pure

theorem enlarge_transparent (h : Heap A) (symbol : String) (ptr current size request : Nat) :
    Transparent (enlarge symbol ptr current size request) h := by
  unfold enlarge
  refine .bind (.lift _) fun next h₁ _ => .bind (.ask rfl) fun following h₂ _ => ?_
  refine .bind (.ask rfl) fun preceding h₃ _ => .bind (.lift _) fun room h₄ _ => ?_
  cases room with
  | behind =>
    refine .bind (.edit _) fun _ h₅ _ => .bind (.count fun _ => rfl) fun _ h₆ _ => ?_
    exact .bind (record_transparent h₆) fun _ _ _ => .pure
  | around =>
    refine .bind (.edit _) fun _ h₅ _ => .bind (.count fun _ => rfl) fun _ h₆ _ => ?_
    refine .bind (record_transparent h₆ ?_) fun _ _ _ => .pure
    split <;> decide
  | elsewhere =>
    refine .bind (allocateAs_transparent h₄ symbol request) fun target h₅ _ => ?_
    cases target with
    | none => exact .pure
    | some target =>
      refine .bind (.edit _) fun _ h₆ _ => .bind (.count fun _ => rfl) fun _ h₇ _ => ?_
      exact .bind (record_transparent h₇) fun _ _ _ => .pure

theorem callocAs_transparent (h : Heap A) (symbol : String) (items size : Nat) :
    Transparent (callocAs symbol items size) h := by
  unfold callocAs
  split
  · refine .bind (.count fun _ => rfl) fun _ h₁ _ => ?_
    exact .bind (record_transparent h₁) fun _ _ _ => .pure
  · refine .bind (allocateAs_transparent h symbol _) fun ptr h₁ _ => ?_
    cases ptr with
    | none => exact .pure
    | some ptr => exact .bind (.edit _) fun _ _ _ => .pure

theorem patch_transparent (h : Heap A) (ptr offset : Nat) (values : List UInt8) :
    Transparent (patch ptr offset values) h := by
  unfold patch
  refine .bind (.ask rfl) fun length h₁ _ => ?_
  cases length with
  | none => exact .pure
  | some length =>
    simp only []
    split
    · exact ⟨rfl, id⟩
    · exact .bind (.edit _) fun _ _ _ => .pure

/-! ## Pointers that are accepted, scans that find nothing -/

section Checked

variable {symbol : String} {ptr request : Nat}

/-- In a heap in which the pointer is accepted either way, releasing it. -/
theorem releaseAs_transparent (accepted : Transparent (readyFor symbol ptr) h) :
    Transparent (releaseAs symbol ptr) h := by
  unfold releaseAs
  split
  · exact record_transparent h
  refine .bind accepted fun serves h₁ _ => ?_
  split
  · refine .bind (.ask rfl) fun size h₂ _ => .bind (.edit _) fun start h₃ _ => ?_
    exact .bind (.count fun _ => rfl) fun _ h₄ _ => record_transparent h₄
  · exact .pure

/-- In a heap in which the pointer is accepted either way, resizing the block there. -/
theorem resizeAs_transparent (accepted : Transparent (readyFor symbol ptr) h) :
    Transparent (resizeAs symbol ptr request) h := by
  unfold resizeAs
  split
  · exact allocateAs_transparent h symbol request
  split
  · exact .bind (releaseAs_transparent accepted) fun _ _ _ => .pure
  refine .bind accepted fun serves h₁ _ => ?_
  split
  · exact .pure
  refine .bind (sized_transparent h₁ symbol request) fun size h₂ _ => ?_
  cases size with
  | none => exact .pure
  | some size =>
    refine .bind (.ask rfl) fun current h₃ _ => ?_
    split
    · refine .bind (.edit _) fun _ h₄ _ => .bind (.count fun _ => rfl) fun _ h₅ _ => ?_
      exact .bind (record_transparent h₅) fun _ _ _ => .pure
    · exact enlarge_transparent h₃ symbol ptr current size request

/-- A scan that finds nothing does nothing, and what is taken away is nothing to it. -/
theorem afterwards_transparent (clean : h.check = .ok []) (symbol : String) :
    Transparent (afterwards symbol) h :=
  have unseen : h.bare.check = .ok [] := clean
  .of_run (afterwards_run clean symbol) (afterwards_run unseen symbol) id

/-- The scan after a request that leaves nothing to find does not show. -/
theorem Transparent.scanned {act : Action (Heap A) α} {excused : Fault → Prop}
    {post : α → Heap A → Prop} (transparent : Transparent act h)
    (ensured : act.Ensures h excused post)
    (clean : ∀ answer h', post answer h' → h'.check = .ok []) (symbol : String) :
    Transparent (do let answer ← act; afterwards symbol; return answer) h := by
  refine .bind transparent fun answer h₁ ran => ?_
  have nothing := clean answer h₁ (ensured.holds ran)
  exact .bind (afterwards_transparent nothing symbol) fun _ _ _ => .pure

end Checked

end Heap

end BoundaryHeap
