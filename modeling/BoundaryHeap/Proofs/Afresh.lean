import BoundaryHeap.Proofs.Bare
import BoundaryHeap.Proofs.Growth
import BoundaryHeap.Proofs.Lockstep
import BoundaryHeap.Proofs.Runs

/-!
A layout starts a heap afresh. `current` is all of a heap but its running totals and its records,
which no operation looks at: an action is `Timeless` if what it comes to does not depend on them.
Every call is, whatever its arguments and whatever state the heap is in. Since a layout gives all
memory back before it does anything else, a heap that has been laid out goes on as a new one with
the same settings does.
-/

namespace BoundaryHeap

namespace Action

variable {σ α : Type}

/-- Outcomes that look alike match in what they are looked at for. -/
theorem matching_of_seen_eq {τ : Type} {erase : σ → τ} {first second : EStateM.Result Fault σ α}
    (same : seen erase first = seen erase second) :
    Matching (fun s s' => erase s = erase s') first second := by
  cases first <;> cases second
  case ok.ok =>
    injection same with answers states
    exact answers ▸ .ok _ states
  case error.error =>
    injection same with faults states
    exact faults ▸ .error _ states
  all_goals cases same

theorem Matching.seen_eq {τ : Type} {erase : σ → τ} {first second : EStateM.Result Fault σ α}
    (matching : Matching (fun s s' => erase s = erase s') first second) :
    seen erase first = seen erase second := by
  cases matching with
  | ok answer same => exact congrArg (EStateM.Result.ok answer) same
  | error fault same => exact congrArg (EStateM.Result.error fault) same

end Action

namespace Heap

variable {A : Type} {α β : Type} {h h' : Heap A}

/-- What a heap is at present: all of it but its running totals and its records. -/
def current (h : Heap A) : Heap A :=
  { h with counters := .zero, nextRecord := 1, records := #[] }

/-- What the action comes to does not depend on the totals and the records of the heap. -/
def Timeless (act : Action (Heap A) α) : Prop :=
  ∀ h, Action.seen current (act.run h.current) = Action.seen current (act.run h)

namespace Timeless

variable {act : Action (Heap A) α}

/-- Heaps that are the same at present go on alike. -/
theorem seen_eq (timeless : Timeless act) (same : h.current = h'.current) :
    Action.seen current (act.run h) = Action.seen current (act.run h') := by
  rw [← timeless h, ← timeless h', same]

theorem pure (answer : α) : Timeless (Pure.pure answer : Action (Heap A) α) := fun _ => rfl

/-- What two heaps have come to alike goes on alike. -/
theorem seen_bind_eq {next : α → Action (Heap A) β}
    (first : Action.seen current (act.run h) = Action.seen current (act.run h'))
    (then_ : ∀ answer, Timeless (next answer)) :
    Action.seen current ((act >>= next).run h) = Action.seen current ((act >>= next).run h') := by
  have matching := Action.matching_of_seen_eq first
  rw [EStateM.run_bind, EStateM.run_bind]
  generalize act.run h = outcome at matching ⊢
  generalize act.run h' = outcome' at matching ⊢
  cases matching with
  | ok answer same => exact (then_ answer).seen_eq same
  | error fault same => exact congrArg (EStateM.Result.error fault) same

theorem bind {next : α → Action (Heap A) β} (first : Timeless act)
    (then_ : ∀ answer, Timeless (next answer)) : Timeless (act >>= next) :=
  fun h => seen_bind_eq (first h) then_

/-- What goes on alike from heaps that are the same at present is timeless. -/
theorem of_lockstep (lockstep : Action.Lockstep (fun h h' : Heap A => h.current = h'.current)
    act act) : Timeless act := by
  intro h
  have same : h.current.current = h.current := rfl
  exact (lockstep same).seen_eq

end Timeless

variable [Arena A]

theorem current_withRecord {level : Level} {symbol event : String} {ptr size : Option Nat}
    {outcome details : String} (h : Heap A) :
    (h.withRecord level symbol event ptr size outcome details).current = h.current := by
  unfold withRecord
  split <;> rfl

/-- Being the same at present lasts, whatever the two heaps count and record. -/
theorem parallel_current (symbol symbol' : String) :
    Parallel (fun h h' : Heap A => h.current = h'.current) symbol symbol' where
  visible {h h'} same := by
    have shown : h.current.visible = h'.current.visible := congrArg Heap.visible same
    exact shown
  arena same arena := congrArg ({ · with arena }) same
  freeList same freeList := congrArg ({ · with freeList }) same
  prologue same prologue := congrArg ({ · with prologue }) same
  initialized same initialized := congrArg ({ · with initialized }) same
  counters same _ := same
  records same _ _ _ _ _ _ :=
    ((current_withRecord _).trans same).trans (current_withRecord _).symm

theorem layOut_timeless : Timeless (A := A) layOut := .of_lockstep (parallel_current ..).layOut

theorem conclude_timeless (result : Except HeapError Unit) :
    Timeless (A := A) (conclude result) := .of_lockstep ((parallel_current ..).conclude result)

theorem afterwards_timeless (symbol : String) : Timeless (A := A) (afterwards symbol) :=
  .of_lockstep (parallel_current symbol symbol).afterwards

/-- Calls one after the other, each of which may meet a fault. -/
theorem run_timeless (calls : List Call) : Timeless (A := A) (Heap.run calls) :=
  .of_lockstep (Parallel.run (fun symbol => parallel_current symbol symbol) calls)

/-! ## Layouts -/

/-- Two heaps hold the same bytes and the same free list, are in the same condition, and show the
same payloads, totals and violations. -/
structure Alike (h h' : Heap LimitedArena) : Prop where
  arena : h.arena = h'.arena
  config : h.config = h'.config
  freeList : h.freeList = h'.freeList
  prologue : h.prologue = h'.prologue
  initialized : h.initialized = h'.initialized
  payload : h.payload = h'.payload
  stats : h.stats = h'.stats
  check : h.check = h'.check

theorem alike_of_current_eq {h h' : Heap LimitedArena} (same : h.current = h'.current) :
    Alike h h' := by
  have shown {γ : Type} (question : Heap LimitedArena → γ) :
      question h.current = question h'.current := congrArg question same
  constructor
  · exact shown Heap.arena
  · exact shown Heap.config
  · exact shown Heap.freeList
  · exact shown Heap.prologue
  · exact shown Heap.initialized
  · exact shown Heap.payload
  · exact shown Heap.stats
  · exact shown Heap.check

/-- A new heap with the arena limit and the settings of another. -/
def renewed (h : Heap LimitedArena) : Heap LimitedArena := new (.withLimit h.arena.limit) h.config

/-- Once its memory is given back, nothing is left of what a heap was but its limit and its
settings. -/
theorem seen_init_eq (h : Heap LimitedArena) :
    Action.seen current (init.run h) = Action.seen current (init.run h.renewed) := by
  have rest : Timeless (do
      let result ← layOut
      conclude result
      afterwards "init"
      return result : Action (Heap LimitedArena) (Except HeapError Unit)) :=
    .bind layOut_timeless fun result =>
      .bind (conclude_timeless result) fun _ => .bind (afterwards_timeless "init") fun _ => .pure _
  have emptied : h.emptied.current = h.renewed.emptied.current := rfl
  exact rest.seen_eq emptied

/-- Whatever has become of a heap, laying it out answers as it does for a new one and leaves it like
that one, and so does every run of calls from there on, with any arguments: after each of them both
have given the same answers and are alike, and if one meets a fault so does the other. -/
theorem init_matching (h : Heap LimitedArena) :
    Action.Matching Alike (init.run h) (init.run h.renewed) ∧
      ∀ calls, Action.Matching Alike ((Heap.run (.init :: calls)).run h)
        ((Heap.run (.init :: calls)).run h.renewed) := by
  have laidOut := seen_init_eq h
  have called : Action.seen current ((Heap.call .init).run h) =
      Action.seen current ((Heap.call .init).run h.renewed) :=
    Timeless.seen_bind_eq laidOut fun _ => .pure _
  constructor
  · exact (Action.matching_of_seen_eq laidOut).imp fun _ _ => alike_of_current_eq
  · intro calls
    have ran : Action.seen current ((Heap.run (.init :: calls)).run h) =
        Action.seen current ((Heap.run (.init :: calls)).run h.renewed) :=
      Timeless.seen_bind_eq called fun _ => .bind (run_timeless calls) fun _ => .pure _
    exact (Action.matching_of_seen_eq ran).imp fun _ _ => alike_of_current_eq

/-- A heap with a block that a client has written into goes on as a new one does. -/
theorem init_matching_used :
    ∃ h answers, (Heap.run [.init, .allocate 16, .write 32 0 [7]]).run (new (.withLimit 4096)
        { HeapConfig.standard with chunkSize := 64, placement := .front }) = .ok answers h ∧
      h.memory.byte 32 = 7 ∧ h.counters.allocs = 1 ∧
      ∃ h₁ h₂,
        (Heap.run [.init, .allocate 40]).run h = .ok [.laidOut (.ok ()), .block (some 32)] h₁ ∧
        (Heap.run [.init, .allocate 40]).run h.renewed =
          .ok [.laidOut (.ok ()), .block (some 32)] h₂ ∧
        Alike h₁ h₂ ∧ h₁.counters.allocs = 2 := by
  have ran : ((do
      let _ ← Heap.run [.init, .allocate 16, .write 32 0 [7]]
      let before ← view fun h => (h.memory.byte 32, h.counters.allocs)
      let answers ← Heap.run [.init, .allocate 40]
      let after ← view (·.counters.allocs)
      return (before, answers, after) :
        Action (Heap LimitedArena) ((UInt8 × Nat) × List Answer × Nat)).result
        (new (.withLimit 4096)
          { HeapConfig.standard with chunkSize := 64, placement := .front })).map (·.1) =
      .ok ((7, 1), [.laidOut (.ok ()), .block (some 32)], 2) := by decide +kernel
  obtain ⟨_, ran⟩ := Action.exists_run_of_result ran
  obtain ⟨answers, h, used, ran⟩ := Action.run_bind_eq_ok.mp ran
  obtain ⟨before, _, viewed, ran⟩ := Action.run_bind_eq_ok.mp ran
  obtain ⟨again, h₁, laidOut, ran⟩ := Action.run_bind_eq_ok.mp ran
  obtain ⟨after, _, counted, ran⟩ := Action.run_bind_eq_ok.mp ran
  cases ran
  obtain ⟨shown, rfl⟩ := run_view_eq_ok.mp viewed
  obtain ⟨allocs, rfl⟩ := run_view_eq_ok.mp counted
  have matching := (init_matching h).2 [.allocate 40]
  rw [laidOut] at matching
  generalize renewed : (Heap.run [.init, .allocate 40]).run h.renewed = outcome at matching
  cases matching with
  | @ok _ _ h₂ alike =>
    exact ⟨h, answers, used, congrArg Prod.fst shown, congrArg Prod.snd shown, h₁, h₂, laidOut,
      renewed, alike, allocs⟩

end Heap

end BoundaryHeap
