import BoundaryHeap.Heap.Growth
import BoundaryHeap.Proofs.Action

/-!
The steps that every operation of a heap is made of, over any arena: questions, counts and records.
Records are beside the point in what operations are asked to do: `Agrees` relates heaps that differ
in them alone.
-/

namespace BoundaryHeap.Heap

variable {A : Type} {h h' : Heap A}

/-- The same heap but for the records. -/
def Agrees (h h' : Heap A) : Prop :=
  ∃ next records, h' = { h with nextRecord := next, records := records }

/-- The heap with a number of failed requests more. -/
def missed (h : Heap A) (failures : Nat) : Heap A :=
  { h with counters := { h.counters with failedAllocs := h.counters.failedAllocs + failures } }

theorem Agrees.refl (h : Heap A) : Agrees h h := ⟨_, _, rfl⟩

theorem Agrees.trans {h'' : Heap A} (first : Agrees h h') (second : Agrees h' h'') :
    Agrees h h'' := by
  obtain ⟨_, _, rfl⟩ := first
  obtain ⟨_, _, rfl⟩ := second
  exact ⟨_, _, rfl⟩

/-- Failed requests add up, whatever records are kept in between. -/
theorem Agrees.missed {h'' : Heap A} {first second : Nat} (before : Agrees (h.missed first) h')
    (after : Agrees (h'.missed second) h'') : Agrees (h.missed (first + second)) h'' := by
  obtain ⟨_, _, rfl⟩ := before
  obtain ⟨next, records, rfl⟩ := after
  refine ⟨next, records, ?_⟩
  simp only [Heap.missed, Nat.add_assoc]

variable {α β : Type} {excused : Fault → Prop} {post : β → Heap A → Prop}

theorem run_view_eq_ok {question : Heap A → α} {answer : α} :
    (view question).run h = .ok answer h' ↔ question h = answer ∧ h = h' := by
  constructor
  · rintro ⟨⟩
    exact ⟨rfl, rfl⟩
  · rintro ⟨rfl, rfl⟩
    rfl

theorem view_ensures {question : Heap A → α} {value : α} {next : α → Action (Heap A) β}
    (known : question h = value) (rest : (next value).Ensures h excused post) :
    (view question >>= next).Ensures h excused post :=
  .ask (congrArg Except.ok known) rest

theorem count_ensures {change : Counters → Counters} {next : Unit → Action (Heap A) β}
    (rest : (next ()).Ensures { h with counters := change h.counters } excused post) :
    (count change >>= next).Ensures h excused post :=
  .modify rest

variable [Arena A]

theorem agrees_withRecord (level : Level) (symbol event : String) (ptr size : Option Nat)
    (outcome details : String) :
    Agrees h (h.withRecord level symbol event ptr size outcome details) := by
  unfold withRecord
  split
  · exact .refl h
  · exact ⟨_, _, rfl⟩

/-- What follows a record may rely on everything but the records. -/
theorem record_ensures {level : Level} {symbol event : String} {ptr size : Option Nat}
    {outcome details : String} {next : Unit → Action (Heap A) β}
    (rest : ∀ h', Agrees h h' → (next ()).Ensures h' excused post) :
    (record level symbol event ptr size outcome details >>= next).Ensures h excused post :=
  .modify (rest _ (agrees_withRecord ..))

theorem check_eq_of_not_initialized (idle : h.initialized = false) : h.check = .ok [] :=
  if_neg (by simp [idle])

/-- Scanning a heap without a violation does nothing. -/
theorem afterwards_run (clean : h.check = .ok []) (symbol : String) :
    (afterwards symbol).run h = .ok () h := by
  have known : (afterwards symbol).Ensures h Action.Total fun _ h' => h' = h := by
    unfold afterwards
    apply view_ensures rfl
    cases h.config.check.scansAlways with
    | false => exact .pure rfl
    | true => exact .ask clean (.of_run rfl rfl)
  obtain ⟨_, _, ran, rfl⟩ := known.exists_run
  exact ran

theorem afterwards_ensures (clean : h.check = .ok []) (symbol : String) :
    (afterwards symbol).Ensures h excused fun _ h' => h' = h :=
  .of_run (afterwards_run clean symbol) rfl

/-- The scan that follows an operation with nothing to find does not show. -/
theorem scanned_run {act : Action (Heap A) α} {answer : α} (ran : act.run h = .ok answer h')
    (clean : h'.check = .ok []) (symbol : String) :
    (do let answer ← act; afterwards symbol; return answer : Action _ α).run h = .ok answer h' :=
  Action.run_bind_eq_ok.mpr ⟨_, _, ran,
    Action.run_bind_eq_ok.mpr ⟨_, _, afterwards_run clean symbol, rfl⟩⟩

/-- The scan after a request that leaves nothing to find changes nothing. -/
theorem scanned_ensures {act : Action (Heap A) α} {post : α → Heap A → Prop}
    (ensured : act.Ensures h excused post)
    (clean : ∀ answer h', post answer h' → h'.check = .ok []) (symbol : String) :
    (do let answer ← act; afterwards symbol; return answer : Action _ α).Ensures
      h excused post := by
  refine ensured.bind fun answer h₁ holds => ?_
  exact .step (afterwards_run (clean answer h₁ holds) symbol) (.pure holds)

end BoundaryHeap.Heap
