import BoundaryHeap.Proofs.Sizing
import BoundaryHeap.Proofs.Stopped

/-!
What becomes of a heap whose arena grows otherwise than asked. The arena is watched, and no law of
it is assumed. A call in which it breaks its contract still ends with an answer: the layout fails
and a request is refused, nothing is written after the broken growth, and the heap is stopped from
then on.
-/

namespace BoundaryHeap

/-- An arena that is watched whenever it is asked to grow. -/
structure Watched (A : Type) where
  arena : A
  /-- How often it was asked. -/
  calls : Nat
  /-- How often it then grew otherwise than asked. -/
  breaks : Nat

/-- Asked for `increment` bytes, the arena has grown by as many, and `start` is where they are. -/
def Arena.Keeps {A : Type} [Arena A] (increment start : Nat) (before after : A) : Prop :=
  start = (Arena.memory before).size ∧
    (Arena.memory after).size = (Arena.memory before).size + increment

instance {A : Type} [Arena A] (increment start : Nat) (before after : A) :
    Decidable (Arena.Keeps increment start before after) := inferInstanceAs (Decidable (_ ∧ _))

namespace Watched

variable {A : Type} [Arena A]

/-- Grows as the arena does, and counts. -/
def grow (increment : Nat) : Action (Watched A) (Option Nat) := fun w =>
  match (Arena.grow increment).run w.arena with
  | .ok none arena => .ok none ⟨arena, w.calls + 1, w.breaks⟩
  | .ok (some start) arena =>
    let breaks := if Arena.Keeps increment start w.arena arena then w.breaks else w.breaks + 1
    .ok (some start) ⟨arena, w.calls + 1, breaks⟩
  | .error fault arena => .error fault ⟨arena, w.calls + 1, w.breaks⟩

instance : Arena (Watched A) where
  memory w := Arena.memory w.arena
  setMemory w memory := { w with arena := Arena.setMemory w.arena memory }
  grow := grow
  reset w := { w with arena := Arena.reset w.arena }

end Watched

/-- The errors of a heap whose arena has grown otherwise than asked. -/
inductive HeapError.Broken : HeapError → Prop
  | start {expected returned : Nat} : Broken (.nonContiguousGrowth expected returned)
  | size {requested grown : Nat} : Broken (.growthSizeMismatch requested grown)

/-- How a call is answered in which the arena has grown otherwise than asked. -/
inductive CutShort : Call → Answer → Prop
  | init {error : HeapError} (broken : error.Broken) : CutShort .init (.laidOut (.error error))
  | allocate {size : Nat} : CutShort (.allocate size) (.block none)
  | calloc {items size : Nat} : CutShort (.calloc items size) (.block none)
  | resize {ptr size : Nat} : CutShort (.resize ptr size) (.block none)

namespace Heap

/-! ## Steps that leave the arena alone -/

section Rests

variable {A : Type} {symbol : String}

/-- What no step but a growth or an edit changes. -/
abbrev ground (h : Heap A) : A × FreeList := (h.arena, h.freeList)

theorem count_rests (change : Counters → Counters) : (count (A := A) change).Preserves ground :=
  .modify fun _ => rfl

variable [Arena A]

theorem record_rests {level : Level} {event : String} {ptr size : Option Nat}
    {outcome details : String} :
    (record (A := A) level symbol event ptr size outcome details).Preserves ground := by
  apply Action.Preserves.modify
  intro h
  obtain ⟨_, _, same⟩ := agrees_withRecord (h := h) level symbol event ptr size outcome details
  rw [same]

theorem ready_rests : (ready (A := A) symbol).Preserves ground := by
  unfold ready
  refine .bind (.ask _) fun serves => ?_
  split
  · exact .pure _
  · exact record_rests.bind fun _ => .pure _

theorem accepts_rests (ptr : Nat) : (accepts (A := A) symbol ptr).Preserves ground := by
  unfold accepts
  refine .bind (.ask _) fun tests => ?_
  split
  · refine .bind (.ask _) fun outcome => ?_
    cases outcome with
    | ok _ => exact .pure _
    | error violation =>
      exact (count_rests _).bind fun _ => record_rests.bind fun _ => .pure _
  · exact .pure _

theorem readyFor_rests (ptr : Nat) : (readyFor (A := A) symbol ptr).Preserves ground := by
  unfold readyFor
  refine ready_rests.bind fun serves => ?_
  split
  · exact accepts_rests ptr
  · exact .pure _

theorem sized_rests (request : Nat) : (sized (A := A) symbol request).Preserves ground := by
  unfold sized
  split
  · exact .pure _
  · exact (count_rests _).bind fun _ => record_rests.bind fun _ => .pure _

end Rests

/-! ## Steps in which the arena breaks nothing -/

section Calm

variable {A α : Type} {symbol : String}

/-- How often the arena has grown otherwise than asked. -/
abbrev breaks (h : Heap (Watched A)) : Nat := h.arena.breaks

theorem calm_of_rests {act : Action (Heap (Watched A)) α} (rests : act.Preserves ground) :
    act.Preserves breaks :=
  fun s => congrArg (·.1.breaks) (rests s)

theorem count_calm (change : Counters → Counters) :
    (count (A := Watched A) change).Preserves breaks :=
  calm_of_rests (count_rests change)

variable [Arena A]

theorem edit_calm (act : Action Region α) : (edit (A := Watched A) act).Preserves breaks :=
  .focus fun _ _ => rfl

theorem record_calm {level : Level} {event : String} {ptr size : Option Nat}
    {outcome details : String} :
    (record (A := Watched A) level symbol event ptr size outcome details).Preserves breaks :=
  calm_of_rests record_rests

theorem afterwards_calm : (afterwards (A := Watched A) symbol).Preserves breaks := by
  unfold afterwards
  refine .bind (.ask _) fun scans => ?_
  split
  · refine .bind (.ask _) fun violations => .modify fun h => ?_
    induction violations generalizing h with
    | nil => rfl
    | cons violation rest ih =>
      obtain ⟨_, _, same⟩ := agrees_withRecord (h := h) .error symbol "invariant_violation" none
        none violation.label violation.message
      rw [List.foldl_cons, ih, same]
  · exact .pure _

theorem releaseAs_calm (ptr : Nat) : (releaseAs (A := Watched A) symbol ptr).Preserves breaks := by
  unfold releaseAs
  split
  · exact record_calm
  refine (calm_of_rests (readyFor_rests ptr)).bind fun serves => ?_
  split
  · refine .bind (.ask _) fun size => (edit_calm _).bind fun start => ?_
    exact (count_calm _).bind fun _ => record_calm
  · exact .pure _

theorem patch_calm (ptr offset : Nat) (values : List UInt8) :
    (patch (A := Watched A) ptr offset values).Preserves breaks := by
  unfold patch
  refine .bind (.ask _) fun usable => ?_
  cases usable with
  | none => exact .pure _
  | some length =>
    simp only []
    split
    · exact fun _ => rfl
    · exact (edit_calm _).bind fun _ => .pure _

end Calm

/-! ## Steps in which the arena may break -/

section Alarms

variable {A α β : Type} {h s s' : Heap (Watched A)} {symbol : String}

/-- Run in `s`, either the arena breaks nothing, or the action answers as `alarm` asks. -/
def Alarms (act : Action (Heap (Watched A)) α) (s : Heap (Watched A))
    (alarm : α → Heap (Watched A) → Prop) : Prop :=
  match act.run s with
  | .ok answer s' => s'.breaks = s.breaks ∨ alarm answer s'
  | .error _ s' => s'.breaks = s.breaks

namespace Alarms

variable {act : Action (Heap (Watched A)) α} {next : α → Action (Heap (Watched A)) β}
  {alarm alarm' : α → Heap (Watched A) → Prop} {last : β → Heap (Watched A) → Prop}

theorem of_calm (calm : act.Preserves breaks) : Alarms act s alarm := by
  unfold Alarms
  split <;> rename_i ran
  · exact .inl (calm.of_ok ran)
  · exact calm.of_error ran

theorem imp (alarms : Alarms act s alarm)
    (weaker : ∀ answer s', alarm answer s' → alarm' answer s') : Alarms act s alarm' := by
  unfold Alarms at *
  split <;> rename_i ran <;> rw [ran] at alarms
  · exact alarms.imp_right (weaker _ _)
  · exact alarms

/-- After a broken growth what follows has to end in an answer; otherwise it may still break. -/
theorem bind (first : Alarms act s alarm)
    (quiet : ∀ answer s', act.run s = .ok answer s' → Alarms (next answer) s' last)
    (broken : ∀ answer s', alarm answer s' → (next answer).Ensures s' Action.Total last) :
    Alarms (act >>= next) s last := by
  unfold Alarms at first ⊢
  rw [EStateM.run_bind]
  cases ran : act.run s with
  | error fault s' =>
    rw [ran] at first
    exact first
  | ok answer s' =>
    rw [ran] at first
    simp only []
    rcases first with same | alarmed
    · have rest := quiet answer s' ran
      unfold Alarms at rest
      split <;> rename_i ran' <;> rw [ran'] at rest
      · exact rest.imp_left fun rest => rest.trans same
      · exact rest.trans same
    · obtain ⟨_, _, ran', holds⟩ := (broken answer s' alarmed).exists_run
      rw [ran']
      exact .inr holds

/-- A first step that leaves the arena and the list alone. -/
theorem after_rest (rests : act.Preserves ground)
    (then_ : ∀ answer s', s'.ground = s.ground → Alarms (next answer) s' last) :
    Alarms (act >>= next) s last := by
  have never : Alarms act s fun _ _ => False := of_calm (calm_of_rests rests)
  refine never.bind (fun answer s' ran => ?_) fun _ _ impossible => impossible.elim
  exact then_ answer s' (rests.of_ok ran)

theorem ask {question : Heap (Watched A) → Except Fault α}
    (then_ : ∀ answer, Alarms (next answer) s last) :
    Alarms (Action.ask question >>= next) s last := by
  have never : Alarms (Action.ask question) s fun _ _ => False := of_calm (.ask _)
  refine never.bind (fun answer s' ran => ?_) fun _ _ impossible => impossible.elim
  rw [Action.run_ask] at ran
  split at ran <;> cases ran
  exact then_ answer

end Alarms

variable [Arena A]

/-- A heap that has stopped in a broken growth, since `h`: the arena is as the growth left it. -/
structure Halted (h s : Heap (Watched A)) : Prop where
  stopped : s.Stopped
  freeList : s.freeList = h.freeList
  grew : ∃ increment start, (Arena.grow increment).run h.arena = .ok (some start) s.arena

namespace Halted

theorem missed {failures : Nat} (halted : h.Halted s) (agrees : Agrees (s.missed failures) s') :
    h.Halted s' := by
  have stopped := halted.stopped.missed agrees
  obtain ⟨_, _, rfl⟩ := agrees
  exact ⟨stopped, halted.freeList, halted.grew⟩

theorem agrees (halted : h.Halted s) (agrees : Agrees s s') : h.Halted s' := by
  have stopped := halted.stopped.agrees agrees
  obtain ⟨_, _, rfl⟩ := agrees
  exact ⟨stopped, halted.freeList, halted.grew⟩

/-- Steps in front of the growth that leave the arena and the list alone do not matter. -/
theorem of_ground (halted : s.Halted s') (same : s.ground = h.ground) : h.Halted s' := by
  obtain ⟨arena, freeList⟩ := Prod.mk.inj same
  exact ⟨halted.stopped, halted.freeList.trans freeList, arena ▸ halted.grew⟩

end Halted

/-- Asking a watched arena to grow. -/
theorem growArena_alarms (increment : Nat) :
    Alarms (growArena increment) s fun answer s' => ∃ start arena, answer = some start ∧
      (Arena.grow increment).run s.arena = .ok (some start) arena ∧ s' = { s with arena } ∧
      ¬ Arena.Keeps increment start s.arena arena := by
  unfold Alarms growArena
  rw [Action.run_focus]
  simp only []
  cases ran : (Arena.grow increment).run s.arena with
  | error fault arena =>
    have same : arena.breaks = s.arena.breaks := by
      replace ran : (Watched.grow increment) s.arena = .error fault arena := ran
      unfold Watched.grow at ran
      split at ran <;> cases ran
      rfl
    exact same
  | ok answer arena =>
    replace ran : (Watched.grow increment) s.arena = .ok answer arena := ran
    unfold Watched.grow at ran
    split at ran <;> cases ran
    · exact .inl rfl
    · rename_i start inner _
      by_cases kept : Arena.Keeps increment start s.arena.arena inner
      · exact .inl (if_pos kept)
      · exact .inr ⟨start, _, rfl, rfl, rfl, kept⟩

/-- A broken growth is found out at once, and stops the heap. -/
theorem growContiguous_alarms {increment : Nat} (some : increment ≠ 0) :
    Alarms (growContiguous increment) s fun answer s' =>
      ∃ error, answer = .error error ∧ error.Broken ∧ s.Halted s' := by
  unfold growContiguous
  have expected : (view (A := Watched A) fun h => h.memory.size).run s = .ok s.memory.size s := rfl
  have never : Alarms (view fun h => h.memory.size) s fun _ _ => False := .of_calm (.ask _)
  refine never.bind (fun _ _ ran => ?_) fun _ _ impossible => impossible.elim
  cases expected.symm.trans ran
  apply (growArena_alarms increment).bind
  · intro answer s₁ _
    apply Alarms.of_calm
    cases answer with
    | none => exact .pure _
    | some start =>
      simp only []
      split
      · exact .bind (.modify fun _ => rfl) fun _ => .pure _
      refine .bind (.ask _) fun size => ?_
      split
      · exact .bind (.modify fun _ => rfl) fun _ => .pure _
      · exact (count_calm _).bind fun _ => .pure _
  · rintro _ _ ⟨start, arena, rfl, grew, rfl, broken⟩
    simp only []
    split
    · exact .modify (.pure ⟨_, rfl, .start, rfl, rfl, increment, start, grew⟩)
    next contiguous =>
      replace contiguous : start = s.memory.size := not_not.mp contiguous
      have differs : ¬ (Arena.memory arena).size = s.memory.size + increment :=
        fun same => broken ⟨contiguous, same⟩
      have other : (Arena.memory arena).size - s.memory.size ≠ increment := by omega
      apply view_ensures (rfl : _ = (Arena.memory arena).size)
      rw [if_pos other]
      exact .modify (.pure ⟨_, rfl, .size, rfl, rfl, increment, start, grew⟩)

theorem extend_alarms (request : Nat) :
    Alarms (extend symbol request) s fun answer s' =>
      ∃ error, answer = .error error ∧ error.Broken ∧ s.Halted s' := by
  unfold extend
  split
  · exact .of_calm (.pure _)
  next size rounded =>
    have enough : Block.minSize ≤ size :=
      Nat.le_trans (Nat.le_max_right ..) (Block.le_of_roundUp rounded)
    have some : size ≠ 0 := Nat.ne_of_gt (Nat.lt_of_lt_of_le (by decide) enough)
    apply (growContiguous_alarms some).bind
    · intro answer s₁ _
      apply Alarms.of_calm
      cases answer with
      | error error => exact record_calm.bind fun _ => .pure _
      | ok start =>
        refine (edit_calm _).bind fun _ => .bind (.ask _) fun bytes => record_calm.bind fun _ => ?_
        exact (edit_calm _).bind fun _ => .pure _
    · rintro _ s₁ ⟨error, rfl, broken, halted⟩
      exact record_ensures fun s₂ agrees => .pure ⟨error, rfl, broken, halted.agrees agrees⟩

theorem supply_alarms (size : Nat) :
    Alarms (supply symbol size) s fun answer s' => answer = none ∧ s.Halted s' := by
  unfold supply
  refine .ask fun fit => ?_
  cases fit with
  | some bp => exact .of_calm (.pure _)
  | none =>
    refine .ask fun chunk => ?_
    apply (extend_alarms _).bind
    · intro answer s₁ _
      apply Alarms.of_calm
      cases answer with
      | error error => exact (count_calm _).bind fun _ => .pure _
      | ok bp => exact .pure _
    · rintro _ s₁ ⟨error, rfl, -, halted⟩
      exact count_ensures (.pure ⟨rfl, halted.missed (.refl (s₁.missed 1))⟩)

theorem allocateAs_alarms (request : Nat) :
    Alarms (allocateAs symbol request) s fun answer s' => answer = none ∧ s.Halted s' := by
  unfold allocateAs
  refine .after_rest ready_rests fun serves s₁ same₁ => ?_
  split
  · exact .of_calm (.pure _)
  split
  · exact .of_calm (record_calm.bind fun _ => .pure _)
  refine .after_rest (sized_rests request) fun found s₂ same₂ => ?_
  cases found with
  | none => exact .of_calm (.pure _)
  | some size =>
    apply (supply_alarms size).bind
    · intro answer s₃ _
      apply Alarms.of_calm
      cases answer with
      | none => exact .pure _
      | some found =>
        refine .bind (.ask _) fun policy => (edit_calm _).bind fun ptr => ?_
        exact (count_calm _).bind fun _ => record_calm.bind fun _ => .pure _
    · rintro _ s₃ ⟨rfl, halted⟩
      exact .pure ⟨rfl, halted.of_ground (same₂.trans same₁)⟩

theorem enlarge_alarms (ptr current size request : Nat) :
    Alarms (enlarge symbol ptr current size request) s fun answer s' =>
      answer = none ∧ s.Halted s' := by
  unfold enlarge
  refine .after_rest (.lift _) fun next s₁ same₁ => .ask fun behind => .ask fun front => ?_
  refine .after_rest (.lift _) fun room s₂ same₂ => ?_
  cases room with
  | behind =>
    exact .of_calm ((edit_calm _).bind fun _ => (count_calm _).bind fun _ =>
      record_calm.bind fun _ => .pure _)
  | around =>
    exact .of_calm ((edit_calm _).bind fun _ => (count_calm _).bind fun _ =>
      record_calm.bind fun _ => .pure _)
  | elsewhere =>
    apply (allocateAs_alarms request).bind
    · intro answer s₃ _
      apply Alarms.of_calm
      cases answer with
      | none => exact .pure _
      | some target =>
        exact (edit_calm _).bind fun _ => (count_calm _).bind fun _ =>
          record_calm.bind fun _ => .pure _
    · rintro _ s₃ ⟨rfl, halted⟩
      exact .pure ⟨rfl, halted.of_ground (same₂.trans same₁)⟩

theorem resizeAs_alarms (ptr request : Nat) :
    Alarms (resizeAs symbol ptr request) s fun answer s' => answer = none ∧ s.Halted s' := by
  unfold resizeAs
  split
  · exact allocateAs_alarms request
  split
  · exact .of_calm ((releaseAs_calm ptr).bind fun _ => .pure _)
  refine .after_rest (readyFor_rests ptr) fun serves s₁ same₁ => ?_
  split
  · exact .of_calm (.pure _)
  refine .after_rest (sized_rests request) fun found s₂ same₂ => ?_
  cases found with
  | none => exact .of_calm (.pure _)
  | some size =>
    refine .ask fun current => ?_
    split
    · exact .of_calm ((edit_calm _).bind fun _ => (count_calm _).bind fun _ =>
        record_calm.bind fun _ => .pure _)
    · refine (enlarge_alarms ptr current size request).imp ?_
      rintro answer s₃ ⟨refused, halted⟩
      exact ⟨refused, halted.of_ground (same₂.trans same₁)⟩

theorem callocAs_alarms (items size : Nat) :
    Alarms (callocAs symbol items size) s fun answer s' => answer = none ∧ s.Halted s' := by
  unfold callocAs
  split
  · exact .of_calm ((count_calm _).bind fun _ => record_calm.bind fun _ => .pure _)
  · apply (allocateAs_alarms (items * size)).bind
    · intro answer s₁ _
      apply Alarms.of_calm
      cases answer with
      | none => exact .pure _
      | some ptr => exact (edit_calm _).bind fun _ => .pure _
    · rintro _ s₁ ⟨rfl, halted⟩
      exact .pure ⟨rfl, halted⟩

/-- The scan after a request that has stopped the heap changes nothing. -/
theorem scanned_alarms {act : Action (Heap (Watched A)) (Option Nat)}
    (alarms : Alarms act s fun answer s' => answer = none ∧ s.Halted s') (symbol : String) :
    Alarms (do let answer ← act; afterwards symbol; return answer) s fun answer s' =>
      answer = none ∧ s.Halted s' := by
  apply alarms.bind
  · exact fun answer s₁ _ => .of_calm (afterwards_calm.bind fun _ => .pure _)
  · rintro answer s₁ ⟨refused, halted⟩
    apply (afterwards_ensures halted.stopped.check_eq symbol).bind
    rintro _ _ rfl
    exact .pure ⟨refused, halted⟩

/-- The layout asks for memory twice, and can break each time. -/
theorem layOut_alarms :
    Alarms layOut s fun result s' => ∃ error, result = .error error ∧ error.Broken ∧
      s'.Stopped := by
  have some : 4 * Block.wordSize ≠ 0 := by decide
  unfold layOut
  apply (growContiguous_alarms some).bind
  · intro answer s₁ _
    cases answer with
    | error error => exact .of_calm (.pure _)
    | ok base =>
      refine .after_rest (.lift _) fun prologue s₂ _ => ?_
      have edited : Alarms (A := A) (edit <| Region.onMemory do
          Memory.writeWord base 0
          Memory.writeTags prologue (Tag.used Block.prologueSize)
          closeAt (← Checked.add prologue Block.prologueSize)) s₂ fun _ _ => False :=
        .of_calm (edit_calm _)
      refine edited.bind (fun _ s₃ _ => ?_) fun _ _ impossible => impossible.elim
      refine .after_rest (.modify fun _ => rfl) fun _ s₄ _ => .ask fun chunk => ?_
      apply (extend_alarms chunk).bind
      · intro answer s₅ _
        apply Alarms.of_calm
        cases answer <;> exact .pure _
      · rintro _ s₅ ⟨error, rfl, broken, halted⟩
        exact .pure ⟨error, rfl, broken, halted.stopped⟩
  · rintro _ s₁ ⟨error, rfl, broken, halted⟩
    exact .pure ⟨error, rfl, broken, halted.stopped⟩

theorem init_alarms :
    Alarms init s fun result s' => ∃ error, result = .error error ∧ error.Broken ∧ s'.Stopped := by
  unfold init
  have reset : Alarms (A := A) (modify fun h =>
      { h with
        arena := Arena.reset h.arena
        freeList := .empty
        prologue := 0
        initialized := false }) s fun _ _ => False := .of_calm (.modify fun _ => rfl)
  refine reset.bind (fun _ s₁ _ => ?_) fun _ _ impossible => impossible.elim
  apply layOut_alarms.bind
  · intro result s₂ _
    apply Alarms.of_calm
    refine .bind ?_ fun _ => afterwards_calm.bind fun _ => .pure _
    cases result with
    | ok _ => exact .bind (.modify fun _ => rfl) fun _ => .bind (.ask _) fun _ => record_calm
    | error error => exact record_calm
  · rintro _ s₂ ⟨error, rfl, broken, stopped⟩
    have concluded : (conclude (A := Watched A) (.error error)).Ensures s₂ Action.Total
        fun _ s₃ => Agrees s₂ s₃ := .of_run rfl (agrees_withRecord ..)
    apply concluded.bind
    intro _ s₃ agrees
    have stopped₃ : s₃.Stopped := stopped.agrees agrees
    apply (afterwards_ensures stopped₃.check_eq "init").bind
    rintro _ _ rfl
    exact .pure ⟨error, rfl, broken, stopped₃⟩

/-- A call in which the arena breaks is cut short. -/
theorem call_alarms (call : Call) :
    Alarms (Heap.call call) s fun answer s' =>
      CutShort call answer ∧ s'.Stopped ∧ (call ≠ .init → s.Halted s') := by
  cases call with
  | init =>
    refine init_alarms.bind (fun _ _ _ => .of_calm (.pure _)) ?_
    rintro _ s' ⟨error, rfl, broken, stopped⟩
    exact .pure ⟨.init broken, stopped, fun other => absurd rfl other⟩
  | allocate request =>
    refine (scanned_alarms (allocateAs_alarms request) "allocate").bind
      (fun _ _ _ => .of_calm (.pure _)) ?_
    rintro _ s' ⟨rfl, halted⟩
    exact .pure ⟨.allocate, halted.stopped, fun _ => halted⟩
  | calloc items size =>
    refine (scanned_alarms (callocAs_alarms items size) "calloc").bind
      (fun _ _ _ => .of_calm (.pure _)) ?_
    rintro _ s' ⟨rfl, halted⟩
    exact .pure ⟨.calloc, halted.stopped, fun _ => halted⟩
  | release ptr =>
    refine .of_calm (.bind ?_ fun _ => .pure _)
    exact (releaseAs_calm ptr).bind fun _ => afterwards_calm
  | resize ptr request =>
    refine (scanned_alarms (resizeAs_alarms ptr request) "resize").bind
      (fun _ _ _ => .of_calm (.pure _)) ?_
    rintro _ s' ⟨rfl, halted⟩
    exact .pure ⟨.resize, halted.stopped, fun _ => halted⟩
  | write ptr offset values => exact .of_calm ((patch_calm ptr offset values).bind fun _ => .pure _)

/-- A call in which the arena grows otherwise than asked is answered all the same: the layout fails
and a request is refused. Nothing is written after the growth. The heap is then out of service, and
turns every call away without asking its arena for anything until it is laid out again. -/
theorem stops_of_broken (h : Heap (Watched A)) (call : Call)
    (broke : h.breaks < ((Heap.call call).last h).breaks) :
    ∃ answer h', (Heap.call call).run h = .ok answer h' ∧ CutShort call answer ∧
      h'.initialized = false ∧
      (call ≠ .init → h'.freeList = h.freeList ∧
        ∃ increment start, (Arena.grow increment).run h.arena = .ok (some start) h'.arena) ∧
      ∀ calls, .init ∉ calls → ∃ answers h'', (Heap.run calls).run h' = .ok answers h'' ∧
        List.Forall₂ TurnedAway calls answers ∧
        Agrees (h'.missed (calls.map Call.misses).sum) h'' ∧
        h''.arena = h'.arena ∧ h''.freeList = h'.freeList ∧ h''.initialized = false ∧
        h''.check = .ok [] ∧ ∀ ptr, h''.usableSize ptr = .ok none ∧ h''.payload ptr = .ok none := by
  have alarms := call_alarms (s := h) call
  unfold Alarms at alarms
  unfold Action.last at broke
  cases ran : (Heap.call call).run h with
  | error fault h' =>
    rw [ran] at alarms broke
    exact absurd alarms (Nat.ne_of_gt broke)
  | ok answer h' =>
    rw [ran] at alarms broke
    obtain ⟨short, stopped, halted⟩ := alarms.resolve_left (Nat.ne_of_gt broke)
    refine ⟨answer, h', rfl, short, stopped, ?_, fun calls others => ?_⟩
    · exact fun other => ⟨(halted other).freeList, (halted other).grew⟩
    · obtain ⟨answers, h'', ran', away, agrees⟩ := (stopped.run_ensures others).exists_run
      have still := stopped.missed agrees
      refine ⟨answers, h'', ran', away, agrees, ?_, ?_, still, still.check_eq,
        fun ptr => ⟨still.usableSize_eq ptr, still.payload_eq ptr⟩⟩
      all_goals
        obtain ⟨_, _, rfl⟩ := agrees
        rfl

/-- An arena that at its third call grows by sixteen bytes more than asked for. -/
def overlong : Watched ScriptedArena :=
  ⟨⟨.withLimit 4096, 0, fun calls => if calls = 3 then some ⟨false, 16, 0, []⟩ else none⟩, 0, 0⟩

theorem stops_of_broken_overlong :
    ∃ h h', init.run (new overlong { HeapConfig.standard with chunkSize := 64 }) = .ok (.ok ()) h ∧
      (Heap.call (.allocate 200)).run h = .ok (.block none) h' ∧ h'.initialized = false ∧
      ∃ answers h'', (Heap.run [.resize 0 8, .release 32]).run h' = .ok answers h'' ∧
        h''.arena = h'.arena := by
  have ran : ((do
      let laidOut ← init
      let before ← view breaks
      let ptr ← allocate 200
      let after ← view breaks
      return (laidOut.isOk, before, ptr, after) :
        Action (Heap (Watched ScriptedArena)) (Bool × Nat × Option Nat × Nat)).result
        (new overlong { HeapConfig.standard with chunkSize := 64 })).map (·.1) =
      .ok (true, 0, none, 1) := by decide +kernel
  obtain ⟨h', ran⟩ := Action.exists_run_of_result ran
  obtain ⟨laidOut, h, first, ran⟩ := Action.run_bind_eq_ok.mp ran
  obtain ⟨_, _, seen, ran⟩ := Action.run_bind_eq_ok.mp ran
  obtain ⟨rfl, rfl⟩ := run_view_eq_ok.mp seen
  obtain ⟨ptr, h₁, second, ran⟩ := Action.run_bind_eq_ok.mp ran
  obtain ⟨_, _, seen', ran⟩ := Action.run_bind_eq_ok.mp ran
  obtain ⟨rfl, rfl⟩ := run_view_eq_ok.mp seen'
  have called : (Heap.call (.allocate 200)).run h = .ok (.block ptr) h₁ :=
    Action.run_bind_eq_ok.mpr ⟨ptr, h₁, second, rfl⟩
  injection ran with answers
  obtain ⟨laid, answers⟩ := Prod.mk.inj answers
  obtain ⟨before, answers⟩ := Prod.mk.inj answers
  obtain ⟨rfl, after⟩ := Prod.mk.inj answers
  obtain rfl : laidOut = .ok () := by cases laidOut <;> first | rfl | cases laid
  have broke : h.breaks < ((Heap.call (.allocate 200)).last h).breaks := by
    unfold Action.last
    rw [called, before]
    show 0 < h₁.breaks
    omega
  obtain ⟨_, _, again, -, stopped, -, later⟩ := stops_of_broken h (.allocate 200) broke
  cases called.symm.trans again
  obtain ⟨answers, h'', ran, -, -, same, -⟩ := later [.resize 0 8, .release 32] (by decide)
  exact ⟨h, _, first, called, stopped, answers, h'', ran, same⟩

end Alarms

end Heap

end BoundaryHeap
