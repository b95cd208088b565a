import BoundaryHeap.Heap.Call
import BoundaryHeap.Proofs.Steps

/-!
Two heaps that go on alike. An operation goes by the `visible` part of a heap: its records, its
running totals and the level from which on it keeps records never show in what the operation does.
So a relation between heaps with the same visible part lasts through every operation if it lasts
through the few changes that operations are made of. `Parallel` names those changes; the records of
the two heaps may be made under different names.
-/

namespace BoundaryHeap

namespace Action

variable {σ τ α β : Type} {R : σ → σ → Prop}

/-- Two outcomes have the same answer or the same fault, and leave states that are related. -/
inductive Matching (R : σ → σ → Prop) : EStateM.Result Fault σ α → EStateM.Result Fault σ α → Prop
  | ok (answer : α) {s s' : σ} (related : R s s') : Matching R (.ok answer s) (.ok answer s')
  | error (fault : Fault) {s s' : σ} (related : R s s') :
    Matching R (.error fault s) (.error fault s')

theorem Matching.imp {R' : σ → σ → Prop} {first second : EStateM.Result Fault σ α}
    (matching : Matching R first second) (weaker : ∀ s s', R s s' → R' s s') :
    Matching R' first second := by
  cases matching with
  | ok answer related => exact .ok answer (weaker _ _ related)
  | error fault related => exact .error fault (weaker _ _ related)

/-- Run in related states the two actions answer the same, or meet the same fault, and leave related
states. -/
def Lockstep (R : σ → σ → Prop) (first second : Action σ α) : Prop :=
  ∀ ⦃s s'⦄, R s s' → Matching R (first.run s) (second.run s')

namespace Lockstep

theorem pure (answer : α) : Lockstep R (Pure.pure answer) (Pure.pure answer) :=
  fun _ _ related => .ok answer related

theorem throw (fault : Fault) :
    Lockstep R (MonadExcept.throw fault : Action σ α) (MonadExcept.throw fault) :=
  fun _ _ related => .error fault related

theorem bind {first second : Action σ α} {next next' : α → Action σ β}
    (head : Lockstep R first second) (rest : ∀ answer, Lockstep R (next answer) (next' answer)) :
    Lockstep R (first >>= next) (second >>= next') := by
  intro s s' related
  have matching := head related
  rw [EStateM.run_bind, EStateM.run_bind]
  generalize first.run s = outcome at matching ⊢
  generalize second.run s' = outcome' at matching ⊢
  cases matching with
  | ok answer related => exact rest answer related
  | error fault related => exact .error fault related

theorem ask {question : σ → Except Fault α} (same : ∀ s s', R s s' → question s = question s') :
    Lockstep R (ask question) (ask question) := by
  intro s s' related
  rw [run_ask, run_ask, same s s' related]
  cases question s' with
  | ok answer => exact .ok answer related
  | error fault => exact .error fault related

/-- Where the answers differ, what follows them has to make up for that. -/
theorem ask_bind {question : σ → α} {next : α → Action σ β}
    (rest : ∀ s s', R s s' → Lockstep R (next (question s)) (next (question s'))) :
    Lockstep R (Action.ask (fun s => .ok (question s)) >>= next)
      (Action.ask (fun s => .ok (question s)) >>= next) :=
  fun s s' related => rest s s' related related

theorem lift (computation : Except Fault α) :
    Lockstep R (liftM computation : Action σ α) (liftM computation) := by
  intro s s' related
  rw [run_lift, run_lift]
  cases computation with
  | ok answer => exact .ok answer related
  | error fault => exact .error fault related

theorem modify {change change' : σ → σ} (lasts : ∀ s s', R s s' → R (change s) (change' s')) :
    Lockstep R (modify change : Action σ PUnit) (modify change') :=
  fun s s' related => .ok _ (lasts s s' related)

theorem focus {split : σ → τ × (τ → σ)} {act : Action τ α}
    (same : ∀ s s', R s s' → (split s).1 = (split s').1)
    (lasts : ∀ s s', R s s' → ∀ part, R ((split s).2 part) ((split s').2 part)) :
    Lockstep R (focus split act) (focus split act) := by
  intro s s' related
  rw [run_focus, run_focus, same s s' related]
  cases act.run (split s').1 with
  | ok answer part => exact .ok answer (lasts s s' related part)
  | error fault part => exact .error fault (lasts s s' related part)

end Lockstep

end Action

open BoundaryHeap.Action (Lockstep)

namespace Heap

variable {A : Type}

/-- What operations go by: all of a heap but its records, its totals and its level. -/
def visible (h : Heap A) : Heap A :=
  { h with
    config := { h.config with logLevel := .trace }
    counters := .zero
    nextRecord := 1
    records := #[] }

variable [Arena A]

/-- A relation of heaps with the same visible part that lasts when both change in the same way, or
keep a record that the first makes in the name of `symbol` and the second in that of `symbol'`. -/
structure Parallel (R : Heap A → Heap A → Prop) (symbol symbol' : String) : Prop where
  visible : ∀ {h h'}, R h h' → h.visible = h'.visible
  arena : ∀ {h h'}, R h h' → ∀ arena, R { h with arena } { h' with arena }
  freeList : ∀ {h h'}, R h h' → ∀ freeList, R { h with freeList } { h' with freeList }
  prologue : ∀ {h h'}, R h h' → ∀ prologue, R { h with prologue } { h' with prologue }
  initialized : ∀ {h h'}, R h h' → ∀ initialized, R { h with initialized } { h' with initialized }
  counters : ∀ {h h'}, R h h' → ∀ change : Counters → Counters,
    R { h with counters := change h.counters } { h' with counters := change h'.counters }
  records : ∀ {h h'}, R h h' → ∀ level event ptr size outcome details,
    R (h.withRecord level symbol event ptr size outcome details)
      (h'.withRecord level symbol' event ptr size outcome details)

namespace Parallel

variable {R : Heap A → Heap A → Prop} {symbol symbol' : String} {h h' : Heap A} {α : Type}

theorem shown (parallel : Parallel R symbol symbol') (related : R h h') {γ : Type}
    (question : Heap A → γ) : question h.visible = question h'.visible :=
  congrArg question (parallel.visible related)

theorem arena_eq (parallel : Parallel R symbol symbol') (related : R h h') : h.arena = h'.arena :=
  parallel.shown related Heap.arena

/-! ## Steps -/

theorem ask (parallel : Parallel R symbol symbol') {question : Heap A → Except Fault α}
    (sees : ∀ h, question h.visible = question h) :
    Lockstep R (Action.ask question) (Action.ask question) :=
  .ask fun h h' related => by rw [← sees h, parallel.visible related, sees h']

theorem view (parallel : Parallel R symbol symbol') {question : Heap A → α}
    (sees : ∀ h, question h.visible = question h) :
    Lockstep R (Heap.view question) (Heap.view question) :=
  parallel.ask fun h => congrArg Except.ok (sees h)

theorem count (parallel : Parallel R symbol symbol') (change : Counters → Counters) :
    Lockstep R (Heap.count change) (Heap.count change) :=
  .modify fun _ _ related => parallel.counters related change

theorem stop (parallel : Parallel R symbol symbol') :
    Lockstep R (modify fun h => { h with initialized := false } : Action (Heap A) PUnit)
      (modify fun h => { h with initialized := false }) :=
  .modify fun _ _ related => parallel.initialized related false

theorem record (parallel : Parallel R symbol symbol') {level : Level} {event : String}
    {ptr size : Option Nat} {outcome details : String} :
    Lockstep R (Heap.record level symbol event ptr size outcome details)
      (Heap.record level symbol' event ptr size outcome details) :=
  .modify fun _ _ related => parallel.records related ..

theorem edit (parallel : Parallel R symbol symbol') (act : Action Region α) :
    Lockstep R (Heap.edit act) (Heap.edit act) := by
  refine .focus (fun h h' related => parallel.shown related Heap.region)
    fun h h' related region => ?_
  simp only [← parallel.arena_eq related]
  exact parallel.freeList (parallel.arena related _) _

theorem growArena (parallel : Parallel R symbol symbol') (increment : Nat) :
    Lockstep R (Heap.growArena increment) (Heap.growArena increment) :=
  .focus (fun _ _ related => parallel.arena_eq related)
    fun _ _ related arena => parallel.arena related arena

/-- The scan after an operation only adds records. -/
theorem afterwards (parallel : Parallel R symbol symbol') :
    Lockstep R (afterwards symbol) (afterwards symbol') := by
  unfold Heap.afterwards
  refine .bind (parallel.view fun _ => rfl) fun scans => ?_
  split
  · refine .bind (parallel.ask fun _ => rfl) fun violations => .modify ?_
    induction violations with
    | nil => exact fun _ _ related => related
    | cons violation rest ih => exact fun _ _ related => ih _ _ (parallel.records related ..)
  · exact .pure _

/-- An operation with the scan that may follow it. -/
theorem scanned (parallel : Parallel R symbol symbol') {act act' : Action (Heap A) α}
    (head : Lockstep R act act') :
    Lockstep R (do let answer ← act; Heap.afterwards symbol; return answer)
      (do let answer ← act'; Heap.afterwards symbol'; return answer) :=
  .bind head fun _ => .bind parallel.afterwards fun _ => .pure _

/-! ## Growth -/

theorem growContiguous (parallel : Parallel R symbol symbol') (increment : Nat) :
    Lockstep R (growContiguous increment) (growContiguous increment) := by
  unfold Heap.growContiguous
  refine .bind (parallel.view fun _ => rfl) fun expected => ?_
  refine .bind (parallel.growArena increment) fun start => ?_
  cases start with
  | none => exact .pure _
  | some start =>
    simp only []
    split
    · exact .bind parallel.stop fun _ => .pure _
    refine .bind (parallel.view fun _ => rfl) fun size => ?_
    split
    · exact .bind parallel.stop fun _ => .pure _
    · exact .bind (parallel.count _) fun _ => .pure _

theorem extend (parallel : Parallel R symbol symbol') (request : Nat) :
    Lockstep R (extend symbol request) (extend symbol' request) := by
  unfold Heap.extend
  cases Block.roundUp (max request Block.minSize) with
  | none => exact .pure _
  | some size =>
    refine .bind (parallel.growContiguous size) fun grown => ?_
    cases grown with
    | error error => exact .bind parallel.record fun _ => .pure _
    | ok start =>
      refine .bind (parallel.edit _) fun _ => .bind (parallel.view fun _ => rfl) fun bytes => ?_
      exact .bind parallel.record fun _ => .bind (parallel.edit _) fun _ => .pure _

theorem layOut (parallel : Parallel R "init" "init") : Lockstep R layOut layOut := by
  unfold Heap.layOut
  refine .bind (parallel.growContiguous _) fun grown => ?_
  cases grown with
  | error error => exact .pure _
  | ok base =>
    refine .bind (.lift _) fun prologue => .bind (parallel.edit _) fun _ => ?_
    refine .bind (.modify fun _ _ related => parallel.prologue related prologue) fun _ => ?_
    refine .bind (parallel.view fun _ => rfl) fun chunk => ?_
    refine .bind (parallel.extend chunk) fun extended => ?_
    cases extended <;> exact .pure _

/-- The record of a layout tells the settings, but not the level. -/
theorem conclude (parallel : Parallel R "init" "init") (result : Except HeapError Unit) :
    Lockstep R (conclude result) (conclude result) := by
  cases result with
  | error error => exact parallel.record
  | ok =>
    refine .bind (.modify fun _ _ related => parallel.initialized related true) fun _ => ?_
    -- the settings are asked for as a whole and may differ, though in no part that is told
    refine .ask_bind fun h h' related => ?_
    have prologue : h.prologue = h'.prologue := parallel.shown related Heap.prologue
    have memory : h.memory = h'.memory := parallel.shown related Heap.memory
    have chunk : h.config.chunkSize = h'.config.chunkSize :=
      parallel.shown related (·.config.chunkSize)
    have placement : h.config.placement = h'.config.placement :=
      parallel.shown related (·.config.placement)
    have check : h.config.check = h'.config.check := parallel.shown related (·.config.check)
    simp only [prologue, memory, chunk, placement, check]
    exact parallel.record

theorem init (parallel : Parallel R "init" "init") : Lockstep R init init := by
  unfold Heap.init
  refine .bind (.modify fun h h' related => ?_) fun _ => .bind parallel.layOut fun result => ?_
  · rw [parallel.arena_eq related]
    have emptied := parallel.freeList (parallel.arena related (Arena.reset h'.arena)) .empty
    exact parallel.initialized (parallel.prologue emptied 0) false
  · exact .bind (parallel.conclude result) fun _ => .bind parallel.afterwards fun _ => .pure _

/-! ## Requests -/

section Requests

variable {ptr request : Nat}

theorem ready (parallel : Parallel R symbol symbol') :
    Lockstep R (ready symbol) (ready symbol') := by
  unfold Heap.ready
  refine .bind (parallel.view fun _ => rfl) fun serves => ?_
  split
  · exact .pure _
  · exact .bind parallel.record fun _ => .pure _

theorem accepts (parallel : Parallel R symbol symbol') :
    Lockstep R (accepts symbol ptr) (accepts symbol' ptr) := by
  unfold Heap.accepts
  refine .bind (parallel.view fun _ => rfl) fun tests => ?_
  split
  · refine .bind (parallel.ask fun _ => rfl) fun found => ?_
    cases found with
    | ok tag => exact .pure _
    | error violation =>
      exact .bind (parallel.count _) fun _ => .bind parallel.record fun _ => .pure _
  · exact .pure _

theorem readyFor (parallel : Parallel R symbol symbol') :
    Lockstep R (readyFor symbol ptr) (readyFor symbol' ptr) := by
  unfold Heap.readyFor
  refine .bind parallel.ready fun serves => ?_
  split
  · exact parallel.accepts
  · exact .pure _

theorem sized (parallel : Parallel R symbol symbol') :
    Lockstep R (sized symbol request) (sized symbol' request) := by
  unfold Heap.sized
  cases Block.sizeFor request with
  | some size => exact .pure _
  | none => exact .bind (parallel.count _) fun _ => .bind parallel.record fun _ => .pure _

theorem supply (parallel : Parallel R symbol symbol') (size : Nat) :
    Lockstep R (supply symbol size) (supply symbol' size) := by
  unfold Heap.supply
  refine .bind (parallel.ask fun _ => rfl) fun found => ?_
  cases found with
  | some bp => exact .pure _
  | none =>
    refine .bind (parallel.view fun _ => rfl) fun chunk => ?_
    refine .bind (parallel.extend _) fun extended => ?_
    cases extended with
    | ok bp => exact .pure _
    | error error => exact .bind (parallel.count _) fun _ => .pure _

theorem allocateAs (parallel : Parallel R symbol symbol') :
    Lockstep R (allocateAs symbol request) (allocateAs symbol' request) := by
  unfold Heap.allocateAs
  refine .bind parallel.ready fun serves => ?_
  split
  · exact .pure _
  split
  · exact .bind parallel.record fun _ => .pure _
  refine .bind parallel.sized fun size => ?_
  cases size with
  | none => exact .pure _
  | some size =>
    refine .bind (parallel.supply size) fun supplied => ?_
    cases supplied with
    | none => exact .pure _
    | some supplied =>
      refine .bind (parallel.view fun _ => rfl) fun policy => ?_
      refine .bind (parallel.edit _) fun placed => .bind (parallel.count _) fun _ => ?_
      exact .bind parallel.record fun _ => .pure _

theorem releaseAs (parallel : Parallel R symbol symbol') :
    Lockstep R (releaseAs symbol ptr) (releaseAs symbol' ptr) := by
  unfold Heap.releaseAs
  split
  · exact parallel.record
  refine .bind parallel.readyFor fun serves => ?_
  split
  · refine .bind (parallel.ask fun _ => rfl) fun size => .bind (parallel.edit _) fun start => ?_
    exact .bind (parallel.count _) fun _ => parallel.record
  · exact .pure _

theorem enlarge (parallel : Parallel R symbol symbol') (current size : Nat) :
    Lockstep R (enlarge symbol ptr current size request)
      (enlarge symbol' ptr current size request) := by
  unfold Heap.enlarge
  refine .bind (.lift _) fun next => .bind (parallel.ask fun _ => rfl) fun following => ?_
  refine .bind (parallel.ask fun _ => rfl) fun preceding => .bind (.lift _) fun room => ?_
  cases room with
  | behind =>
    refine .bind (parallel.edit _) fun _ => .bind (parallel.count _) fun _ => ?_
    exact .bind parallel.record fun _ => .pure _
  | around =>
    refine .bind (parallel.edit _) fun _ => .bind (parallel.count _) fun _ => ?_
    exact .bind parallel.record fun _ => .pure _
  | elsewhere =>
    refine .bind parallel.allocateAs fun target => ?_
    cases target with
    | none => exact .pure _
    | some target =>
      refine .bind (parallel.edit _) fun _ => .bind (parallel.count _) fun _ => ?_
      exact .bind parallel.record fun _ => .pure _

theorem resizeAs (parallel : Parallel R symbol symbol') :
    Lockstep R (resizeAs symbol ptr request) (resizeAs symbol' ptr request) := by
  unfold Heap.resizeAs
  split
  · exact parallel.allocateAs
  split
  · exact .bind parallel.releaseAs fun _ => .pure _
  refine .bind parallel.readyFor fun serves => ?_
  split
  · exact .pure _
  refine .bind parallel.sized fun size => ?_
  cases size with
  | none => exact .pure _
  | some size =>
    refine .bind (parallel.ask fun _ => rfl) fun current => ?_
    split
    · refine .bind (parallel.edit _) fun _ => .bind (parallel.count _) fun _ => ?_
      exact .bind parallel.record fun _ => .pure _
    · exact parallel.enlarge current size

theorem callocAs (parallel : Parallel R symbol symbol') (items size : Nat) :
    Lockstep R (callocAs symbol items size) (callocAs symbol' items size) := by
  unfold Heap.callocAs
  split
  · exact .bind (parallel.count _) fun _ => .bind parallel.record fun _ => .pure _
  · refine .bind parallel.allocateAs fun ptr => ?_
    cases ptr with
    | none => exact .pure _
    | some ptr => exact .bind (parallel.edit _) fun _ => .pure _

theorem patch (parallel : Parallel R symbol symbol') (offset : Nat) (values : List UInt8) :
    Lockstep R (patch ptr offset values) (patch ptr offset values) := by
  unfold Heap.patch
  refine .bind (parallel.ask fun _ => rfl) fun usable => ?_
  cases usable with
  | none => exact .pure _
  | some length =>
    simp only []
    split
    · exact .throw _
    · exact .bind (parallel.edit _) fun _ => .pure _

end Requests

/-! ## Calls and runs -/

/-- A relation that lasts through whatever an operation is made of lasts through every call. -/
theorem call (parallel : ∀ symbol, Parallel R symbol symbol) (call : Call) :
    Lockstep R (Heap.call call) (Heap.call call) := by
  cases call with
  | init => exact .bind (parallel "init").init fun _ => .pure _
  | allocate size =>
    exact .bind ((parallel "allocate").scanned (parallel "allocate").allocateAs) fun _ => .pure _
  | calloc items size =>
    exact .bind ((parallel "calloc").scanned ((parallel "calloc").callocAs items size))
      fun _ => .pure _
  | release ptr =>
    exact .bind (.bind (parallel "release").releaseAs fun _ => (parallel "release").afterwards)
      fun _ => .pure _
  | resize ptr size =>
    exact .bind ((parallel "resize").scanned (parallel "resize").resizeAs) fun _ => .pure _
  | write ptr offset values =>
    exact .bind ((parallel "write").patch offset values) fun _ => .pure _

/-- Calls one after the other, each of which may meet a fault. -/
theorem run (parallel : ∀ symbol, Parallel R symbol symbol) (calls : List Call) :
    Lockstep R (Heap.run calls) (Heap.run calls) := by
  induction calls with
  | nil => exact .pure _
  | cons call rest ih =>
    exact .bind (Parallel.call parallel call) fun _ => .bind ih fun _ => .pure _

end Parallel

end Heap

end BoundaryHeap
