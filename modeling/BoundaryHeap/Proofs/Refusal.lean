import BoundaryHeap.Proofs.Runs

/-!
Requests that are not served. A request can fail because it asks for nothing, because its size
leaves 64 bits, or because there is no memory for it; each time that is found out before anything is
written, so the heap is what it was but for its records and one total.
-/

namespace BoundaryHeap

/-- The requests for a block: an allocation, or a resize of no block or of a live one to some
bytes. -/
def Ledger.Requests (ledger : Ledger) : Call → Prop
  | .allocate _ => True
  | .calloc .. => True
  | .resize ptr size => ptr = 0 ∨ (ledger ptr).isSome ∧ size ≠ 0
  | _ => False

theorem Ledger.Requests.permits {ledger : Ledger} {call : Call} (requests : ledger.Requests call)
    (h : Heap LimitedArena) : ledger.Permits h call := by
  cases call with
  | allocate request => trivial
  | calloc items size => trivial
  | resize ptr request => exact requests.imp_right And.left
  | init | release _ | write _ _ _ => exact requests.elim

namespace Heap

variable {arena : LimitedArena} {config : HeapConfig} {n : Nat} {h h' : Heap LimitedArena}
  {ledger : Ledger} {front behind chain nodes chain' nodes' : List ChainBlock} {b : ChainBlock}
  {ptr request : Nat}

/-- The heap as it was, but for its records and at most one failed request more. -/
def Unserved (h h' : Heap LimitedArena) : Prop := ∃ failures ≤ 1, Agrees (h.missed failures) h'

theorem Agrees.unserved (agrees : Agrees h h') : h.Unserved h' := ⟨0, Nat.zero_le 1, agrees⟩

theorem Agrees.failed_unserved (agrees : Agrees h.failed h') : h.Unserved h' :=
  ⟨1, Nat.le_refl 1, agrees⟩

theorem AllocateOutcome.unserved
    (outcome : AllocateOutcome h chain nodes request none h' chain' nodes') : h.Unserved h' := by
  cases outcome with
  | nothing empty agrees => exact agrees.unserved
  | refused some agrees lacks => exact agrees.failed_unserved

theorem ResizeOutcome.unserved
    (outcome : ResizeOutcome h front b behind nodes request none h' chain' nodes') :
    h.Unserved h' := by
  cases outcome with
  | refused agrees lacks cramped => exact agrees.failed_unserved

/-- What a resize of no block or of a live one leaves when it answers with no block. -/
theorem Backs.resize_unserved (backs : h.Backs ledger chain nodes)
    (requests : ledger.Requests (.resize ptr request)) :
    (resize ptr request).Ensures h (Overgrown (capacityLimit ≤ h.arena.limit)) fun answer h' =>
      answer = none → h.Unserved h' := by
  rcases requests with rfl | ⟨live, some⟩
  · apply ((resize_null_ensures backs.laid request).overgrown fun bursts =>
      bursts.overreaches.le_limit).imp
    rintro _ h' ⟨chain', nodes', outcome⟩ rfl
    exact outcome.unserved
  · obtain ⟨front, b, behind, rfl, rfl, used⟩ := backs.live live
    apply ((Heap.resize_ensures backs.laid used some).overgrown fun bursts =>
      (bursts.overreaches some).le_limit).imp
    rintro _ h' ⟨chain', nodes', outcome⟩ rfl
    exact outcome.unserved

/-- A request that is answered with no block was not served. -/
theorem Backs.unserved {call : Call} (backs : h.Backs ledger chain nodes)
    (requests : ledger.Requests call) (ran : (Heap.call call).run h = .ok (.block none) h') :
    h.Unserved h' := by
  cases call with
  | allocate request =>
    obtain ⟨_, _, called, same⟩ := Action.run_bind_eq_ok.mp ran
    cases same
    obtain ⟨_, _, outcome⟩ := (Heap.allocate_ensures backs.laid request).holds called
    exact outcome.unserved
  | calloc items size =>
    obtain ⟨_, _, called, same⟩ := Action.run_bind_eq_ok.mp ran
    cases same
    rcases (Heap.calloc_ensures backs.laid items size).holds called with
      ⟨-, -, agrees⟩ | ⟨_, _, outcome, -⟩
    · exact agrees.failed_unserved
    · exact outcome.unserved
  | resize ptr request =>
    obtain ⟨_, _, called, same⟩ := Action.run_bind_eq_ok.mp ran
    cases same
    exact (backs.resize_unserved requests).holds called rfl
  | init | release _ | write _ _ _ => exact requests.elim

/-- A request that is answered with no block changes nothing but the total of failed requests and
the records. The ledger stays as it is, and every payload. -/
theorem Reaches.unserved_unchanged {call : Call} (reached : Reaches arena config n h ledger)
    (requests : ledger.Requests call) (ran : (Heap.call call).run h = .ok (.block none) h') :
    h'.arena = h.arena ∧ h'.freeList = h.freeList ∧ h'.prologue = h.prologue ∧
      h'.initialized = h.initialized ∧
      (∃ failures ≤ 1,
        h'.counters = { h.counters with failedAllocs := h.counters.failedAllocs + failures }) ∧
      Reaches arena config (n + 1) h' ledger ∧
      ∀ ptr, h'.usableSize ptr = h.usableSize ptr ∧ h'.payload ptr = h.payload ptr := by
  obtain ⟨chain, nodes, sound⟩ := reached.sound
  have unserved := sound.backs.unserved requests ran
  have next := reached.step (requests.permits h) ran
  have same : ledger.after call (.block none) = ledger := by
    cases call with
    | allocate request => rfl
    | calloc items size => rfl
    | resize ptr request =>
      simp only [Ledger.after, Option.elim_none]
      split
      · rcases requests with rfl | ⟨-, some⟩
        · exact Ledger.drop_of_none sound.backs.null
        · contradiction
      · rfl
    | init | release _ | write _ _ _ => exact requests.elim
  rw [same] at next
  obtain ⟨failures, few, _, _, rfl⟩ := unserved
  exact ⟨rfl, rfl, rfl, rfl, ⟨failures, few, rfl⟩, next, fun _ => ⟨rfl, rfl⟩⟩

/-- A block of 24 bytes cannot be made larger than the arena. -/
theorem Reaches.unserved_unchanged_cleared :
    ∃ h h', Reaches (.withLimit 4096) { HeapConfig.standard with chunkSize := 64 } 1 h
        (Ledger.empty.add 32 (.cleared 24)) ∧
      (Heap.call (.resize 32 5000)).run h = .ok (.block none) h' ∧
      h'.arena = h.arena ∧ h'.payload 32 = h.payload 32 := by
  have ran : ((do
      let laidOut ← init
      let ptr ← calloc 3 8
      let larger ← resize 32 5000
      return (laidOut.isOk, ptr, larger) :
        Action (Heap LimitedArena) (Bool × Option Nat × Option Nat)).result
        (new (.withLimit 4096) { HeapConfig.standard with chunkSize := 64 })).map (·.1) =
      .ok (true, some 32, none) := by decide +kernel
  obtain ⟨h, ran⟩ := Action.exists_run_of_result ran
  obtain ⟨laidOut, h₁, first, ran⟩ := Action.run_bind_eq_ok.mp ran
  obtain ⟨ptr, h₂, second, ran⟩ := Action.run_bind_eq_ok.mp ran
  obtain ⟨larger, h₃, third, ran⟩ := Action.run_bind_eq_ok.mp ran
  cases laidOut <;> cases ran
  have called : (Heap.call (.calloc 3 8)).run h₁ = .ok (.block (some 32)) h₂ :=
    Action.run_bind_eq_ok.mpr ⟨some 32, h₂, second, rfl⟩
  have refused : (Heap.call (.resize 32 5000)).run h₂ = .ok (.block none) h :=
    Action.run_bind_eq_ok.mpr ⟨none, h, third, rfl⟩
  have permitted : Ledger.empty.Permits h₁ (.calloc 3 8) := trivial
  have reached := (Reaches.start first).step permitted called
  have requests : (Ledger.empty.add 32 (.cleared 24)).Requests (.resize 32 5000) :=
    .inr ⟨rfl, by decide⟩
  obtain ⟨arena, -, -, -, -, -, held⟩ := Reaches.unserved_unchanged reached requests refused
  exact ⟨h₂, h, reached, refused, arena, (held 32).2⟩

end Heap

end BoundaryHeap
