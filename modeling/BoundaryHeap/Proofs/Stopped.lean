import BoundaryHeap.Heap.Call
import BoundaryHeap.Proofs.Steps
import Mathlib.Algebra.Ring.Nat
import Mathlib.Data.List.Forall2

/-!
A heap out of service, over any arena: not yet laid out, or stopped after a failure. Until it is
laid out it turns every call away. Nothing but its records changes, and the total of failed requests
where the size of a cleared allocation leaves 64 bits, which is found out before anything else.
-/

namespace BoundaryHeap

/-- How a heap out of service answers a call. -/
inductive TurnedAway : Call → Answer → Prop
  | allocate {size : Nat} : TurnedAway (.allocate size) (.block none)
  | calloc {items size : Nat} : TurnedAway (.calloc items size) (.block none)
  | release {ptr : Nat} : TurnedAway (.release ptr) .released
  | resize {ptr size : Nat} : TurnedAway (.resize ptr size) (.block none)
  | write {ptr offset : Nat} {values : List UInt8} :
    TurnedAway (.write ptr offset values) (.written false)

/-- The failed requests that a call counts before it looks at the heap. -/
def Call.misses : Call → Nat
  | .calloc items size => if wordLimit ≤ items * size then 1 else 0
  | _ => 0

namespace Heap

variable {A : Type} {h h' : Heap A} {symbol : String}

/-- The heap turns calls away. -/
def Stopped (h : Heap A) : Prop := h.initialized = false

theorem Stopped.agrees (stopped : h.Stopped) (agrees : Agrees h h') : h'.Stopped := by
  obtain ⟨_, _, rfl⟩ := agrees
  exact stopped

theorem Stopped.missed {failures : Nat} (stopped : h.Stopped)
    (agrees : Agrees (h.missed failures) h') : h'.Stopped := by
  obtain ⟨_, _, rfl⟩ := agrees
  exact stopped

namespace Stopped

variable [Arena A]

/-! ## Questions -/

theorem check_eq (stopped : h.Stopped) : h.check = .ok [] := check_eq_of_not_initialized stopped

theorem usableSize_eq (stopped : h.Stopped) (ptr : Nat) : h.usableSize ptr = .ok none := by
  rw [usableSize, stopped]
  rfl

theorem payload_eq (stopped : h.Stopped) (ptr : Nat) : h.payload ptr = .ok none := by
  rw [payload, Fault.bind_of_ok (stopped.usableSize_eq ptr)]
  rfl

/-! ## Calls -/

theorem ready_ensures (stopped : h.Stopped) :
    (ready symbol).Ensures h Action.Total fun answer h' => answer = false ∧ Agrees h h' := by
  unfold ready
  apply view_ensures stopped
  exact record_ensures fun h' agrees => .pure ⟨rfl, agrees⟩

theorem readyFor_ensures (stopped : h.Stopped) (ptr : Nat) :
    (readyFor symbol ptr).Ensures h Action.Total fun answer h' =>
      answer = false ∧ Agrees h h' := by
  unfold readyFor
  apply stopped.ready_ensures.bind
  rintro _ h' ⟨rfl, agrees⟩
  exact .pure ⟨rfl, agrees⟩

theorem allocateAs_ensures (stopped : h.Stopped) (request : Nat) :
    (allocateAs symbol request).Ensures h Action.Total fun answer h' =>
      answer = none ∧ Agrees h h' := by
  unfold allocateAs
  apply stopped.ready_ensures.bind
  rintro _ h' ⟨rfl, agrees⟩
  exact .pure ⟨rfl, agrees⟩

theorem releaseAs_ensures (stopped : h.Stopped) (ptr : Nat) :
    (releaseAs symbol ptr).Ensures h Action.Total fun _ h' => Agrees h h' := by
  unfold releaseAs
  split
  · exact .of_run rfl (agrees_withRecord ..)
  · apply (stopped.readyFor_ensures ptr).bind
    rintro _ h' ⟨rfl, agrees⟩
    exact .pure agrees

theorem resizeAs_ensures (stopped : h.Stopped) (ptr request : Nat) :
    (resizeAs symbol ptr request).Ensures h Action.Total fun answer h' =>
      answer = none ∧ Agrees h h' := by
  unfold resizeAs
  split
  · exact stopped.allocateAs_ensures request
  split
  · apply (stopped.releaseAs_ensures ptr).bind
    exact fun _ h' agrees => .pure ⟨rfl, agrees⟩
  · apply (stopped.readyFor_ensures ptr).bind
    rintro _ h' ⟨rfl, agrees⟩
    exact .pure ⟨rfl, agrees⟩

theorem callocAs_ensures (stopped : h.Stopped) (items size : Nat) :
    (callocAs symbol items size).Ensures h Action.Total fun answer h' =>
      answer = none ∧ Agrees (h.missed (Call.calloc items size).misses) h' := by
  unfold callocAs
  simp only [Call.misses]
  split
  · exact count_ensures (record_ensures fun h' agrees => .pure ⟨rfl, agrees⟩)
  · apply (stopped.allocateAs_ensures (items * size)).bind
    rintro _ h' ⟨rfl, agrees⟩
    exact .pure ⟨rfl, agrees⟩

/-- A heap out of service turns a call away. -/
theorem call_ensures (stopped : h.Stopped) {call : Call} (other : call ≠ .init) :
    (Heap.call call).Ensures h Action.Total fun answer h' =>
      TurnedAway call answer ∧ Agrees (h.missed call.misses) h' := by
  cases call with
  | init => exact absurd rfl other
  | allocate request =>
    apply (scanned_ensures (stopped.allocateAs_ensures request)
      (fun _ _ holds => (stopped.agrees holds.2).check_eq) "allocate").bind
    rintro _ h' ⟨rfl, agrees⟩
    exact .pure ⟨.allocate, agrees⟩
  | calloc items size =>
    apply (scanned_ensures (stopped.callocAs_ensures items size)
      (fun _ _ holds => (stopped.missed holds.2).check_eq) "calloc").bind
    rintro _ h' ⟨rfl, agrees⟩
    exact .pure ⟨.calloc, agrees⟩
  | release ptr =>
    have released : (release ptr).Ensures h Action.Total fun _ h' => Agrees h h' := by
      refine (stopped.releaseAs_ensures ptr).bind fun _ h' agrees => ?_
      have clean := (stopped.agrees agrees).check_eq
      exact (afterwards_ensures clean "release").imp fun _ _ same => same ▸ agrees
    exact released.bind fun _ h' agrees => .pure ⟨.release, agrees⟩
  | resize ptr request =>
    apply (scanned_ensures (stopped.resizeAs_ensures ptr request)
      (fun _ _ holds => (stopped.agrees holds.2).check_eq) "resize").bind
    rintro _ h' ⟨rfl, agrees⟩
    exact .pure ⟨.resize, agrees⟩
  | write ptr offset values =>
    have patched : (patch ptr offset values).Ensures h Action.Total fun answer h' =>
        answer = false ∧ h' = h :=
      .ask (stopped.usableSize_eq ptr) (.pure ⟨rfl, rfl⟩)
    apply patched.bind
    rintro _ _ ⟨rfl, rfl⟩
    exact .pure ⟨.write, .refl _⟩

/-- A heap out of service turns every call away, however many there are. -/
theorem run_ensures (stopped : h.Stopped) {calls : List Call} (others : .init ∉ calls) :
    (Heap.run calls).Ensures h Action.Total fun answers h' =>
      List.Forall₂ TurnedAway calls answers ∧
        Agrees (h.missed (calls.map Call.misses).sum) h' := by
  induction calls generalizing h with
  | nil => exact .pure ⟨.nil, .refl h⟩
  | cons first rest ih =>
    obtain ⟨other, others⟩ := not_or.mp (mt List.mem_cons.mpr others)
    apply (stopped.call_ensures (Ne.symm other)).bind
    rintro answer h₁ ⟨away, agrees⟩
    apply (ih (stopped.missed agrees) others).bind
    rintro answers h₂ ⟨away', agrees'⟩
    refine .pure ⟨.cons away away', ?_⟩
    rw [List.map_cons, List.sum_cons]
    exact agrees.missed agrees'

end Stopped

end Heap

end BoundaryHeap
