import BoundaryHeap.Proofs.Runs

/-!
Runs with their history: which calls a client has made and how each was answered. The history alone
decides the ledger.
-/

namespace BoundaryHeap

/-- The ledger after calls that were answered. -/
def Ledger.afterAll (ledger : Ledger) (history : List (Call × Answer)) : Ledger :=
  history.foldl (fun ledger entry => ledger.after entry.1 entry.2) ledger

/-- Calls that a ledger permits one after the other as they are answered, whatever the heap. -/
def Ledger.PermitsAll : Ledger → List (Call × Answer) → Prop
  | _, [] => True
  | ledger, (call, answer) :: rest =>
    (∀ h, ledger.Permits h call) ∧ (ledger.after call answer).PermitsAll rest

namespace Heap

variable {arena : LimitedArena} {config : HeapConfig} {history : List (Call × Answer)}
  {h h' : Heap LimitedArena} {ledger : Ledger}

/-- A heap over `arena` that a client has laid out and made calls to, with the answers to them, and
the ledger of the client. -/
inductive Serves (arena : LimitedArena) (config : HeapConfig) :
    List (Call × Answer) → Heap LimitedArena → Ledger → Prop
  | start {h : Heap LimitedArena} (laidOut : init.run (new arena config) = .ok (.ok ()) h) :
    Serves arena config [] h .empty
  | step {history : List (Call × Answer)} {h h' : Heap LimitedArena} {ledger : Ledger} {call : Call}
    {answer : Answer} (before : Serves arena config history h ledger)
    (permitted : ledger.Permits h call) (ran : (Heap.call call).run h = .ok answer h') :
    Serves arena config (history ++ [(call, answer)]) h' (ledger.after call answer)

theorem Serves.reaches (served : Serves arena config history h ledger) :
    Reaches arena config history.length h ledger := by
  induction served with
  | start laidOut => exact .start laidOut
  | step _ permitted ran ih =>
    rw [List.length_append]
    exact ih.step permitted ran

/-- Making permitted calls one after the other. -/
theorem Serves.run {calls : List Call} {answers : List Answer}
    (served : Serves arena config history h ledger)
    (ran : (Heap.run calls).run h = .ok answers h')
    (permitted : ledger.PermitsAll (calls.zip answers)) :
    Serves arena config (history ++ calls.zip answers) h'
      (ledger.afterAll (calls.zip answers)) := by
  induction calls generalizing history h ledger answers with
  | nil =>
    cases ran
    rw [List.zip_nil_left, List.append_nil]
    exact served
  | cons call calls ih =>
    obtain ⟨answer, h₁, first, ran⟩ := Action.run_bind_eq_ok.mp ran
    obtain ⟨rest, h₂, later, same⟩ := Action.run_bind_eq_ok.mp ran
    cases same
    have next := ih (served.step (permitted.1 h) first) later permitted.2
    rwa [List.append_assoc] at next

end Heap

end BoundaryHeap
