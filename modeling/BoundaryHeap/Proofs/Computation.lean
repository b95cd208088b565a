import BoundaryHeap.Proofs.Action

/-!
Computations with checked numbers. A computation whose numbers stay within a bound is stopped by
nothing but this bound: it answers, or the bound itself leaves 64 bits. The rules here carry this
through a computation, together with what it answers.
-/

namespace BoundaryHeap

/-- A computation answers in a way that a postcondition accepts, or it overflows, which it does only
if the bound on its numbers leaves 64 bits. -/
def Computes {α : Type} (bound : Nat) (holds : α → Prop) : Except Fault α → Prop
  | .ok answer => holds answer
  | .error fault => fault = .overflow ∧ wordLimit ≤ bound

namespace Computes

variable {α β : Type} {bound : Nat} {holds middle : α → Prop} {accepts : β → Prop}
  {computation : Except Fault α} {next : α → Except Fault β} {answer : α}

theorem pure (accepted : holds answer) : Computes bound holds (.ok answer) := accepted

theorem imp (first : Computes bound middle computation)
    (weaker : ∀ answer, middle answer → holds answer) : Computes bound holds computation := by
  cases computation with
  | ok answer => exact weaker answer first
  | error fault => exact first

/-- What is known of the answer may mention that it is the answer. -/
theorem known (first : Computes bound holds computation) :
    Computes bound (fun answer => computation = .ok answer ∧ holds answer) computation := by
  cases computation with
  | ok answer => exact ⟨rfl, first⟩
  | error fault => exact first

theorem bind (first : Computes bound middle computation)
    (rest : ∀ answer, middle answer → Computes bound accepts (next answer)) :
    Computes bound accepts (computation >>= next) := by
  cases computation with
  | ok answer => exact rest answer first
  | error fault => exact first

theorem holds_of_ok (computes : Computes bound holds computation)
    (ran : computation = .ok answer) : holds answer := by
  subst ran
  exact computes

theorem overflow_or_ok (computes : Computes bound holds computation) :
    computation = .error .overflow ∧ wordLimit ≤ bound ∨
      ∃ answer, computation = .ok answer ∧ holds answer := by
  cases computation with
  | ok answer => exact .inr ⟨answer, rfl, computes⟩
  | error fault => exact .inl ⟨congrArg _ computes.1, computes.2⟩

end Computes

namespace Checked

variable {a b c bound : Nat}

theorem eq_add_of_ok (known : add a b = .ok c) : c = a + b := (add_eq_ok_iff.mp known).2

theorem eq_sub_of_ok (known : sub a b = .ok c) : b ≤ a ∧ c = a - b := by
  rw [sub] at known
  split at known
  next ordered => exact ⟨ordered, (Except.ok.inj known).symm⟩
  next => cases known

theorem add_computes (within : a + b ≤ bound) :
    Computes bound (fun sum => sum = a + b ∧ a + b < wordLimit) (add a b) := by
  rw [add]
  split
  next fits => exact ⟨rfl, fits⟩
  next large => exact ⟨rfl, Nat.le_trans (Nat.le_of_not_lt large) within⟩

theorem sub_computes (ordered : b ≤ a) : Computes bound (· = a - b) (sub a b) := by
  rw [sub_eq_ok ordered]
  exact rfl

end Checked

end BoundaryHeap
