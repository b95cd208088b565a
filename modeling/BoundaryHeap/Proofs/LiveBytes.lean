import BoundaryHeap.Proofs.Replay
import Mathlib.Algebra.BigOperators.Group.Finset.Basic
import Mathlib.Data.Finset.Lattice.Fold
import Mathlib.Order.Lattice.Nat

/-!
The bytes that a trace has live. How many each number holds can be told from the operations so far,
and so can their sum and the largest sum on the way.
-/

namespace BoundaryHeap

namespace TraceOp

/-- What each number holds after an operation: the bytes last asked for, and none if it is not
live. -/
def resized (sizes : Nat → Nat) : TraceOp → Nat → Nat
  | alloc id size => if size = 0 then sizes else Function.update sizes id size
  | realloc id size => Function.update sizes id size
  | free id => Function.update sizes id 0

section Resized

variable {sizes : Nat → Nat} {op : TraceOp} {id : Nat}

theorem resized_of_ne (other : id ≠ op.id) : op.resized sizes id = sizes id := by
  cases op with
  | alloc named size =>
    rw [resized]
    split
    · rfl
    · exact Function.update_of_ne other ..
  | realloc named size => exact Function.update_of_ne other ..
  | free named => exact Function.update_of_ne other ..

theorem mem_after_of_ne {ids : Finset Nat} (other : id ≠ op.id) : id ∈ op.after ids ↔ id ∈ ids := by
  cases op with
  | alloc named size =>
    rw [after]
    split
    · rfl
    · exact Finset.mem_insert.trans (or_iff_right other)
  | realloc named size =>
    rw [after]
    split
    · exact Finset.mem_erase.trans (and_iff_right other)
    · exact Finset.mem_insert.trans (or_iff_right other)
  | free named => exact Finset.mem_erase.trans (and_iff_right other)

theorem mem_after_self {ids : Finset Nat} (same : op.id ∈ ids ↔ 0 < sizes op.id) :
    op.id ∈ op.after ids ↔ 0 < op.resized sizes op.id := by
  cases op with
  | alloc named size =>
    rw [after, resized]
    split
    · exact same
    · simp_all [TraceOp.id, Nat.pos_iff_ne_zero]
  | realloc named size =>
    rw [after, resized]
    split <;> simp_all [TraceOp.id, Nat.pos_iff_ne_zero]
  | free named => simp [after, resized, TraceOp.id]

theorem resized_self (asks : 0 < op.size) : op.resized sizes op.id = op.size := by
  cases op with
  | alloc named size =>
    have some : size ≠ 0 := Nat.ne_of_gt asks
    rw [resized, if_neg some]
    exact Function.update_self ..
  | realloc named size => exact Function.update_self ..
  | free named => cases asks

/-- An operation leaves a number at most what it held, or what the operation asks for. -/
theorem resized_le : op.resized sizes op.id ≤ sizes op.id + op.size := by
  cases op with
  | alloc named size =>
    rw [resized]
    split
    · exact Nat.le_add_right ..
    · simp [TraceOp.id, TraceOp.size]
  | realloc named size => simp [resized, TraceOp.id, TraceOp.size]
  | free named => simp [resized, TraceOp.id]

end Resized

def isAlloc : TraceOp → Bool
  | alloc .. => true
  | _ => false

def isRealloc : TraceOp → Bool
  | realloc .. => true
  | _ => false

def isFree : TraceOp → Bool
  | free _ => true
  | _ => false

/-- Every operation is of one of three kinds. -/
theorem countP_kinds (ops : List TraceOp) :
    ops.countP isAlloc + ops.countP isRealloc + ops.countP isFree = ops.length := by
  induction ops with
  | nil => rfl
  | cons op ops ih =>
    cases op <;> simp only [List.countP_cons, List.length_cons, isAlloc, isRealloc, isFree] <;>
      simp <;> omega

/-! ## After some operations -/

/-- The numbers that are live after some operations. -/
def liveIds (ops : List TraceOp) : Finset Nat := ops.foldl after ∅

/-- What each number holds after some operations. -/
def sizes (ops : List TraceOp) : Nat → Nat := ops.foldl resized fun _ => 0

/-- The bytes that are live after some operations. -/
def liveBytes (ops : List TraceOp) : Nat := ∑ id ∈ liveIds ops, sizes ops id

/-- The most bytes that are live after any of the first operations of a list. -/
def peakBytes (ops : List TraceOp) : Nat :=
  (Finset.range (ops.length + 1)).sup fun count => liveBytes (ops.take count)

section After

variable {ops : List TraceOp} {op : TraceOp}

theorem liveIds_concat : liveIds (ops ++ [op]) = op.after (liveIds ops) := by
  rw [liveIds, List.foldl_append]
  rfl

theorem sizes_concat : sizes (ops ++ [op]) = op.resized (sizes ops) := by
  rw [sizes, List.foldl_append]
  rfl

theorem liveBytes_le_peakBytes (ops : List TraceOp) : liveBytes ops ≤ peakBytes ops := by
  have last := Finset.le_sup (f := fun count => liveBytes (ops.take count))
    (Finset.self_mem_range_succ ops.length)
  rwa [List.take_length] at last

theorem peakBytes_concat :
    peakBytes (ops ++ [op]) = max (peakBytes ops) (liveBytes (ops ++ [op])) := by
  have whole : (ops ++ [op]).take (ops.length + 1) = ops ++ [op] :=
    List.take_of_length_le (by simp)
  have earlier : peakBytes ops =
      (Finset.range (ops.length + 1)).sup fun count => liveBytes ((ops ++ [op]).take count) := by
    apply Finset.sup_congr rfl
    intro count within
    rw [List.take_append_of_le_length (Nat.lt_succ_iff.mp (Finset.mem_range.mp within))]
  rw [peakBytes, List.length_append, List.length_singleton, Finset.range_add_one,
    Finset.sup_insert, whole, ← earlier, max_comm]

/-- A number is live exactly if it holds bytes. -/
theorem mem_liveIds {id : Nat} : id ∈ liveIds ops ↔ 0 < sizes ops id := by
  induction ops using List.reverseRecOn with
  | nil => simp [liveIds, sizes]
  | append_singleton ops op ih =>
    rw [liveIds_concat, sizes_concat]
    by_cases other : id = op.id
    · subst other
      exact mem_after_self ih
    · rw [mem_after_of_ne other, resized_of_ne other, ih]

/-- The bytes that are live are those of one number and those of the others. -/
theorem liveBytes_eq_add (ops : List TraceOp) (id : Nat) :
    liveBytes ops = sizes ops id + ∑ other ∈ (liveIds ops).erase id, sizes ops other := by
  by_cases live : id ∈ liveIds ops
  · exact (Finset.add_sum_erase _ _ live).symm
  · have none : sizes ops id = 0 := Nat.eq_zero_of_not_pos fun some => live (mem_liveIds.mpr some)
    rw [none, Nat.zero_add, Finset.erase_eq_of_notMem live, liveBytes]

/-- An operation changes the bytes that are live by what its own number holds. -/
theorem liveBytes_concat (ops : List TraceOp) (op : TraceOp) :
    liveBytes (ops ++ [op]) + sizes ops op.id = liveBytes ops + op.resized (sizes ops) op.id := by
  have ids : (liveIds (ops ++ [op])).erase op.id = (liveIds ops).erase op.id := by
    ext other
    rw [liveIds_concat, Finset.mem_erase, Finset.mem_erase, and_congr_right_iff]
    exact mem_after_of_ne
  have others : ∑ other ∈ (liveIds ops).erase op.id, sizes (ops ++ [op]) other =
      ∑ other ∈ (liveIds ops).erase op.id, sizes ops other := by
    apply Finset.sum_congr rfl
    intro other member
    rw [sizes_concat, resized_of_ne (Finset.ne_of_mem_erase member)]
  have before := liveBytes_eq_add ops op.id
  have behind := liveBytes_eq_add (ops ++ [op]) op.id
  rw [ids, others, sizes_concat] at behind
  omega

/-- Operations that ask for at most `limit` bytes have at most as many live for each of them. -/
theorem liveBytes_le {limit : Nat} (sized : ∀ op ∈ ops, op.size ≤ limit) :
    liveBytes ops ≤ ops.length * limit := by
  induction ops using List.reverseRecOn with
  | nil => simp [liveBytes, liveIds]
  | append_singleton ops op ih =>
    obtain ⟨earlier, last⟩ := List.forall_mem_append.mp sized
    have changed := liveBytes_concat ops op
    have held : op.resized (sizes ops) op.id ≤ sizes ops op.id + op.size := resized_le
    have asked := last op (List.mem_singleton_self op)
    have before := ih earlier
    rw [List.length_append, List.length_singleton, Nat.succ_mul]
    omega

/-- The bytes that are live, added up over the numbers of a list. -/
theorem liveBytes_eq_sum {ids : List Nat} (different : ids.Nodup)
    (listed : ∀ id, id ∈ liveIds ops ↔ id ∈ ids) : liveBytes ops = (ids.map (sizes ops)).sum := by
  have same : liveIds ops = ids.toFinset := by
    ext id
    rw [listed, List.mem_toFinset]
  rw [liveBytes, same, List.sum_toFinset _ different]

end After

end TraceOp

end BoundaryHeap
