import BoundaryHeap.Proofs.Computation
import BoundaryHeap.Proofs.LiveBytes
import BoundaryHeap.Proofs.XorShift
import BoundaryHeap.Workload.Generate

/-!
Traces under construction. The operations of an orderly trace number their blocks in turn and are
about live blocks otherwise. A builder writes an orderly trace and knows all along what it comes to:
which numbers are live, what each of them holds, and the most bytes that were live.
-/

namespace BoundaryHeap

open TraceOp (liveIds liveBytes peakBytes isAlloc)

/-! ## Orderly traces -/

/-- Every allocation has the next number, and every other operation is about a live block. No
request is empty. -/
inductive Orderly : List TraceOp → Prop
  | nil : Orderly []
  | alloc {ops : List TraceOp} {size : Nat} (orderly : Orderly ops) (some : 0 < size) :
    Orderly (ops ++ [.alloc (ops.countP isAlloc) size])
  | realloc {ops : List TraceOp} {id size : Nat} (orderly : Orderly ops) (live : id ∈ liveIds ops)
    (some : 0 < size) : Orderly (ops ++ [.realloc id size])
  | free {ops : List TraceOp} {id : Nat} (orderly : Orderly ops) (live : id ∈ liveIds ops) :
    Orderly (ops ++ [.free id])

namespace Orderly

variable {ops : List TraceOp} {op : TraceOp} {id : Nat}

/-- What is live has been allocated. -/
theorem lt_countP (orderly : Orderly ops) : ∀ id ∈ liveIds ops, id < ops.countP isAlloc := by
  induction orderly with
  | nil => exact fun _ member => absurd member (Finset.notMem_empty _)
  | @alloc ops size orderly some ih =>
    intro id member
    rw [TraceOp.liveIds_concat, TraceOp.after, if_neg (Nat.ne_of_gt some), Finset.mem_insert]
      at member
    rw [List.countP_append]
    rcases member with rfl | older
    · exact Nat.lt_succ_self _
    · exact Nat.lt_add_right 1 (ih id older)
  | @realloc ops named size orderly live some ih =>
    intro id member
    rw [TraceOp.liveIds_concat, TraceOp.after, if_neg (Nat.ne_of_gt some),
      Finset.insert_eq_of_mem live] at member
    rw [List.countP_append]
    exact ih id member
  | @free ops named orderly live ih =>
    intro id member
    rw [TraceOp.liveIds_concat, TraceOp.after] at member
    rw [List.countP_append]
    exact ih id (Finset.mem_of_mem_erase member)

/-- The next number is not live. -/
theorem countP_notMem (orderly : Orderly ops) : ops.countP isAlloc ∉ liveIds ops :=
  fun member => Nat.lt_irrefl _ (orderly.lt_countP _ member)

/-- The closing releases of an orderly trace. -/
theorem freeAll {ids : List Nat} (orderly : Orderly ops) (different : ids.Nodup)
    (live : ∀ id ∈ ids, id ∈ liveIds ops) :
    Orderly (ops ++ ids.map .free) ∧
      (∀ id, id ∈ liveIds (ops ++ ids.map .free) ↔ id ∈ liveIds ops ∧ id ∉ ids) ∧
      (ops ++ ids.map TraceOp.free).countP isAlloc = ops.countP isAlloc ∧
      peakBytes (ops ++ ids.map .free) = peakBytes ops := by
  induction ids generalizing ops with
  | nil => simpa using orderly
  | cons named rest ih =>
    obtain ⟨once, different⟩ := List.nodup_cons.mp different
    obtain ⟨here, live⟩ := List.forall_mem_cons.mp live
    have released : liveIds (ops ++ [.free named]) = (liveIds ops).erase named :=
      TraceOp.liveIds_concat
    have still : ∀ id ∈ rest, id ∈ liveIds (ops ++ [.free named]) := by
      intro id member
      rw [released]
      exact Finset.mem_erase.mpr ⟨fun same => once (same ▸ member), live id member⟩
    obtain ⟨orderly', left, counted, peak⟩ := ih (orderly.free here) different still
    have fewer : liveBytes (ops ++ [.free named]) ≤ liveBytes ops := by
      have changed := TraceOp.liveBytes_concat ops (.free named)
      have none : (TraceOp.free named).resized (TraceOp.sizes ops) named = 0 :=
        Function.update_self ..
      simp only [TraceOp.id, none] at changed
      omega
    have reached := TraceOp.liveBytes_le_peakBytes ops
    have split : ops ++ (named :: rest).map .free = ops ++ [.free named] ++ rest.map .free := by
      simp
    rw [split]
    refine ⟨orderly', ?_, ?_, ?_⟩
    · intro id
      rw [left, released, Finset.mem_erase, List.mem_cons]
      tauto
    · rw [counted, List.countP_append]
      rfl
    · rw [peak, TraceOp.peakBytes_concat, max_eq_left (by omega)]

end Orderly

namespace Workload

/-! ## An element taken out -/

/-- The array without one of its elements, in whose place the last one is put. -/
def removeAt (xs : Array Nat) (place : Nat) : Array Nat :=
  (xs.setIfInBounds place (xs.getD (xs.size - 1) 0)).pop

theorem mem_eraseIdx {xs : List Nat} {place other : Nat} (different : xs.Nodup)
    (within : place < xs.length) : other ∈ xs.eraseIdx place ↔ other ∈ xs ∧ other ≠ xs[place] := by
  have perm : (xs[place] :: xs.eraseIdx place).Perm xs := List.getElem_cons_eraseIdx_perm within
  have gone := (List.nodup_cons.mp (perm.nodup_iff.mpr different)).1
  rw [← perm.mem_iff, List.mem_cons]
  constructor
  · exact fun member => ⟨.inr member, fun same => gone (same ▸ member)⟩
  · rintro ⟨same | member, other⟩
    · exact absurd same other
    · exact member

section RemoveAt

variable {xs : Array Nat} {place other new : Nat}

theorem perm_removeAt (within : place < xs.size) :
    (removeAt xs place).toList.Perm (xs.toList.eraseIdx place) := by
  have filled : xs.size - 1 < xs.size := by omega
  rw [removeAt, Array.toList_pop, Array.toList_setIfInBounds]
  generalize known : xs.getD (xs.size - 1) 0 = last
  -- the last element stays the last one even where it is put in its own place
  have ends : (xs.toList.set place last).getLast? = some last := by
    rw [List.getLast?_eq_getElem?, List.length_set, Array.length_toList, List.getElem?_set]
    split
    next same => rw [if_pos (same ▸ filled)]
    next => rw [← known, Array.getElem?_toList, Array.getElem?_eq_getElem filled,
      Array.getElem_eq_getD 0]
  have split : xs.toList.set place last = (xs.toList.set place last).dropLast ++ [last] :=
    (List.dropLast_append_getLast? last ends).symm
  have moved := (List.perm_append_singleton last (xs.toList.set place last).dropLast).symm
  rw [← split] at moved
  exact (moved.trans (List.set_perm_cons_eraseIdx within last)).cons_inv

theorem nodup_removeAt (different : xs.toList.Nodup) (within : place < xs.size) :
    (removeAt xs place).toList.Nodup :=
  (perm_removeAt within).nodup_iff.mpr (different.sublist (List.eraseIdx_sublist ..))

theorem mem_removeAt (different : xs.toList.Nodup) (within : place < xs.size) :
    other ∈ removeAt xs place ↔ other ∈ xs ∧ other ≠ xs[place] := by
  rw [← Array.mem_toList_iff, (perm_removeAt within).mem_iff, mem_eraseIdx different within,
    Array.mem_toList_iff, Array.getElem_toList]

theorem mem_setIfInBounds (different : xs.toList.Nodup) (within : place < xs.size) :
    other ∈ xs.setIfInBounds place new ↔ other = new ∨ other ∈ xs ∧ other ≠ xs[place] := by
  rw [← Array.mem_toList_iff, Array.toList_setIfInBounds,
    (List.set_perm_cons_eraseIdx within new).mem_iff, List.mem_cons, mem_eraseIdx different within,
    Array.mem_toList_iff, Array.getElem_toList]

end RemoveAt

/-! ## A builder and its trace -/

namespace Builder
variable {b b' : Builder} {id size : Nat}

/-- The builder knows what the operations it has written come to. -/
structure Tracks (b : Builder) : Prop where
  orderly : Orderly b.ops.toList
  numbered : b.sizes.size = b.ops.toList.countP isAlloc
  different : b.live.toList.Nodup
  listed : ∀ id, id ∈ b.live ↔ id ∈ liveIds b.ops.toList
  sizes : ∀ id ∈ b.live, b.sizes.getD id 0 = TraceOp.sizes b.ops.toList id
  liveBytes : b.liveBytes = TraceOp.liveBytes b.ops.toList
  peakBytes : b.peakBytes = TraceOp.peakBytes b.ops.toList

theorem tracks_ofSeed (seed : UInt64) : (ofSeed seed).Tracks where
  orderly := .nil
  numbered := rfl
  different := List.nodup_nil
  listed := fun id => by simp [ofSeed, liveIds]
  sizes := fun id member => by simp [ofSeed] at member
  liveBytes := rfl
  peakBytes := rfl

/-- The builder with bytes of a request added to those that are live. -/
def held (b : Builder) (size : Nat) : Builder :=
  { b with liveBytes := b.liveBytes + size, peakBytes := max b.peakBytes (b.liveBytes + size) }

theorem addLive_eq_ok (known : b.addLive size = .ok b') : b' = b.held size := by
  obtain ⟨liveBytes, sum, same⟩ := Fault.bind_eq_ok.mp known
  cases same
  rw [Checked.eq_add_of_ok sum, held]

theorem alloc_eq_ok (known : b.alloc size = .ok (id, b')) :
    id = b.sizes.size ∧ b' = held
      { b with
        sizes := b.sizes.push size
        live := b.live.push id
        ops := b.ops.push (.alloc id size) } size := by
  obtain ⟨c, added, same⟩ := Fault.bind_eq_ok.mp known
  cases same
  exact ⟨rfl, addLive_eq_ok added⟩

theorem realloc_eq_ok (known : b.realloc id size = .ok b') :
    b' = held
      { b with
        liveBytes := b.liveBytes - b.sizes.getD id 0
        sizes := b.sizes.setIfInBounds id size
        ops := b.ops.push (.realloc id size) } size := by
  obtain ⟨liveBytes, difference, added⟩ := Fault.bind_eq_ok.mp known
  rw [addLive_eq_ok added, (Checked.eq_sub_of_ok difference).2]

/-- A builder writes an operation and keeps its own account of it. -/
structure Writes (b : Builder) (op : TraceOp) (b' : Builder) : Prop where
  ops : b'.ops = b.ops.push op
  numbered : b'.sizes.size = b.sizes.size + [op].countP isAlloc
  different : b'.live.toList.Nodup
  listed : ∀ id, id ∈ b'.live ↔ id ∈ op.after (liveIds b.ops.toList)
  named : op.id ∈ b'.live → b'.sizes.getD op.id 0 = op.size
  others : ∀ id, id ≠ op.id → b'.sizes.getD id 0 = b.sizes.getD id 0
  liveBytes : b'.liveBytes + TraceOp.sizes b.ops.toList op.id = b.liveBytes + op.size
  peakBytes : b'.peakBytes = max b.peakBytes b'.liveBytes

/-- An operation that keeps the trace orderly is tracked. -/
theorem Tracks.write (tracks : b.Tracks) (op : TraceOp)
    (orderly : Orderly (b.ops.toList ++ [op]))
    (holds : op.resized (TraceOp.sizes b.ops.toList) op.id = op.size) (writes : b.Writes op b') :
    b'.Tracks := by
  have ops : b'.ops.toList = b.ops.toList ++ [op] := by rw [writes.ops, Array.toList_push]
  have changed := TraceOp.liveBytes_concat b.ops.toList op
  have bytes := writes.liveBytes
  have former := tracks.liveBytes
  have liveBytes : b'.liveBytes = TraceOp.liveBytes (b.ops.toList ++ [op]) := by omega
  constructor
  case orderly =>
    rw [ops]
    exact orderly
  case numbered => rw [ops, writes.numbered, tracks.numbered, List.countP_append]
  case different => exact writes.different
  case listed =>
    intro id
    rw [ops, writes.listed, TraceOp.liveIds_concat]
  case sizes =>
    intro id member
    rw [ops, TraceOp.sizes_concat]
    by_cases same : id = op.id
    · subst same
      rw [writes.named member, holds]
    · have older : id ∈ b.live := by
        rw [tracks.listed, ← TraceOp.mem_after_of_ne same]
        exact (writes.listed id).mp member
      rw [writes.others id same, tracks.sizes id older, TraceOp.resized_of_ne same]
  case liveBytes => rw [ops, liveBytes]
  case peakBytes =>
    rw [ops, writes.peakBytes, tracks.peakBytes, TraceOp.peakBytes_concat, liveBytes]

/-- What is live has a number already given out. -/
theorem Tracks.lt_size (tracks : b.Tracks) (live : id ∈ b.live) : id < b.sizes.size := by
  rw [tracks.numbered]
  exact tracks.orderly.lt_countP id ((tracks.listed id).mp live)

/-- What a live block holds is among the bytes that are live. -/
theorem Tracks.sizes_le (tracks : b.Tracks) (id : Nat) :
    TraceOp.sizes b.ops.toList id ≤ b.liveBytes := by
  rw [tracks.liveBytes, TraceOp.liveBytes_eq_add _ id]
  exact Nat.le_add_right ..

/-- A block that is allocated has the next number and is live beside the others. -/
theorem Tracks.alloc (tracks : b.Tracks) (some : 0 < size) (known : b.alloc size = .ok (id, b')) :
    b'.Tracks ∧ id = b.sizes.size ∧ b'.sizes.size = b.sizes.size + 1 ∧
      ∀ other, other ∈ b'.live ↔ other ∈ b.live ∨ other = id := by
  obtain ⟨named, rfl⟩ := alloc_eq_ok known
  have next : id = b.ops.toList.countP isAlloc := named.trans tracks.numbered
  have new : id ∉ liveIds b.ops.toList := next ▸ tracks.orderly.countP_notMem
  have nothing : TraceOp.sizes b.ops.toList id = 0 :=
    Nat.eq_zero_of_not_pos fun held => new (TraceOp.mem_liveIds.mpr held)
  have member : ∀ other, other ∈ b.live.push id ↔ other ∈ b.live ∨ other = id :=
    fun other => Array.mem_push
  refine ⟨tracks.write (.alloc id size) (next ▸ tracks.orderly.alloc some)
    (TraceOp.resized_self some) ?_, named, Array.size_push .., member⟩
  constructor
  case ops => rfl
  case numbered => exact Array.size_push ..
  case different =>
    have fresh : id ∉ b.live.toList := by
      rw [Array.mem_toList_iff, tracks.listed]
      exact new
    rw [held, Array.toList_push]
    exact (List.perm_append_singleton id _).nodup_iff.mpr
      (List.nodup_cons.mpr ⟨fresh, tracks.different⟩)
  case listed =>
    intro other
    rw [TraceOp.after, if_neg (Nat.ne_of_gt some), Finset.mem_insert, ← tracks.listed]
    exact (member other).trans or_comm
  case named =>
    intro _
    simp [held, TraceOp.id, TraceOp.size, named]
  case others =>
    intro other different
    have older : other ≠ b.sizes.size := named ▸ different
    simp [held, Array.getD_eq_getD_getElem?, Array.getElem?_push, older]
  case liveBytes =>
    change b.liveBytes + size + TraceOp.sizes b.ops.toList id = b.liveBytes + size
    omega
  case peakBytes => rfl

/-- A resize leaves the same blocks live. -/
theorem Tracks.realloc (tracks : b.Tracks) (some : 0 < size) (live : id ∈ b.live)
    (known : b.realloc id size = .ok b') :
    b'.Tracks ∧ b'.live = b.live ∧ b'.sizes.size = b.sizes.size := by
  have listed := (tracks.listed id).mp live
  have within := tracks.lt_size live
  have fewer := tracks.sizes_le id
  rw [realloc_eq_ok known]
  refine ⟨tracks.write (.realloc id size) (tracks.orderly.realloc listed some)
    (TraceOp.resized_self some) ?_, rfl, Array.size_setIfInBounds ..⟩
  constructor
  case ops => rfl
  case numbered => exact Array.size_setIfInBounds ..
  case different => exact tracks.different
  case listed =>
    intro other
    rw [TraceOp.after, if_neg (Nat.ne_of_gt some), Finset.insert_eq_of_mem listed]
    exact tracks.listed other
  case named =>
    intro _
    simp [held, TraceOp.id, TraceOp.size, within]
  case others =>
    intro other different
    have kept : id ≠ other := Ne.symm different
    simp [held, Array.getD_eq_getD_getElem?, kept]
  case liveBytes =>
    change b.liveBytes - b.sizes.getD id 0 + size + TraceOp.sizes b.ops.toList id =
      b.liveBytes + size
    rw [tracks.sizes id live]
    omega
  case peakBytes => rfl

/-- A release leaves the other blocks live. -/
theorem Tracks.free (tracks : b.Tracks) (known : b.free id = .ok b') :
    b'.Tracks ∧ b'.sizes = b.sizes ∧ ∀ other, other ∈ b'.live ↔ other ∈ b.live ∧ other ≠ id := by
  rw [Builder.free] at known
  cases found : b.live.findIdx? (· == id) with
  | none =>
    rw [found] at known
    cases known
    have dead : ∀ other ∈ b.live, (other == id) = false := Array.findIdx?_eq_none_iff.mp found
    refine ⟨tracks, rfl, fun other => (and_iff_left_of_imp ?_).symm⟩
    rintro member rfl
    simpa using dead other member
  | some place =>
    rw [found] at known
    obtain ⟨liveBytes, difference, same⟩ := Fault.bind_eq_ok.mp known
    cases same
    obtain ⟨within, here, -⟩ := Array.findIdx?_eq_some_iff_getElem.mp found
    obtain rfl : b.live[place] = id := by simpa using here
    have live := Array.getElem_mem within
    have listed := (tracks.listed _).mp live
    have fewer := tracks.sizes_le b.live[place]
    have member : ∀ other, other ∈ removeAt b.live place ↔
        other ∈ b.live ∧ other ≠ b.live[place] := fun other =>
      mem_removeAt tracks.different within
    have reached := TraceOp.liveBytes_le_peakBytes b.ops.toList
    have left : liveBytes = b.liveBytes - TraceOp.sizes b.ops.toList b.live[place] := by
      rw [(Checked.eq_sub_of_ok difference).2, tracks.sizes _ live]
    refine ⟨tracks.write (.free b.live[place]) (tracks.orderly.free listed)
      (Function.update_self ..) ?_, rfl, member⟩
    constructor
    case ops => rfl
    case numbered => rfl
    case different => exact nodup_removeAt tracks.different within
    case listed =>
      intro other
      rw [TraceOp.after, Finset.mem_erase, ← tracks.listed, and_comm]
      exact member other
    case named =>
      intro here
      exact absurd rfl ((member _).mp here).2
    case others =>
      intro _ _
      rfl
    case liveBytes =>
      change liveBytes + TraceOp.sizes b.ops.toList b.live[place] = b.liveBytes + 0
      omega
    case peakBytes =>
      rw [← tracks.liveBytes, ← tracks.peakBytes] at reached
      change b.peakBytes = max b.peakBytes liveBytes
      exact (max_eq_left (by omega)).symm

/-! ## Numbers drawn -/

/-- A number is drawn from a range, and nothing is written. -/
structure Drawn (low high number : Nat) (b b' : Builder) : Prop where
  low : low ≤ number
  high : number ≤ high
  same : ∃ random, b' = { b with random }

theorem drawn_of_ok {low high number : Nat} (known : b.draw low high = .ok (number, b')) :
    Drawn low high number b b' := by
  obtain ⟨⟨found, random⟩, ranged, same⟩ := Fault.bind_eq_ok.mp known
  cases same
  obtain ⟨least, most⟩ := XorShift.range_within ranged
  exact ⟨least, most, random, rfl⟩

/-- Drawing a number writes nothing. -/
theorem Tracks.random (tracks : b.Tracks) (random : XorShift) :
    ({ b with random } : Builder).Tracks :=
  ⟨tracks.orderly, tracks.numbered, tracks.different, tracks.listed, tracks.sizes,
    tracks.liveBytes, tracks.peakBytes⟩

theorem Drawn.tracks {low high number : Nat} (drawn : Drawn low high number b b')
    (tracks : b.Tracks) : b'.Tracks := by
  obtain ⟨random, rfl⟩ := drawn.same
  exact tracks.random random

/-! ## Within a bound -/

/-- The account of the trace is right, no operation asks for more than `limit` bytes, and the peak
fits in 64 bits. -/
structure Keeps (limit : Nat) (b : Builder) : Prop where
  tracks : b.Tracks
  sized : ∀ op ∈ b.ops.toList, op.size ≤ limit
  small : b.peakBytes < wordLimit

section Keeps

variable {limit most bound low high : Nat}

theorem keeps_ofSeed (seed : UInt64) : (ofSeed seed).Keeps limit where
  tracks := tracks_ofSeed seed
  sized := fun _ never => absurd never List.not_mem_nil
  small := Nat.zero_lt_succ _

theorem Drawn.keeps {number : Nat} (drawn : Drawn low high number b b') (keeps : b.Keeps limit) :
    b'.Keeps limit := by
  have tracks := drawn.tracks keeps.tracks
  obtain ⟨random, rfl⟩ := drawn.same
  exact ⟨tracks, keeps.sized, keeps.small⟩

theorem Drawn.ops {number : Nat} (drawn : Drawn low high number b b') : b'.ops = b.ops := by
  obtain ⟨random, rfl⟩ := drawn.same
  rfl

theorem Keeps.liveBytes_le (keeps : b.Keeps limit) : b.liveBytes ≤ b.ops.size * limit := by
  rw [keeps.tracks.liveBytes, ← Array.length_toList]
  exact TraceOp.liveBytes_le keeps.sized

/-- There are no more live blocks than operations. -/
theorem Tracks.live_le (tracks : b.Tracks) : b.live.size ≤ b.ops.size := by
  have listed : b.live.toList ⊆ List.range b.sizes.size := by
    intro id member
    exact List.mem_range.mpr (tracks.lt_size (Array.mem_toList_iff.mp member))
  have fewer := (tracks.different.subperm listed).length_le
  have allocated : b.ops.toList.countP isAlloc ≤ b.ops.toList.length := List.countP_le_length
  rw [List.length_range, tracks.numbered, Array.length_toList] at fewer
  exact fewer.trans (allocated.trans_eq Array.length_toList)

/-- One more operation within the limit. -/
theorem Keeps.push {op : TraceOp} (keeps : b.Keeps limit) (tracks : b'.Tracks)
    (ops : b'.ops = b.ops.push op) (within : op.size ≤ limit) (small : b'.peakBytes < wordLimit) :
    b'.Keeps limit ∧ b'.ops.size = b.ops.size + 1 := by
  refine ⟨⟨tracks, ?_, small⟩, by rw [ops, Array.size_push]⟩
  rw [ops, Array.toList_push]
  exact List.forall_mem_append.mpr ⟨keeps.sized, List.forall_mem_singleton.mpr within⟩

theorem draw_computes (ordered : low ≤ high) (within : high - low + 1 ≤ bound) :
    Computes bound (fun answer => Drawn low high answer.1 b answer.2) (b.draw low high) := by
  have ranged : Computes bound (fun _ => True) (b.random.range low high) := by
    refine Computes.bind (Checked.sub_computes ordered) ?_
    rintro _ rfl
    exact Computes.bind (Checked.add_computes within) fun _ _ => trivial
  have answers : Computes bound (fun _ => True) (b.draw low high) :=
    Computes.bind ranged fun _ _ => trivial
  exact answers.known.imp fun _ known => drawn_of_ok known.1

theorem addLive_computes (within : b.liveBytes + size ≤ bound) :
    Computes bound (fun b' => b' = b.held size ∧ b.liveBytes + size < wordLimit)
      (b.addLive size) := by
  refine Computes.bind (Checked.add_computes within) ?_
  rintro _ ⟨rfl, fits⟩
  exact ⟨rfl, fits⟩

theorem Keeps.alloc_computes (keeps : b.Keeps limit) (some : 0 < size) (within : size ≤ limit)
    (room : b.ops.size < most) :
    Computes (most * limit) (fun answer => b.alloc size = .ok answer ∧ answer.2.Keeps limit ∧
      answer.2.ops.size = b.ops.size + 1) (b.alloc size) := by
  have live := keeps.liveBytes_le
  have longer : (b.ops.size + 1) * limit ≤ most * limit := Nat.mul_le_mul_right limit room
  rw [Nat.succ_mul] at longer
  have answers : Computes (most * limit) (fun answer => answer.2.peakBytes < wordLimit)
      (b.alloc size) := by
    refine Computes.bind (addLive_computes (by dsimp only; omega)) ?_
    rintro _ ⟨rfl, fits⟩
    exact max_lt keeps.small fits
  refine answers.known.imp ?_
  rintro ⟨id, b'⟩ ⟨known, small⟩
  have tracks := (keeps.tracks.alloc some known).1
  have ops : b'.ops = b.ops.push (.alloc id size) := by
    obtain ⟨rfl, rfl⟩ := alloc_eq_ok known
    rfl
  exact ⟨known, keeps.push tracks ops within small⟩

theorem Keeps.realloc_computes (keeps : b.Keeps limit) (live : id ∈ b.live) (some : 0 < size)
    (within : size ≤ limit) (room : b.ops.size < most) :
    Computes (most * limit) (fun b' => b.realloc id size = .ok b' ∧ b'.Keeps limit ∧
      b'.ops.size = b.ops.size + 1) (b.realloc id size) := by
  have bytes := keeps.liveBytes_le
  have longer : (b.ops.size + 1) * limit ≤ most * limit := Nat.mul_le_mul_right limit room
  rw [Nat.succ_mul] at longer
  have fewer : b.sizes.getD id 0 ≤ b.liveBytes := by
    rw [keeps.tracks.sizes id live]
    exact keeps.tracks.sizes_le id
  have answers : Computes (most * limit) (fun b' => b'.peakBytes < wordLimit)
      (b.realloc id size) := by
    refine Computes.bind (Checked.sub_computes fewer) ?_
    rintro _ rfl
    refine (addLive_computes (by dsimp only; omega)).imp ?_
    rintro _ ⟨rfl, fits⟩
    exact max_lt keeps.small fits
  refine answers.known.imp ?_
  rintro b' ⟨known, small⟩
  have tracks := (keeps.tracks.realloc some live known).1
  have ops : b'.ops = b.ops.push (.realloc id size) := by rw [realloc_eq_ok known]; rfl
  exact ⟨known, keeps.push tracks ops within small⟩

/-- A release writes an operation if its block is live, and nothing otherwise. -/
theorem Keeps.free_computes (keeps : b.Keeps limit) (id : Nat) :
    Computes bound (fun b' => b.free id = .ok b' ∧ b'.Keeps limit ∧ b.ops.size ≤ b'.ops.size ∧
      b'.ops.size ≤ b.ops.size + 1 ∧ (id ∈ b.live → b'.ops.size = b.ops.size + 1))
      (b.free id) := by
  have answers : Computes bound (fun b' => b'.peakBytes = b.peakBytes ∧
      (b' = b ∧ id ∉ b.live ∨ b'.ops = b.ops.push (.free id))) (b.free id) := by
    rw [Builder.free]
    cases found : b.live.findIdx? (· == id) with
    | none =>
      have dead : ∀ other ∈ b.live, (other == id) = false := Array.findIdx?_eq_none_iff.mp found
      exact ⟨rfl, .inl ⟨rfl, fun live => by simpa using dead id live⟩⟩
    | some place =>
      obtain ⟨within, here, -⟩ := Array.findIdx?_eq_some_iff_getElem.mp found
      obtain rfl : b.live[place] = id := by simpa using here
      have fewer : b.sizes.getD b.live[place] 0 ≤ b.liveBytes := by
        rw [keeps.tracks.sizes _ (Array.getElem_mem within)]
        exact keeps.tracks.sizes_le _
      refine Computes.bind (Checked.sub_computes fewer) ?_
      rintro _ rfl
      exact ⟨rfl, .inr rfl⟩
  refine answers.known.imp ?_
  rintro b' ⟨known, peak, ⟨rfl, dead⟩ | ops⟩
  · exact ⟨known, keeps, Nat.le_refl _, Nat.le_succ _, fun live => absurd live dead⟩
  · have small : b'.peakBytes < wordLimit := peak ▸ keeps.small
    obtain ⟨keeps', longer⟩ :=
      keeps.push (keeps.tracks.free known).1 ops (Nat.zero_le limit) small
    exact ⟨known, keeps', by omega, by omega, fun _ => longer⟩

theorem Keeps.freeAll_computes (keeps : b.Keeps limit) (ids : List Nat) :
    Computes bound (fun b' => b'.Keeps limit ∧ b.ops.size ≤ b'.ops.size ∧
      b'.ops.size ≤ b.ops.size + ids.length) (b.freeAll ids) := by
  induction ids generalizing b with
  | nil => exact ⟨keeps, Nat.le_refl _, Nat.le_refl _⟩
  | cons id rest ih =>
    refine Computes.bind (keeps.free_computes id) ?_
    rintro c ⟨-, keeps', longer, most, -⟩
    refine (ih keeps').imp ?_
    rintro b' ⟨keeps'', further, most'⟩
    rw [List.length_cons]
    exact ⟨keeps'', by omega, by omega⟩

theorem Keeps.allocAll_computes {sizes : List Nat} (keeps : b.Keeps limit)
    (some : ∀ size ∈ sizes, 0 < size ∧ size ≤ limit) (room : b.ops.size + sizes.length ≤ most) :
    Computes (most * limit) (fun answer => answer.1.length = sizes.length ∧
      answer.2.Keeps limit ∧ answer.2.ops.size = b.ops.size + sizes.length)
      (b.allocAll sizes) := by
  induction sizes generalizing b with
  | nil => exact ⟨rfl, keeps, rfl⟩
  | cons size rest ih =>
    obtain ⟨⟨positive, within⟩, some⟩ := List.forall_mem_cons.mp some
    rw [List.length_cons] at room
    refine Computes.bind (keeps.alloc_computes positive within (by omega)) ?_
    rintro ⟨id, c⟩ ⟨-, keeps', longer⟩
    refine Computes.bind (ih keeps' some (by dsimp only at longer; omega)) ?_
    rintro ⟨ids, d⟩ ⟨counted, keeps'', further⟩
    dsimp only at longer counted further
    exact ⟨by simp [counted], keeps'', by simp only [List.length_cons]; omega⟩

/-- A block that is picked is live, and nothing is written. -/
theorem Keeps.pickLive_computes (keeps : b.Keeps limit) (fits : b.ops.size ≤ bound) :
    Computes bound (fun answer => answer.2.Keeps limit ∧ answer.2.ops = b.ops ∧
      ∀ id, answer.1 = some id → id ∈ answer.2.live) b.pickLive := by
  rw [pickLive]
  split
  next none => exact ⟨keeps, rfl, fun _ never => by cases never⟩
  next some =>
    have filled : b.live.size ≠ 0 := by simpa using some
    have fewer := keeps.tracks.live_le
    refine Computes.bind (draw_computes (Nat.zero_le _) (by omega)) ?_
    rintro ⟨place, c⟩ drawn
    refine ⟨drawn.keeps keeps, drawn.ops, ?_⟩
    obtain ⟨-, high, random, rfl⟩ := drawn
    rintro _ ⟨⟩
    have within : place < b.live.size := by
      dsimp only at high
      omega
    change b.live.getD place 0 ∈ b.live
    rw [← Array.getElem_eq_getD]
    exact Array.getElem_mem within

end Keeps

end Builder

end Workload

end BoundaryHeap
