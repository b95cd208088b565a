import BoundaryHeap.Proofs.Extend
import BoundaryHeap.Proofs.Scan
import BoundaryHeap.Proofs.Steps

/-!
A heap over a limited arena grows by one free block at the end of its memory, or is refused and
stays as it was.
-/

namespace BoundaryHeap

/-- The arena has no room for this many bytes more. -/
def LimitedArena.Refuses (a : LimitedArena) (increment : Nat) : Prop :=
  wordLimit ≤ a.memory.size + increment ∨ a.limit < a.memory.size + increment

/-- The arena grows by this many bytes. -/
def LimitedArena.Grants (a : LimitedArena) (increment : Nat) : Prop :=
  a.memory.size + increment ≤ a.limit ∧ a.memory.size + increment < capacityLimit

/-- The arena is allowed this many bytes more, but no address space has them. -/
def LimitedArena.Bursts (a : LimitedArena) (increment : Nat) : Prop :=
  ¬ a.Refuses increment ∧ capacityLimit ≤ a.memory.size + increment

theorem LimitedArena.Bursts.le_limit {a : LimitedArena} {increment : Nat}
    (bursts : a.Bursts increment) : capacityLimit ≤ a.limit := by
  obtain ⟨allowed, huge⟩ := bursts
  simp only [Refuses, not_or, Nat.not_lt] at allowed
  exact Nat.le_trans huge allowed.2

/-- The fault of an arena that is asked for more bytes than an address space has, if it may be. -/
def Overgrown (demand : Prop) (fault : Fault) : Prop := fault = .capacity ∧ demand

theorem Action.Ensures.overgrown {σ α : Type} {act : Action σ α} {s : σ} {post : α → σ → Prop}
    {demand demand' : Prop} (ensured : act.Ensures s (Overgrown demand) post)
    (wider : demand → demand') : act.Ensures s (Overgrown demand') post :=
  ensured.excuse fun _ => And.imp_right wider

namespace Heap

open FreeList (enter)

variable {h h' : Heap LimitedArena} {chain nodes : List ChainBlock} {α : Type}
  {excused : Fault → Prop}

/-- The heap with another region. -/
def withRegion (h : Heap LimitedArena) (r : Region) : Heap LimitedArena :=
  { h with arena := { h.arena with memory := r.memory }, freeList := r.freeList }

/-- The heap after its arena has grown. -/
def grown (h : Heap LimitedArena) (increment : Nat) : Heap LimitedArena :=
  { h with
    arena := ⟨h.memory.extend increment, h.arena.limit, h.arena.growCalls + 1⟩
    counters :=
      { h.counters with
        growCalls := h.counters.growCalls + 1
        growBytes := h.counters.growBytes + increment } }

theorem withRegion_limit (h : Heap LimitedArena) (r : Region) :
    (h.withRegion r).arena.limit = h.arena.limit := rfl

theorem grown_limit (h : Heap LimitedArena) (increment : Nat) :
    (h.grown increment).arena.limit = h.arena.limit := rfl

theorem edit_run {act : Action Region α} {answer : α} {r : Region}
    (ran : act.run h.region = .ok answer r) : (edit act).run h = .ok answer (h.withRegion r) := by
  have ran' : act.run ⟨Arena.memory h.arena, h.freeList⟩ = .ok answer r := ran
  rw [edit, Action.run_focus]
  simp only [ran']
  rfl

/-- What an edit of the region ensures, the heap around it goes along with. -/
theorem edit_ensures {β : Type} {post : β → Heap LimitedArena → Prop} {act : Action Region α}
    {found : α → Region → Prop} {next : α → Action (Heap LimitedArena) β}
    (ensured : act.Ensures h.region Action.Total found)
    (rest : ∀ answer r, found answer r → (next answer).Ensures (h.withRegion r) excused post) :
    (edit act >>= next).Ensures h excused post := by
  have edited : (edit act).Ensures h excused fun answer h' =>
      ∃ r, found answer r ∧ h' = h.withRegion r :=
    .focus (ensured.of_total.imp fun answer r holds => ⟨r, holds, rfl⟩)
  apply edited.bind
  rintro answer _ ⟨r, holds, rfl⟩
  exact rest answer r holds

/-- A limited arena grows by what it is asked for, or refuses. -/
theorem grow_ensures (a : LimitedArena) (increment : Nat) :
    (LimitedArena.grow increment).Ensures a (Overgrown (a.Bursts increment)) fun answer a' =>
      (answer = none ∧ a' = a ∧ a.Refuses increment) ∨
        (answer = some a.memory.size ∧ a.Grants increment ∧
          a' = ⟨a.memory.extend increment, a.limit, a.growCalls + 1⟩) := by
  by_cases refused : a.Refuses increment
  · have run : (LimitedArena.grow increment).run a = .ok none a := if_pos refused
    exact .of_run run (.inl ⟨rfl, rfl, refused⟩)
  · by_cases huge : capacityLimit ≤ a.memory.size + increment
    · have run : (LimitedArena.grow increment).run a = .error .capacity a :=
        (if_neg refused).trans (if_pos huge)
      rw [Action.Ensures, run]
      exact ⟨rfl, refused, huge⟩
    · have run : (LimitedArena.grow increment).run a =
          .ok (some a.memory.size) ⟨a.memory.extend increment, a.limit, a.growCalls + 1⟩ :=
        (if_neg refused).trans (if_neg huge)
      have within : a.memory.size + increment ≤ a.limit := by
        simp only [LimitedArena.Refuses, not_or, Nat.not_lt] at refused
        exact refused.2
      exact .of_run run (.inr ⟨rfl, ⟨within, Nat.lt_of_not_le huge⟩, rfl⟩)

/-- Asking the arena for more bytes at the end of the memory. -/
theorem growContiguous_ensures (h : Heap LimitedArena) (increment : Nat) :
    (growContiguous increment).Ensures h (Overgrown (h.arena.Bursts increment)) fun result h' =>
      (∃ error, result = .error error ∧ h' = h ∧ h.arena.Refuses increment) ∨
        (result = .ok h.memory.size ∧ h' = h.grown increment ∧ h.arena.Grants increment) := by
  unfold growContiguous
  apply view_ensures rfl
  have asked : (growArena increment).Ensures h
      (Overgrown (h.arena.Bursts increment)) fun answer h' =>
      (answer = none ∧ h' = h ∧ h.arena.Refuses increment) ∨
        (answer = some h.memory.size ∧ h.arena.Grants increment ∧
          h' = { h with arena :=
            ⟨h.memory.extend increment, h.arena.limit, h.arena.growCalls + 1⟩ }) := by
    refine .focus ((grow_ensures h.arena increment).imp ?_)
    rintro answer a (⟨rfl, rfl, refused⟩ | ⟨rfl, granted, rfl⟩)
    · exact .inl ⟨rfl, rfl, refused⟩
    · exact .inr ⟨rfl, granted, rfl⟩
  apply asked.bind
  rintro answer h₁ (⟨rfl, rfl, refused⟩ | ⟨rfl, granted, rfl⟩)
  · exact .pure (.inl ⟨_, rfl, rfl, refused⟩)
  · have contiguous : ¬ h.memory.size ≠ h.memory.size := not_not.mpr rfl
    have exactly : ¬ (h.memory.extend increment).size - h.memory.size ≠ increment := by
      rw [Memory.size_extend]
      omega
    simp only []
    rw [if_neg contiguous]
    apply view_ensures (rfl : _ = (h.memory.extend increment).size)
    rw [if_neg exactly]
    exact count_ensures (.pure (.inr ⟨rfl, rfl, granted⟩))

/-- An extension of the heap would make its arena burst. -/
def ExtensionBursts (h : Heap LimitedArena) (request : Nat) : Prop :=
  ∃ size, Block.roundUp (max request 32) = some size ∧ h.arena.Bursts size

theorem ExtensionBursts.le_limit {request : Nat} (bursts : h.ExtensionBursts request) :
    capacityLimit ≤ h.arena.limit := by
  obtain ⟨_, -, bursts⟩ := bursts
  exact bursts.le_limit

/-- Extending the heap appends free memory to the chain, joined with a free last block. Refused, it
changes nothing. -/
theorem extend_ensures (settled : h.region.Settled chain nodes) (symbol : String) (request : Nat) :
    (extend symbol request).Ensures h (Overgrown (h.ExtensionBursts request)) fun result h' =>
      (∃ error, result = .error error ∧ Agrees h h' ∧
        ∀ size, Block.roundUp (max request 32) = some size → h.arena.Refuses size) ∨
      ∃ size r, Block.roundUp (max request 32) = some size ∧ h.arena.Grants size ∧
        result = .ok (merged chain h.memory.size (h.memory.size + size) []).bp ∧
        Agrees ((h.grown size).withRegion r) h' ∧ r.memory.size = h.memory.size + size ∧
        r.Settled (mergedChain chain h.memory.size (h.memory.size + size) [])
          (enter (merged chain h.memory.size (h.memory.size + size) [])
            (dropNeighbours chain [] nodes)) ∧
        Keeps h.memory r.memory (usedOf chain) := by
  unfold extend
  cases rounded : Block.roundUp (max request Block.minSize) with
  | none =>
    exact .pure (.inl ⟨_, rfl, .refl h, fun _ known => by cases known⟩)
  | some size =>
    obtain ⟨-, ⟨whole, enough⟩, -⟩ := Block.roundUp_eq_some_iff.mp rounded
    have legal : Block.LegalSize size :=
      ⟨Nat.mod_eq_zero_of_dvd whole, (le_max_right ..).trans enough⟩
    apply ((growContiguous_ensures h size).overgrown fun bursts => ⟨size, rounded, bursts⟩).bind
    rintro _ h₁ (⟨error, rfl, rfl, refused⟩ | ⟨rfl, rfl, granted⟩)
    · refine record_ensures fun h₂ agrees => .pure (.inl ⟨_, rfl, agrees, fun _ known => ?_⟩)
      cases known
      exact refused
    · have bounded : h.memory.size + size < wordLimit := Nat.lt_trans granted.2 (by decide)
      have memory : (h.grown size).region.memory = h.memory.extend size := rfl
      apply edit_ensures (settled.append_ensures legal bounded memory rfl)
      rintro _ r ⟨gap, header, changed⟩
      replace header : r.memory.header h.memory.size = .ok (Tag.free size) := header
      apply view_ensures rfl
      apply record_ensures
      rintro _ ⟨next, records, rfl⟩
      have own : r.memory.blockSize h.memory.size =
          .ok (h.memory.size + size - h.memory.size) := by
        rw [Region.blockSize_eq header, Nat.add_sub_cancel_left]
        rfl
      have room : h.memory.size + 32 ≤ h.memory.size + size := Nat.add_le_add_left legal.2 _
      have same : usedOf (mergedChain chain h.memory.size (h.memory.size + size) []) =
          usedOf chain := by
        rw [usedOf_mergedChain]
        exact List.append_nil _
      refine edit_ensures (Region.coalesce_ensures gap own room) ?_
      rintro start r' ⟨rfl, settled', joined, -⟩
      replace joined : r.memory.ChangedOnly r'.memory _ := joined
      refine .pure (.inr ⟨size, r', rfl, granted, rfl, ⟨_, _, rfl⟩, ?_, settled', ?_⟩)
      · rw [joined.size, changed.size, memory, Memory.size_extend]
      · have old : Keeps h.memory r.memory (usedOf chain) := by
          intro b member i payload
          have within := (settled.holds.within b (mem_usedOf.mp member).1).2
          have below : b.stop ≤ h.memory.size := within
          simp only [ChainBlock.HasPayload] at payload
          rw [changed.byte i (by omega), memory, Memory.byte_extend]
        exact old.trans (same ▸ settled'.keeps joined)

/-- A heap in service, with its blocks in address order and the free ones in the order of the
list. -/
structure Laid (h : Heap LimitedArena) (chain nodes : List ChainBlock) : Prop where
  settled : h.region.Settled chain nodes
  prologue : h.prologue = 16
  initialized : h.initialized = true

/-- What stays as it is from request to request, and that every growth is accounted for. -/
structure Continues (h h' : Heap LimitedArena) : Prop where
  config : h'.config = h.config
  limit : h'.arena.limit = h.arena.limit
  prologue : h'.prologue = h.prologue
  initialized : h'.initialized = h.initialized
  growBytes : h'.counters.growBytes + h.memory.size = h.counters.growBytes + h'.memory.size
  growCalls : h'.counters.growCalls + h.arena.growCalls = h.counters.growCalls + h'.arena.growCalls
  /-- Every growth brings at least one byte. -/
  paid : h'.arena.growCalls + h.memory.size ≤ h.arena.growCalls + h'.memory.size
  larger : h.memory.size ≤ h'.memory.size
  /-- No growth makes the memory larger than an address space. -/
  capped : h.memory.size < capacityLimit → h'.memory.size < capacityLimit

namespace Laid

/-- A heap in service has no violation. -/
theorem check_eq (laid : h.Laid chain nodes) : h.check = .ok [] := by
  have room : 32 ≤ h.memory.size := laid.settled.tiles.le
  rw [check, if_pos laid.initialized, laid.prologue]
  exact laid.settled.wellFormed.scan_eq laid.settled.bounded (by decide) room

end Laid

/-- The heap whose arena has given all memory back. -/
def emptied (h : Heap LimitedArena) : Heap LimitedArena :=
  { h with arena := h.arena.reset, freeList := .empty, prologue := 0, initialized := false }

/-- The only block of a heap that has just been laid out. -/
def whole (size : Nat) : ChainBlock := ⟨32, Tag.free size⟩

/-- A heap that has just been laid out over the emptied arena of another. -/
structure Fresh (h h' : Heap LimitedArena) (size : Nat) : Prop where
  rounded : Block.roundUp (max h.config.chunkSize 32) = some size
  bytes : h'.memory.size = 32 + size
  capped : h'.memory.size < capacityLimit
  settled : h'.region.Settled [whole size] [whole size]
  prologue : h'.prologue = 16
  config : h'.config = h.config
  limit : h'.arena.limit = h.arena.limit
  growCalls : h'.arena.growCalls = 2
  counters : h'.counters =
    { h.counters with
      growCalls := h.counters.growCalls + 2
      growBytes := h.counters.growBytes + (32 + size) }

/-- Laying out an empty heap makes one free block of all its memory. -/
theorem layOut_ensures (h : Heap LimitedArena) :
    layOut.Ensures h.emptied (Overgrown (capacityLimit ≤ h.arena.limit)) fun result h' =>
      (∃ error, result = .error error ∧ h'.initialized = false) ∨
        (∃ size, result = .ok () ∧ h.Fresh h' size) := by
  unfold layOut
  apply ((growContiguous_ensures h.emptied 32).overgrown fun bursts => bursts.le_limit).bind
  rintro _ h₁ (⟨error, rfl, rfl, -⟩ | ⟨rfl, rfl, -⟩)
  · exact .pure (.inl ⟨error, rfl, rfl⟩)
  have base : h.emptied.memory.size = 0 := rfl
  have prologue : Checked.add 0 (2 * Block.wordSize) = .ok 16 := rfl
  rw [base]
  apply Action.Ensures.lift prologue
  have fresh : (h.emptied.grown 32).region.memory.size = 32 := Memory.size_extend ..
  apply edit_ensures (Region.layOut_ensures fresh rfl)
  rintro _ r ⟨settled, size₁⟩
  refine .modify (view_ensures rfl ?_)
  let h₂ : Heap LimitedArena := { (h.emptied.grown 32).withRegion r with prologue := 16 }
  have limit : h₂.arena.limit = h.arena.limit := by
    show ((h.emptied.grown 32).withRegion r).arena.limit = _
    rw [withRegion_limit, grown_limit]
    rfl
  have settled₂ : h₂.region.Settled [] [] := settled
  refine ((extend_ensures settled₂ "init" h.config.chunkSize).overgrown fun bursts =>
    limit ▸ bursts.le_limit).bind ?_
  rintro _ h₃ (⟨error, rfl, ⟨_, _, rfl⟩, -⟩ |
    ⟨size, r', rounded, granted, rfl, ⟨next, records, rfl⟩, bytes, settled', -⟩)
  · exact .pure (.inl ⟨error, rfl, rfl⟩)
  · have size₂ : h₂.memory.size = 32 := size₁
    rw [size₂] at bytes settled'
    have single : mergedChain [] 32 (32 + size) [] = [whole size] := by
      simp [mergedChain, merged, cutEnd, cutStart, freeEnd, freeStart, whole]
    have alone : enter (merged [] 32 (32 + size) []) (dropNeighbours [] [] []) = [whole size] := by
      simp [merged, dropNeighbours, dropNode, freeEnd, freeStart, whole, enter, FreeList.upTo,
        FreeList.above]
    rw [single, alone] at settled'
    refine .pure (.inr ⟨size, rfl, ?_⟩)
    exact
      { rounded
        bytes
        capped := lt_of_eq_of_lt (bytes.trans (congrArg (· + size) size₂.symm)) granted.2
        settled := settled'
        prologue := rfl
        config := rfl
        limit
        growCalls := rfl
        counters := by
          have sum : h.counters.growBytes + 32 + size = h.counters.growBytes + (32 + size) :=
            Nat.add_assoc ..
          rw [← sum]
          rfl }

theorem conclude_ok_ensures (h : Heap LimitedArena) :
    (conclude (.ok ())).Ensures h excused fun _ h' => Agrees { h with initialized := true } h' := by
  unfold conclude
  exact .modify (view_ensures rfl (.of_run rfl (agrees_withRecord ..)))

theorem conclude_error_ensures (h : Heap LimitedArena) (error : HeapError) :
    (conclude (.error error)).Ensures h excused fun _ h' => Agrees h h' := by
  unfold conclude
  exact .of_run rfl (agrees_withRecord ..)

/-- A layout that succeeds leaves one free block, whatever the heap was before. After one that fails
the heap is out of service. -/
theorem init_ensures (h : Heap LimitedArena) :
    init.Ensures h (Overgrown (capacityLimit ≤ h.arena.limit)) fun result h' =>
      (∃ error, result = .error error ∧ h'.initialized = false) ∨
        (∃ size, result = .ok () ∧ h.Fresh h' size ∧ h'.Laid [whole size] [whole size]) := by
  unfold init
  refine .modify ((layOut_ensures h).bind ?_)
  rintro _ h₁ (⟨error, rfl, idle⟩ | ⟨size, rfl, fresh⟩)
  · apply (conclude_error_ensures h₁ error).bind
    rintro _ _ ⟨next, records, rfl⟩
    have clean : check { h₁ with nextRecord := next, records := records } = .ok [] :=
      check_eq_of_not_initialized idle
    apply (afterwards_ensures clean "init").bind
    rintro _ _ rfl
    exact .pure (.inl ⟨error, rfl, idle⟩)
  · apply (conclude_ok_ensures h₁).bind
    rintro _ h₂ ⟨next, records, rfl⟩
    have laid : Laid { h₁ with initialized := true, nextRecord := next, records := records }
        [whole size] [whole size] := ⟨fresh.settled, fresh.prologue, rfl⟩
    apply (afterwards_ensures laid.check_eq "init").bind
    rintro _ _ rfl
    refine .pure (.inr ⟨size, rfl, ?_, laid⟩)
    exact ⟨fresh.rounded, fresh.bytes, fresh.capped, fresh.settled, fresh.prologue, fresh.config,
      fresh.limit, fresh.growCalls, fresh.counters⟩

end Heap

end BoundaryHeap
