import BoundaryHeap.Heap.Request
import BoundaryHeap.Proofs.Growth

/-!
What an allocation does to a heap in service. Either the first block of the list that is large
enough serves it, or the heap is extended first; the block handed out is new among those in use, and
the payloads of the others are as they were. A refused allocation changes one counter.
-/

namespace BoundaryHeap

/-- The totals that requests move, which leaves out those of the arena. -/
def Counters.served (c : Counters) : Counters := { c with growCalls := 0, growBytes := 0 }

/-- No total that requests move is larger than `bound`. -/
structure Counters.Within (c : Counters) (bound : Nat) : Prop where
  allocs : c.allocs ≤ bound
  frees : c.frees ≤ bound
  reallocsInPlace : c.reallocsInPlace ≤ bound
  reallocsAbsorbedPrev : c.reallocsAbsorbedPrev ≤ bound
  reallocsMoved : c.reallocsMoved ≤ bound
  failedAllocs : c.failedAllocs ≤ bound
  invalidPointers : c.invalidPointers ≤ bound

theorem Counters.Within.mono {c : Counters} {bound larger : Nat} (within : c.Within bound)
    (le : bound ≤ larger) : c.Within larger where
  allocs := within.allocs.trans le
  frees := within.frees.trans le
  reallocsInPlace := within.reallocsInPlace.trans le
  reallocsAbsorbedPrev := within.reallocsAbsorbedPrev.trans le
  reallocsMoved := within.reallocsMoved.trans le
  failedAllocs := within.failedAllocs.trans le
  invalidPointers := within.invalidPointers.trans le

theorem Counters.Within.succ {c : Counters} {bound : Nat} (within : c.Within bound) :
    c.Within (bound + 1) := within.mono (Nat.le_succ bound)

/-- The bytes that a heap asks its arena for when no free block holds `size` bytes, if there are
that many in 64 bits. -/
def HeapConfig.growthFor (config : HeapConfig) (size : Nat) : Option Nat :=
  Block.roundUp (max (max size config.chunkSize) Block.minSize)

theorem find?_eq_none_iff_smaller {nodes : List ChainBlock} {size : Nat} :
    nodes.find? (size ≤ ·.tag.size) = none ↔ ∀ c ∈ nodes, c.tag.size < size := by
  simp [List.find?_eq_none]

namespace Heap

open FreeList (enter)

variable {h h' : Heap LimitedArena} {chain nodes chain' nodes' : List ChainBlock} {α : Type}
  {excused : Fault → Prop} {b : ChainBlock} {request size : Nat}

namespace Continues

theorem refl (h : Heap LimitedArena) : h.Continues h :=
  ⟨rfl, rfl, rfl, rfl, rfl, rfl, Nat.le_refl _, Nat.le_refl _, id⟩

theorem trans {h'' : Heap LimitedArena} (first : h.Continues h') (second : h'.Continues h'') :
    h.Continues h'' where
  config := second.config.trans first.config
  limit := second.limit.trans first.limit
  prologue := second.prologue.trans first.prologue
  initialized := second.initialized.trans first.initialized
  growBytes := by
    have := first.growBytes
    have := second.growBytes
    omega
  growCalls := by
    have := first.growCalls
    have := second.growCalls
    omega
  paid := by
    have := first.paid
    have := second.paid
    omega
  larger := Nat.le_trans first.larger second.larger
  capped := second.capped ∘ first.capped

end Continues

theorem Agrees.continues (agrees : h.Agrees h') : h.Continues h' := by
  obtain ⟨_, _, rfl⟩ := agrees
  exact ⟨rfl, rfl, rfl, rfl, rfl, rfl, Nat.le_refl _, Nat.le_refl _, id⟩

theorem Agrees.laid (agrees : h.Agrees h') (laid : h.Laid chain nodes) : h'.Laid chain nodes := by
  obtain ⟨_, _, rfl⟩ := agrees
  exact ⟨laid.settled, laid.prologue, laid.initialized⟩

/-- The heap after an edit of its region that moves some totals, whatever records it keeps. -/
def Edited (h : Heap LimitedArena) (r : Region) (change : Counters → Counters)
    (h' : Heap LimitedArena) : Prop :=
  Agrees { h.withRegion r with counters := change h.counters } h'

namespace Edited

variable {r : Region} {change : Counters → Counters}

theorem memory (edited : h.Edited r change h') : h'.memory = r.memory := by
  obtain ⟨_, _, rfl⟩ := edited
  rfl

theorem counters (edited : h.Edited r change h') : h'.counters = change h.counters := by
  obtain ⟨_, _, rfl⟩ := edited
  rfl

theorem laid (edited : h.Edited r change h') (laid : h.Laid chain nodes)
    (settled : r.Settled chain' nodes') : h'.Laid chain' nodes' := by
  obtain ⟨_, _, rfl⟩ := edited
  exact ⟨settled, laid.prologue, laid.initialized⟩

/-- An edit does not resize the memory, and moves no totals of the arena. -/
theorem continues (edited : h.Edited r change h') (size : r.memory.size = h.memory.size)
    (bytes : (change h.counters).growBytes = h.counters.growBytes)
    (calls : (change h.counters).growCalls = h.counters.growCalls) : h.Continues h' := by
  have same : h'.memory.size = h.memory.size := edited.memory ▸ size
  have counters := edited.counters
  obtain ⟨_, _, rfl⟩ := edited
  refine ⟨rfl, rfl, rfl, rfl, ?_, ?_, ?_, Nat.le_of_eq same.symm, fun small => same ▸ small⟩
  · rw [counters, bytes, same]
  · rw [counters, calls]
    rfl
  · rw [same]
    exact Nat.le_refl _

end Edited

/-- What a request does to the heap as a whole, and that it moves each total by one at most. -/
structure Advances (h h' : Heap LimitedArena) : Prop where
  continues : h.Continues h'
  within : ∀ bound, h.counters.Within bound → h'.counters.Within (bound + 1)

theorem Edited.advances {r : Region} {change : Counters → Counters} (edited : h.Edited r change h')
    (size : r.memory.size = h.memory.size)
    (bytes : (change h.counters).growBytes = h.counters.growBytes)
    (calls : (change h.counters).growCalls = h.counters.growCalls)
    (within : ∀ bound, h.counters.Within bound → (change h.counters).Within (bound + 1)) :
    h.Advances h' :=
  ⟨edited.continues size bytes calls, edited.counters ▸ within⟩

theorem Agrees.advances (agrees : Agrees h h') : h.Advances h' := by
  refine ⟨agrees.continues, ?_⟩
  obtain ⟨_, _, rfl⟩ := agrees
  exact fun bound within => within.succ

/-- The free block that serves an allocation, in the heap it is taken from: the first of the list
that is large enough, or the last block once the memory has grown. -/
inductive Supplied (h : Heap LimitedArena) (chain nodes : List ChainBlock) (size : Nat) :
    ChainBlock → Heap LimitedArena → List ChainBlock → List ChainBlock → Prop
  | fit {b : ChainBlock} (first : nodes.find? (size ≤ ·.tag.size) = some b) :
    Supplied h chain nodes size b h chain nodes
  | growth {increment : Nat} {r : Region} {h' : Heap LimitedArena}
    (none : nodes.find? (size ≤ ·.tag.size) = none)
    (rounded : Block.roundUp (max (max size h.config.chunkSize) 32) = some increment)
    (granted : h.arena.Grants increment) (bytes : r.memory.size = h.memory.size + increment)
    (agrees : Agrees ((h.grown increment).withRegion r) h') :
    Supplied h chain nodes size (merged chain h.memory.size (h.memory.size + increment) []) h'
      (mergedChain chain h.memory.size (h.memory.size + increment) [])
      (enter (merged chain h.memory.size (h.memory.size + increment) [])
        (dropNeighbours chain [] nodes))

/-- No free block is large enough, and the memory cannot grow. -/
structure Lacks (h : Heap LimitedArena) (nodes : List ChainBlock) (size : Nat) : Prop where
  none : nodes.find? (size ≤ ·.tag.size) = none
  refused : ∀ increment, Block.roundUp (max (max size h.config.chunkSize) 32) = some increment →
    h.arena.Refuses increment

/-- No free block is large enough, and growing the memory would make the arena burst. -/
def Bursts (h : Heap LimitedArena) (nodes : List ChainBlock) (size : Nat) : Prop :=
  nodes.find? (size ≤ ·.tag.size) = none ∧ h.ExtensionBursts (max size h.config.chunkSize)

/-- The heap with one more failed request. -/
def failed (h : Heap LimitedArena) : Heap LimitedArena :=
  { h with counters := { h.counters with failedAllocs := h.counters.failedAllocs + 1 } }

theorem Agrees.failed_laid (agrees : Agrees h.failed h') (laid : h.Laid chain nodes) :
    h'.Laid chain nodes := by
  obtain ⟨_, _, rfl⟩ := agrees
  exact ⟨laid.settled, laid.prologue, laid.initialized⟩

theorem Agrees.failed_advances (agrees : Agrees h.failed h') : h.Advances h' := by
  obtain ⟨_, _, rfl⟩ := agrees
  refine ⟨⟨rfl, rfl, rfl, rfl, rfl, rfl, Nat.le_refl _, Nat.le_refl _, id⟩, ?_⟩
  intro bound within
  exact { within.succ with failedAllocs := Nat.succ_le_succ within.failedAllocs }

section Steps

variable {β : Type} {post : β → Heap LimitedArena → Prop} {symbol : String}

/-- A heap in service is ready. -/
theorem ready_ensures {next : Bool → Action (Heap LimitedArena) β} (laid : h.Laid chain nodes)
    (rest : (next true).Ensures h excused post) :
    (ready symbol >>= next).Ensures h excused post := by
  have known : (ready symbol).Ensures h excused fun answer h' => answer = true ∧ h' = h := by
    unfold ready
    exact view_ensures laid.initialized (.pure ⟨rfl, rfl⟩)
  apply known.bind
  rintro _ _ ⟨rfl, rfl⟩
  exact rest

/-- The size of a block for a request, or one more failed request. -/
theorem sized_ensures (h : Heap LimitedArena) (symbol : String) (request : Nat) :
    (sized symbol request).Ensures h excused fun answer h' =>
      (∃ size, answer = some size ∧ Block.sizeFor request = some size ∧ h' = h) ∨
        (answer = none ∧ Block.sizeFor request = none ∧ Agrees h.failed h') := by
  unfold sized
  cases found : Block.sizeFor request with
  | some size => exact .pure (.inl ⟨size, rfl, rfl, rfl⟩)
  | none =>
    refine count_ensures (record_ensures fun h' agrees => ?_)
    exact .pure (.inr ⟨rfl, rfl, agrees⟩)

end Steps

/-- Finding a free block of at least `size` bytes, or making one at the end of the memory. -/
theorem supply_ensures (laid : h.Laid chain nodes) (symbol : String) (size : Nat) :
    (supply symbol size).Ensures h (Overgrown (h.Bursts nodes size)) fun answer h' =>
      (answer = none ∧ h.Lacks nodes size ∧ Agrees h.failed h') ∨
      ∃ b outcome chain' nodes', answer = some (b.bp, outcome) ∧
        Supplied h chain nodes size b h' chain' nodes' ∧ h'.Laid chain' nodes' ∧ b ∈ nodes' ∧
        size ≤ b.tag.size ∧ usedOf chain' = usedOf chain ∧
        Keeps h.memory h'.memory (usedOf chain) ∧ h.Continues h' ∧
        h'.counters.served = h.counters.served := by
  unfold supply
  refine .ask (laid.settled.holds.shows.findFit_eq laid.settled.bounded size) ?_
  cases first : nodes.find? (size ≤ ·.tag.size) with
  | some b =>
    refine .pure (.inr ⟨b, _, chain, nodes, rfl, .fit first, laid, List.mem_of_find?_eq_some first,
      ?_, rfl, .refl _, .refl h, rfl⟩)
    simpa using List.find?_some first
  | none =>
    apply view_ensures rfl
    refine ((extend_ensures laid.settled symbol (max size h.config.chunkSize)).overgrown
      fun bursts => ⟨first, bursts⟩).bind ?_
    rintro _ h₁ (⟨error, rfl, ⟨next, records, rfl⟩, refused⟩ |
      ⟨increment, r, rounded, granted, rfl, agrees, bytes, settled, keeps⟩)
    · exact count_ensures (.pure (.inl ⟨rfl, ⟨first, refused⟩, ⟨next, records, rfl⟩⟩))
    · have trail : Tiles (h.memory.size + increment) [] (h.memory.size + increment) := rfl
      have lead : Tiles 32 chain h.memory.size := laid.settled.tiles
      obtain ⟨below, above⟩ := merged_spans lead trail
      have enough := Block.le_of_roundUp rounded
      obtain ⟨next, records, rfl⟩ := id agrees
      refine .pure (.inr ⟨_, _, _, _, rfl, .growth first rounded granted bytes agrees,
        ⟨settled, laid.prologue, laid.initialized⟩, FreeList.mem_enter.mpr (.inl rfl), ?_, ?_,
        keeps,
        ?_, rfl⟩)
      · simp only [ChainBlock.stop] at above
        omega
      · rw [usedOf_mergedChain]
        exact List.append_nil _
      · have larger : r.memory.size = h.memory.size + increment := bytes
        refine ⟨rfl, rfl, rfl, rfl, ?_, ?_, ?_, ?_, fun _ => lt_of_eq_of_lt larger granted.2⟩
        · show h.counters.growBytes + increment + h.memory.size =
            h.counters.growBytes + r.memory.size
          omega
        · show h.counters.growCalls + 1 + h.arena.growCalls =
            h.counters.growCalls + (h.arena.growCalls + 1)
          omega
        · show h.arena.growCalls + 1 + h.memory.size ≤ h.arena.growCalls + r.memory.size
          omega
        · show h.memory.size ≤ r.memory.size
          omega

/-- How an allocation of `size` bytes changes a heap: `b` is the block it hands out, and `source`
the free block it is taken from. -/
structure Allocated (h : Heap LimitedArena) (chain nodes : List ChainBlock) (size : Nat)
    (b : ChainBlock) (h' : Heap LimitedArena) (chain' nodes' : List ChainBlock) : Prop where
  laid : h'.Laid chain' nodes'
  continues : h.Continues h'
  used : (usedOf chain').Perm (b :: usedOf chain)
  enough : size ≤ b.tag.size
  keeps : Keeps h.memory h'.memory (usedOf chain)
  counters : h'.counters.served = { h.counters.served with allocs := h.counters.allocs + 1 }
  served : ∃ source h₁ front behind nodes₁,
    Supplied h chain nodes size source h₁ (front ++ source :: behind) nodes₁ ∧
      h'.memory.size = h₁.memory.size ∧ b = taken h.config.placement source size ∧
      chain' = placedChain h.config.placement front source size behind ∧
      nodes' = placedNodes h.config.placement source size nodes₁

theorem Allocated.advances (allocated : Allocated h chain nodes size b h' chain' nodes') :
    h.Advances h' := by
  refine ⟨allocated.continues, ?_⟩
  intro bound within
  have moved := allocated.counters
  simp only [Counters.served, Counters.mk.injEq] at moved
  obtain ⟨allocs, frees, inPlace, absorbed, movedAway, -, -, failed, invalid⟩ := moved
  exact
    { allocs := allocs ▸ Nat.succ_le_succ within.allocs
      frees := frees ▸ within.succ.frees
      reallocsInPlace := inPlace ▸ within.succ.reallocsInPlace
      reallocsAbsorbedPrev := absorbed ▸ within.succ.reallocsAbsorbedPrev
      reallocsMoved := movedAway ▸ within.succ.reallocsMoved
      failedAllocs := failed ▸ within.succ.failedAllocs
      invalidPointers := invalid ▸ within.succ.invalidPointers }

/-- What an allocation of `request` bytes answers, and what it leaves. -/
inductive AllocateOutcome (h : Heap LimitedArena) (chain nodes : List ChainBlock) (request : Nat) :
    Option Nat → Heap LimitedArena → List ChainBlock → List ChainBlock → Prop
  /-- There is no block of no bytes. -/
  | nothing {h' : Heap LimitedArena} (empty : request = 0) (agrees : Agrees h h') :
    AllocateOutcome h chain nodes request none h' chain nodes
  /-- The request is too large for 64 bits, or there is no memory for it. -/
  | refused {h' : Heap LimitedArena} (some : request ≠ 0) (agrees : Agrees h.failed h')
    (lacks : ∀ size, Block.sizeFor request = .some size → h.Lacks nodes size) :
    AllocateOutcome h chain nodes request none h' chain nodes
  | served {size : Nat} {b : ChainBlock} {h' : Heap LimitedArena} {chain' nodes' : List ChainBlock}
    (some : request ≠ 0) (found : Block.sizeFor request = .some size)
    (allocated : Allocated h chain nodes size b h' chain' nodes') :
    AllocateOutcome h chain nodes request (.some b.bp) h' chain' nodes'

/-- An allocation of `request` bytes would make the arena burst. -/
def AllocateBursts (h : Heap LimitedArena) (nodes : List ChainBlock) (request : Nat) : Prop :=
  request ≠ 0 ∧ ∃ size, Block.sizeFor request = some size ∧ h.Bursts nodes size

/-- A request takes the arena past what an address space holds although its limit would allow for
that, since no free block is large enough. -/
def Overreaches (h : Heap LimitedArena) (nodes : List ChainBlock) (request : Nat) : Prop :=
  request ≠ 0 ∧ ∃ size increment, Block.sizeFor request = some size ∧
    (∀ c ∈ nodes, c.tag.size < size) ∧ h.config.growthFor size = some increment ∧
    h.memory.size + increment < wordLimit ∧ h.memory.size + increment ≤ h.arena.limit ∧
    capacityLimit ≤ h.memory.size + increment

theorem AllocateBursts.overreaches (bursts : h.AllocateBursts nodes request) :
    h.Overreaches nodes request := by
  obtain ⟨some, size, found, none, increment, rounded, allowed, huge⟩ := bursts
  simp only [LimitedArena.Refuses, not_or, Nat.not_le, Nat.not_lt] at allowed
  exact ⟨some, size, increment, found, find?_eq_none_iff_smaller.mp none, rounded, allowed.1,
    allowed.2, huge⟩

theorem Overreaches.le_limit (overreaches : h.Overreaches nodes request) :
    capacityLimit ≤ h.arena.limit := by
  obtain ⟨-, _, _, -, -, -, -, allowed, huge⟩ := overreaches
  exact huge.trans allowed

/-- An allocation hands out a block that is large enough, or changes nothing but a counter: for a
request of no bytes not even that. -/
theorem allocateAs_ensures (laid : h.Laid chain nodes) (symbol : String) (request : Nat) :
    (allocateAs symbol request).Ensures h
      (Overgrown (h.AllocateBursts nodes request)) fun answer h' =>
      ∃ chain' nodes', AllocateOutcome h chain nodes request answer h' chain' nodes' := by
  unfold allocateAs
  apply ready_ensures laid
  have serves : ¬ (!true) = true := by decide
  rw [if_neg serves]
  by_cases nothing : request = 0
  · rw [if_pos nothing]
    exact record_ensures fun h' agrees => .pure ⟨chain, nodes, .nothing nothing agrees⟩
  rw [if_neg nothing]
  apply (sized_ensures h symbol request).bind
  rintro _ h₁ (⟨size, rfl, found, rfl⟩ | ⟨rfl, found, agrees⟩)
  swap
  · refine .pure ⟨chain, nodes, .refused nothing agrees fun _ known => ?_⟩
    cases found.symm.trans known
  obtain ⟨legal, -⟩ := Block.sizeFor_eq_some found
  refine ((supply_ensures laid symbol size).overgrown fun bursts =>
    ⟨nothing, size, found, bursts⟩).bind ?_
  rintro _ h₂ (⟨rfl, lacks, agrees⟩ |
    ⟨source, outcome, chain₁, nodes₁, rfl, supplied, laid₁, listed, fits, sameUsed, keeps,
      continues, counters⟩)
  · refine .pure ⟨chain, nodes, .refused nothing agrees fun _ known => ?_⟩
    cases found.symm.trans known
    exact lacks
  obtain ⟨member, free⟩ := laid₁.settled.mem_nodes.mp listed
  obtain ⟨front, behind, rfl⟩ := List.append_of_mem member
  apply view_ensures (congrArg HeapConfig.placement continues.config)
  apply edit_ensures (Region.place_ensures laid₁.settled free legal fits)
  rintro _ r ⟨rfl, settled, changed⟩
  have inUse : usedOf front ++ usedOf behind = usedOf chain := by
    rw [← sameUsed, usedOf_append, usedOf_cons_of_free free]
  have others : usedOf chain ⊆
      usedOf (placedChain h₁.config.placement front source size behind) := by
    rw [usedOf_placedChain, ← inUse]
    exact around_sublist.subset
  refine count_ensures (record_ensures fun h' edited => .pure ?_)
  replace edited : h₂.Edited r (fun c => { c with allocs := c.allocs + 1 }) h' := edited
  have memory : h'.memory = r.memory := edited.memory
  refine ⟨placedChain h₁.config.placement front source size behind,
    placedNodes h₁.config.placement source size nodes₁, .served nothing found ?_⟩
  exact
    { laid := edited.laid laid₁ settled
      continues := continues.trans (edited.continues changed.size rfl rfl)
      used := by
        rw [usedOf_placedChain, ← inUse]
        exact List.perm_middle
      enough := le_taken fits
      keeps := keeps.trans (memory ▸ (settled.keeps changed).subset others)
      counters := by
        have moved : h'.counters.served =
            { h₂.counters.served with allocs := h₂.counters.served.allocs + 1 } :=
          congrArg Counters.served edited.counters
        rw [moved, counters]
        rfl
      served := ⟨source, h₂, front, behind, nodes₁, supplied, memory ▸ changed.size, rfl, rfl,
        rfl⟩ }

end Heap

end BoundaryHeap
