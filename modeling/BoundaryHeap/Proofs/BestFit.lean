import BoundaryHeap.Proofs.Runs
import BoundaryHeap.Proofs.Stats
import Mathlib.Order.MinMax

/-!
Which free block an allocation is taken from. The row of free blocks ascends by size, so the first
that is large enough is a smallest one, and the row as a whole tells whether there is any. What an
allocation answers then follows from the sizes of the free blocks and the room left in the arena,
and so does the chain it leaves.
-/

namespace BoundaryHeap

/-- Of the free blocks, as the list has them, `b` is a smallest one that holds `size` bytes, and the
first of its size. -/
structure BestFit (nodes : List ChainBlock) (size : Nat) (b : ChainBlock) : Prop where
  enough : size ≤ b.tag.size
  smallest : ∀ c ∈ nodes, size ≤ c.tag.size → b.tag.size ≤ c.tag.size
  first : ∃ before after, nodes = before ++ b :: after ∧ ∀ c ∈ before, c.tag.size ≠ b.tag.size

/-- The free block that an allocation of `size` bytes is taken from, between the blocks `front` and
`behind`: a best fit of the chain, or the end of a memory that has grown from `bytes` by
`increment`. -/
inductive Source (config : HeapConfig) (bytes : Nat) (chain nodes : List ChainBlock) (size : Nat) :
    List ChainBlock → ChainBlock → List ChainBlock → Nat → Prop
  | fit {front behind : List ChainBlock} {b : ChainBlock} (split : chain = front ++ b :: behind)
    (best : BestFit nodes size b) : Source config bytes chain nodes size front b behind 0
  | growth {increment : Nat} (none : ∀ c ∈ nodes, c.tag.size < size)
    (rounded : config.growthFor size = some increment) :
    Source config bytes chain nodes size (cutEnd chain)
      (merged chain bytes (bytes + increment) []) [] increment

/-! ## The search of the row -/

section Search

variable {nodes : List ChainBlock} {size : Nat} {b : ChainBlock}

/-- In a row that ascends by size, the first block that is large enough is a best fit. -/
theorem BestFit.of_find? (sorted : nodes.Pairwise fun a c => a.tag.size ≤ c.tag.size)
    (found : nodes.find? (size ≤ ·.tag.size) = some b) : BestFit nodes size b := by
  obtain ⟨enough, before, after, rfl, earlier⟩ := List.find?_eq_some_iff_append.mp found
  replace enough : size ≤ b.tag.size := of_decide_eq_true enough
  have small : ∀ c ∈ before, c.tag.size < size := fun c member => by
    simpa using earlier c member
  have larger := (List.pairwise_cons.mp (List.pairwise_append.mp sorted).2.1).1
  refine ⟨enough, fun c member fits => ?_, before, after, rfl, fun c member => ?_⟩
  · rcases List.mem_append.mp member with early | late
    · have := small c early
      omega
    · rcases List.mem_cons.mp late with rfl | late
      · exact Nat.le_refl _
      · exact larger c late
  · have := small c member
    omega

/-- A best fit is what the search finds: no block before it is large enough, since that would be one
of its size. -/
theorem BestFit.find?_eq (best : BestFit nodes size b)
    (sorted : nodes.Pairwise fun a c => a.tag.size ≤ c.tag.size) :
    nodes.find? (size ≤ ·.tag.size) = some b := by
  obtain ⟨before, after, rfl, earlier⟩ := best.first
  refine List.find?_eq_some_iff_append.mpr ⟨decide_eq_true best.enough, before, after, rfl, ?_⟩
  intro c member
  have smaller := (List.pairwise_append.mp sorted).2.2 c member b List.mem_cons_self
  have different := earlier c member
  have least := best.smallest c (List.mem_append_left _ member)
  have small : c.tag.size < size := by
    by_contra fits
    exact different (Nat.le_antisymm smaller (least (Nat.le_of_not_lt fits)))
  simpa using small

/-- A bound of the largest of some numbers is met by one of them. -/
theorem le_foldl_max {bound start : Nat} {numbers : List Nat} :
    bound ≤ numbers.foldl max start ↔ bound ≤ start ∨ ∃ number ∈ numbers, bound ≤ number := by
  induction numbers generalizing start with
  | nil => simp
  | cons number rest ih =>
    rw [List.foldl_cons, ih, le_max_iff, or_assoc]
    simp

end Search

namespace Heap

variable {arena : LimitedArena} {config : HeapConfig} {n : Nat} {h h' h₁ : Heap LimitedArena}
  {ledger : Ledger} {chain nodes front behind chain' nodes' : List ChainBlock}
  {b source : ChainBlock} {request size : Nat}

/-- The largest free block of the totals tells whether any is large enough. -/
theorem Laid.le_largestFreeBlock_iff (laid : h.Laid chain nodes) (some : 0 < size) :
    size ≤ (HeapStats.ofBlocks h.memory.size h.freeList.length chain).largestFreeBlock ↔
      ∃ c ∈ nodes, size ≤ c.tag.size := by
  simp only [HeapStats.ofBlocks, le_foldl_max, Nat.le_zero, Nat.ne_of_gt some, false_or,
    List.mem_map, List.mem_filter, exists_exists_and_eq_and, laid.settled.mem_nodes,
    ChainBlock.isFree]

/-! ## What an allocation comes to -/

/-- A request is refused: it asks for nothing, or for a block that 64 bits do not hold, or no free
block is large enough and the arena has no room for a larger one. -/
def Denies (h : Heap LimitedArena) (nodes : List ChainBlock) (request : Nat) : Prop :=
  request = 0 ∨ Block.sizeFor request = none ∨
    ∃ size, Block.sizeFor request = some size ∧ (∀ c ∈ nodes, c.tag.size < size) ∧
      ∀ increment, h.config.growthFor size = some increment →
        wordLimit ≤ h.memory.size + increment ∨ h.arena.limit < h.memory.size + increment

/-- An allocation of `size` bytes has taken the block at `ptr` out of the free block `source`, at
the end that the placement says, and has left the rest free if that makes a block. -/
structure Carved (h h' : Heap LimitedArena) (chain nodes : List ChainBlock) (size ptr : Nat)
    (front : List ChainBlock) (source : ChainBlock) (behind : List ChainBlock)
    (increment : Nat) : Prop where
  origin : Source h.config h.memory.size chain nodes size front source behind increment
  bytes : h'.memory.size = h.memory.size + increment
  place : ptr = (taken h.config.placement source size).bp
  aligned : ptr % 16 = 0
  whole : (taken h.config.placement source size).tag.size = size ∨
    (taken h.config.placement source size).tag.size = size + 16
  layout : ∃ nodes', h'.memory.WellFormed 16 h'.freeList
    (placedChain h.config.placement front source size behind) nodes'

theorem denies_of_lacks
    (lacks : ∀ size, Block.sizeFor request = .some size → h.Lacks nodes size) :
    h.Denies nodes request := by
  cases found : Block.sizeFor request with
  | none => exact .inr (.inl found)
  | some size =>
    obtain ⟨none, refused⟩ := lacks size found
    exact .inr (.inr ⟨size, found, find?_eq_none_iff_smaller.mp none, refused⟩)

/-- A request that is denied for lack of memory. -/
theorem Denies.lacks (denies : h.Denies nodes request) (some : request ≠ 0)
    (found : Block.sizeFor request = .some size) :
    (∀ c ∈ nodes, c.tag.size < size) ∧
      ∀ increment, h.config.growthFor size = .some increment →
        wordLimit ≤ h.memory.size + increment ∨ h.arena.limit < h.memory.size + increment := by
  rcases denies with nothing | huge | ⟨_, known, lacks⟩
  · exact absurd nothing some
  · cases found.symm.trans huge
  · cases found.symm.trans known
    exact lacks

theorem Overreaches.grows (overreaches : h.Overreaches nodes request)
    (found : Block.sizeFor request = some size) :
    (∀ c ∈ nodes, c.tag.size < size) ∧ ∃ increment, h.config.growthFor size = some increment ∧
      h.memory.size + increment < wordLimit ∧ h.memory.size + increment ≤ h.arena.limit ∧
      capacityLimit ≤ h.memory.size + increment := by
  obtain ⟨-, _, increment, known, smaller, grows⟩ := overreaches
  cases found.symm.trans known
  exact ⟨smaller, increment, grows⟩

/-- What is denied does not overreach. -/
theorem Denies.not_overreaches (denies : h.Denies nodes request) :
    ¬ h.Overreaches nodes request := by
  rintro ⟨some, size, increment, found, -, rounded, bounded, allowed, -⟩
  obtain ⟨-, refused⟩ := denies.lacks some found
  rcases refused increment rounded with exceeds | exceeds <;> omega

/-- A request for which there is a free block, or room for one, is neither denied nor does it
overreach. -/
theorem Supplied.granted (supplied : Supplied h chain nodes size source h₁ chain' nodes')
    (some : request ≠ 0) (found : Block.sizeFor request = .some size) :
    ¬ h.Denies nodes request ∧ ¬ h.Overreaches nodes request := by
  cases supplied with
  | fit first =>
    have fits : ¬ ∀ c ∈ nodes, c.tag.size < size := fun smaller => by
      cases first.symm.trans (find?_eq_none_iff_smaller.mpr smaller)
    exact ⟨fun denies => fits (denies.lacks some found).1,
      fun overreaches => fits (overreaches.grows found).1⟩
  | @growth increment r _ none rounded granted bytes agrees =>
    obtain ⟨allowed, capped⟩ := granted
    have bounded : capacityLimit < wordLimit := by decide
    have same : h.arena.memory.size = h.memory.size := rfl
    constructor
    · intro denies
      rcases (denies.lacks some found).2 increment rounded with exceeds | exceeds <;> omega
    · intro overreaches
      obtain ⟨-, _, again, -, -, huge⟩ := overreaches.grows found
      cases rounded.symm.trans again
      omega

/-- The end of a memory that has grown is no block of the chain. -/
theorem Laid.merged_notMem (laid : h.Laid chain nodes) {increment : Nat} (some : 0 < increment) :
    merged chain h.memory.size (h.memory.size + increment) [] ∉ chain := by
  intro member
  have lead : Tiles 32 chain h.memory.size := laid.settled.tiles
  have trail : Tiles (h.memory.size + increment) [] (h.memory.size + increment) := rfl
  obtain ⟨-, above⟩ := merged_spans lead trail
  have within : _ ≤ h.memory.size := (lead.within member).2
  omega

/-- An allocation that is served takes its block from a best fit, or from the end of the memory. -/
theorem Allocated.origin (laid : h.Laid chain nodes)
    (allocated : Allocated h chain nodes size b h' chain' nodes') :
    ∃ front source behind increment,
      Source h.config h.memory.size chain nodes size front source behind increment ∧
      h'.memory.size = h.memory.size + increment ∧ b = taken h.config.placement source size ∧
      chain' = placedChain h.config.placement front source size behind := by
  obtain ⟨source, h₁, front, behind, nodes₁, supplied, bytes, rfl, rfl, rfl⟩ := allocated.served
  generalize split : front ++ source :: behind = chain₁ at supplied
  cases supplied with
  | fit first =>
    have best := BestFit.of_find? laid.settled.holds.shows.sorted first
    exact ⟨front, source, behind, 0, .fit split.symm best, bytes, rfl, rfl⟩
  | @growth increment r _ none rounded granted size₁ agrees =>
    obtain ⟨_, _, rfl⟩ := agrees
    have large := Block.le_of_roundUp rounded
    have fresh : merged chain h.memory.size (h.memory.size + increment) [] ∉ cutEnd chain :=
      fun member => laid.merged_notMem (by omega) (cutEnd_subset member)
    obtain ⟨rfl, -, rfl⟩ := (List.append_cons_inj_of_notMem fresh List.not_mem_nil).mp split.symm
    exact ⟨_, _, [], increment, .growth (find?_eq_none_iff_smaller.mp none) rounded,
      bytes.trans size₁, rfl, rfl⟩

theorem Allocated.carved (laid : h.Laid chain nodes) (legal : Block.LegalSize size)
    (allocated : Allocated h chain nodes size b h' chain' nodes') :
    ∃ front source behind increment,
      h.Carved h' chain nodes size b.bp front source behind increment := by
  have made := allocated.laid.settled.holds.legal b allocated.isUsed.1
  have whole := legal.eq_or_eq_add made.size allocated.enough allocated.close
  have layout := allocated.laid.settled.wellFormed
  obtain ⟨front, source, behind, increment, origin, bytes, rfl, rfl⟩ := allocated.origin laid
  exact ⟨front, source, behind, increment, origin, bytes, rfl, made.aligned, whole, _, layout⟩

/-- There is one free block that an allocation can be taken from. -/
theorem Laid.source_unique (laid : h.Laid chain nodes) {front' behind' : List ChainBlock}
    {source' : ChainBlock} {bytes increment increment' : Nat}
    (one : Source config bytes chain nodes size front source behind increment)
    (other : Source config bytes chain nodes size front' source' behind' increment') :
    front = front' ∧ source = source' ∧ behind = behind' ∧ increment = increment' := by
  have sorted := laid.settled.holds.shows.sorted
  cases one with
  | fit split best =>
    have found := best.find?_eq sorted
    cases other with
    | fit split' best' =>
      obtain rfl := Option.some.inj (found.symm.trans (best'.find?_eq sorted))
      have once : source ∉ front ++ behind :=
        (List.nodup_cons.mp (List.nodup_middle.mp (split ▸ laid.settled.nodup))).1
      simp only [List.mem_append, not_or] at once
      obtain ⟨rfl, -, rfl⟩ :=
        (List.append_cons_inj_of_notMem once.1 once.2).mp (split.symm.trans split')
      exact ⟨rfl, rfl, rfl, rfl⟩
    | growth none rounded =>
      cases found.symm.trans (find?_eq_none_iff_smaller.mpr none)
  | growth none rounded =>
    cases other with
    | fit split' best' =>
      cases (best'.find?_eq sorted).symm.trans (find?_eq_none_iff_smaller.mpr none)
    | growth _ rounded' =>
      obtain rfl := Option.some.inj (rounded.symm.trans rounded')
      exact ⟨rfl, rfl, rfl, rfl⟩

/-- An allocation is denied, overreaches, or is carved out of a free block. -/
theorem Laid.allocate_cases (laid : h.Laid chain nodes) (request : Nat) :
    (h.Denies nodes request ∧ ∃ h', (allocate request).run h = .ok none h') ∨
      (h.Overreaches nodes request ∧ ∃ h', (allocate request).run h = .error .capacity h') ∨
      (¬ h.Denies nodes request ∧ ¬ h.Overreaches nodes request ∧
        ∃ ptr h', (allocate request).run h = .ok (some ptr) h' ∧
          ∃ size front source behind increment, Block.sizeFor request = some size ∧
            h.Carved h' chain nodes size ptr front source behind increment) := by
  have ensured := allocate_ensures laid request
  rw [Action.Ensures] at ensured
  cases ran : (allocate request).run h with
  | error fault h' =>
    rw [ran] at ensured
    obtain ⟨rfl, bursts⟩ := ensured
    exact .inr (.inl ⟨bursts.overreaches, h', rfl⟩)
  | ok answer h' =>
    rw [ran] at ensured
    obtain ⟨_, _, outcome⟩ := ensured
    cases outcome with
    | nothing empty agrees => exact .inl ⟨.inl empty, h', rfl⟩
    | refused some agrees lacks => exact .inl ⟨denies_of_lacks lacks, h', rfl⟩
    | served some found allocated =>
      obtain ⟨legal, -⟩ := Block.sizeFor_eq_some found
      obtain ⟨_, _, _, _, _, supplied, -⟩ := allocated.served
      obtain ⟨granted, within⟩ := supplied.granted some found
      obtain ⟨front, source, behind, increment, carved⟩ := allocated.carved laid legal
      exact .inr (.inr ⟨granted, within, _, h', rfl, _, front, source, behind, increment, found,
        carved⟩)

theorem Laid.allocate_eq_none_iff (laid : h.Laid chain nodes) :
    (∃ h', (allocate request).run h = .ok none h') ↔ h.Denies nodes request := by
  rcases laid.allocate_cases request with ⟨denies, h₁, ran⟩ | ⟨overreaches, h₁, ran⟩ |
    ⟨granted, -, ptr, h₁, ran, -⟩
  · exact iff_of_true ⟨h₁, ran⟩ denies
  · exact iff_of_false (by simp [ran]) fun denies => denies.not_overreaches overreaches
  · exact iff_of_false (by simp [ran]) granted

theorem Laid.allocate_eq_error_iff (laid : h.Laid chain nodes) {fault : Fault} :
    (∃ h', (allocate request).run h = .error fault h') ↔
      fault = .capacity ∧ h.Overreaches nodes request := by
  rcases laid.allocate_cases request with ⟨denies, h₁, ran⟩ | ⟨overreaches, h₁, ran⟩ |
    ⟨-, within, ptr, h₁, ran, -⟩
  · exact iff_of_false (by simp [ran]) fun ⟨_, overreaches⟩ => denies.not_overreaches overreaches
  · simp [ran, overreaches, eq_comm]
  · exact iff_of_false (by simp [ran]) fun ⟨_, overreaches⟩ => within overreaches

theorem Laid.carved_of_allocate {ptr : Nat} (laid : h.Laid chain nodes)
    (ran : (allocate request).run h = .ok (some ptr) h') :
    ∃ size front source behind increment, Block.sizeFor request = some size ∧
      h.Carved h' chain nodes size ptr front source behind increment := by
  rcases laid.allocate_cases request with ⟨-, h₁, denied⟩ | ⟨-, h₁, failed⟩ |
    ⟨-, -, _, h₁, served, carved⟩
  · cases ran.symm.trans denied
  · cases ran.symm.trans failed
  · cases ran.symm.trans served
    exact carved

/-- There is one way to serve a request, so an allocation within another request takes the block
that `allocate` would. -/
theorem Laid.allocate_of_allocated (laid : h.Laid chain nodes) (some : request ≠ 0)
    (found : Block.sizeFor request = .some size)
    (allocated : Allocated h chain nodes size b h' chain' nodes') :
    ∃ h₁ front source behind increment, (allocate request).run h = .ok (.some b.bp) h₁ ∧
      h.Carved h₁ chain nodes size b.bp front source behind increment ∧
      chain' = placedChain h.config.placement front source size behind ∧
      h'.memory.size = h₁.memory.size := by
  obtain ⟨_, _, _, _, _, supplied, -⟩ := allocated.served
  obtain ⟨granted, within⟩ := supplied.granted some found
  obtain ⟨front, source, behind, increment, origin, bytes, rfl, split⟩ := allocated.origin laid
  rcases laid.allocate_cases request with ⟨denies, -⟩ | ⟨overreaches, -⟩ |
    ⟨-, -, place, h₁, ran, _, front₁, source₁, behind₁, increment₁, known, carved⟩
  · exact absurd denies granted
  · exact absurd overreaches within
  · cases found.symm.trans known
    obtain ⟨rfl, rfl, rfl, rfl⟩ := laid.source_unique carved.origin origin
    cases carved.place
    exact ⟨h₁, front₁, source₁, behind₁, increment₁, ran, carved, split,
      bytes.trans carved.bytes.symm⟩

/-- The sizes of the free blocks and the room left in the arena decide what an allocation answers.
One that is served is carved out of a best fit, and out of the end of a longer memory only if there
is none. -/
theorem Reaches.allocates (reached : Reaches arena config n h ledger) :
    h.config = config ∧ h.arena.limit = arena.limit ∧
    ∃ chain nodes totals, h.memory.WellFormed 16 h.freeList chain nodes ∧ h.stats = .ok totals ∧
      ∀ request,
        (∀ size, Block.sizeFor request = some size →
          ((∃ c ∈ nodes, size ≤ c.tag.size) ↔ size ≤ totals.largestFreeBlock)) ∧
        ((∃ h', (allocate request).run h = .ok none h') ↔ h.Denies nodes request) ∧
        (∀ fault, (∃ h', (allocate request).run h = .error fault h') ↔
          fault = .capacity ∧ h.Overreaches nodes request) ∧
        ∀ ptr h', (allocate request).run h = .ok (some ptr) h' →
          ∃ size front source behind increment, Block.sizeFor request = some size ∧
            h.Carved h' chain nodes size ptr front source behind increment := by
  obtain ⟨chain, nodes, sound⟩ := reached.sound
  have laid := sound.backs.laid
  refine ⟨reached.config_eq, sound.limit, chain, nodes, _, laid.settled.wellFormed, laid.stats_eq,
    fun request => ⟨fun size found => ?_, laid.allocate_eq_none_iff,
      fun fault => laid.allocate_eq_error_iff, fun ptr h' ran => laid.carved_of_allocate ran⟩⟩
  have large : 32 ≤ size := (Block.sizeFor_eq_some found).1.2
  exact (laid.le_largestFreeBlock_iff (by omega)).symm

/-- A heap over an arena that may take all of 64 bits serves a small request out of its only free
block, and meets a fault at one for half of them. -/
theorem Reaches.allocates_huge :
    ∃ h, Reaches (.withLimit (wordLimit - 1))
        { HeapConfig.standard with chunkSize := 96, placement := .back } 0 h .empty ∧
      (∃ h', (allocate 0).run h = .ok none h') ∧
      (∃ h', (allocate (wordLimit / 2)).run h = .error .capacity h') ∧
      ∃ h', (allocate 24).run h = .ok (some 80) h' ∧
        ∃ size front source behind increment chain nodes, Block.sizeFor 24 = some size ∧
          h.Carved h' chain nodes size 80 front source behind increment := by
  have ran : ((do
      let laidOut ← init
      let bytes ← view (·.memory.size)
      let totals ← Action.ask stats
      let ptr ← allocate 24
      return (laidOut.isOk, bytes, totals.largestFreeBlock, ptr) :
        Action (Heap LimitedArena) (Bool × Nat × Nat × Option Nat)).result
        (new (.withLimit (wordLimit - 1))
          { HeapConfig.standard with chunkSize := 96, placement := .back })).map (·.1) =
      .ok (true, 128, 96, some 80) := by decide +kernel
  obtain ⟨_, ran⟩ := Action.exists_run_of_result ran
  obtain ⟨laidOut, h, first, ran⟩ := Action.run_bind_eq_ok.mp ran
  obtain ⟨bytes, _, asked, ran⟩ := Action.run_bind_eq_ok.mp ran
  obtain ⟨measured, rfl⟩ := Action.run_ask_eq_ok.mp asked
  obtain ⟨found, _, asked, ran⟩ := Action.run_bind_eq_ok.mp ran
  obtain ⟨totalled, rfl⟩ := Action.run_ask_eq_ok.mp asked
  obtain ⟨ptr, h', served, ran⟩ := Action.run_bind_eq_ok.mp ran
  simp only [pure, EStateM.pure, EStateM.run, EStateM.Result.ok.injEq, Prod.mk.injEq] at ran
  obtain ⟨⟨laid, rfl, largest, rfl⟩, rfl⟩ := ran
  cases laidOut <;> cases laid
  have reached := Reaches.start first
  obtain ⟨config, limit, chain, nodes, totals, -, known, allocates⟩ := reached.allocates
  obtain rfl := Except.ok.inj (totalled.symm.trans known)
  have size : Block.sizeFor (wordLimit / 2) = some (wordLimit / 2 + 16) := by decide
  obtain ⟨search, -, faults, -⟩ := allocates (wordLimit / 2)
  have smaller : ∀ c ∈ nodes, c.tag.size < wordLimit / 2 + 16 := by
    intro c member
    by_contra fits
    have := (search _ size).mp ⟨c, member, Nat.le_of_not_lt fits⟩
    have : 96 < wordLimit / 2 := by decide
    omega
  have bytes : h.memory.size = 128 := Except.ok.inj measured
  have increment : h.config.growthFor (wordLimit / 2 + 16) = some (wordLimit / 2 + 16) := by
    rw [config]
    decide
  have overreaches : h.Overreaches nodes (wordLimit / 2) := by
    refine ⟨by decide, _, _, size, smaller, increment, ?_, ?_, ?_⟩
    · rw [bytes]
      decide
    · rw [bytes, limit]
      decide
    · rw [bytes]
      decide
  obtain ⟨-, denies, -, -⟩ := allocates 0
  obtain ⟨-, -, -, carves⟩ := allocates 24
  obtain ⟨size, front, source, behind, increment, found, carved⟩ := carves 80 h' served
  exact ⟨h, reached, denies.mpr (.inl rfl), (faults .capacity).mpr ⟨rfl, overreaches⟩, h', served,
    size, front, source, behind, increment, chain, nodes, found, carved⟩

end Heap

end BoundaryHeap
