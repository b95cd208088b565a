import BoundaryHeap.Proofs.BestFit
import BoundaryHeap.Proofs.History
import Mathlib.Algebra.BigOperators.Group.List.Basic
import Mathlib.Data.Finset.Card

/-!
The totals that a heap reports, counted in three ways. The allocated blocks and the free ones split
the chain, so their bytes and those of the two sentinels make up the memory. The free ones are the
row that the list runs through, and since the row ascends by size its last block is a largest one.
The allocated ones are as many as the live pointers of the client.
-/

namespace BoundaryHeap

variable {xs ys chain nodes : List ChainBlock} {first stop : Nat}

/-- The bytes of some blocks, tags included. -/
def bytesOf (blocks : List ChainBlock) : Nat := (blocks.map (·.tag.size)).sum

/-- The size of the last of some blocks, zero if there is none. -/
def lastSize (blocks : List ChainBlock) : Nat := (blocks.getLast?.map (·.tag.size)).getD 0

theorem bytesOf_append : bytesOf (xs ++ ys) = bytesOf xs + bytesOf ys := by
  simp [bytesOf]

theorem bytesOf_perm (same : xs.Perm ys) : bytesOf xs = bytesOf ys := (same.map _).sum_eq

/-- The allocated blocks and the free ones are all blocks there are. -/
theorem usedOf_append_free_perm : (usedOf chain ++ chain.filter ChainBlock.isFree).Perm chain :=
  List.filter_append_perm ..

/-- Blocks without a gap between them have the bytes from the first to the end of the last. -/
theorem Tiles.bytesOf_eq (tiles : Tiles first chain stop) : first + bytesOf chain = stop := by
  induction chain generalizing first with
  | nil => exact tiles
  | cons b rest ih =>
    obtain ⟨rfl, tiles⟩ := tiles
    have later := ih tiles
    simp only [bytesOf, ChainBlock.stop, List.map_cons, List.sum_cons] at later ⊢
    omega

/-- The largest of some numbers that ascend is the last of them. -/
theorem foldl_max_eq_getLast? {numbers : List Nat} (sorted : numbers.Pairwise (· ≤ ·)) :
    numbers.foldl max 0 = numbers.getLast?.getD 0 := by
  cases List.eq_nil_or_concat numbers with
  | inl same =>
    subst same
    rfl
  | inr found =>
    obtain ⟨front, last, rfl⟩ := found
    rw [List.concat_eq_append] at sorted ⊢
    have below : front.foldl max 0 ≤ last := by
      by_contra above
      rcases le_foldl_max.mp (Nat.lt_of_not_le above) with none | ⟨number, member, larger⟩
      · omega
      · have := (List.pairwise_append.mp sorted).2.2 number member last List.mem_cons_self
        omega
    simp [List.foldl_append, below]

namespace HeapStats

/-- The totals of a chain and of the row of its free blocks. -/
structure Tallies (s : HeapStats) (chain nodes : List ChainBlock) : Prop where
  blocks : s.totalBlocks = chain.length
  split : s.totalBlocks = s.allocatedBlocks + s.freeBlocks
  allocated : s.allocatedBlocks = (usedOf chain).length
  bytes : s.allocatedBytes + s.freeBytes = bytesOf chain
  free : s.freeBlocks = nodes.length
  freeBytes : s.freeBytes = bytesOf nodes
  largest : s.largestFreeBlock = lastSize nodes

theorem ofBlocks_tallies (arenaBytes freeListLength : Nat)
    (listed : nodes.Perm (chain.filter ChainBlock.isFree))
    (sorted : nodes.Pairwise fun a b => a.tag.size ≤ b.tag.size) :
    (ofBlocks arenaBytes freeListLength chain).Tallies chain nodes := by
  have whole : (usedOf chain ++ chain.filter ChainBlock.isFree).Perm chain :=
    usedOf_append_free_perm
  have sizes : (nodes.map (·.tag.size)).Perm ((chain.filter ChainBlock.isFree).map (·.tag.size)) :=
    listed.map _
  have ascends : (nodes.map (·.tag.size)).Pairwise (· ≤ ·) := List.pairwise_map.mpr sorted
  constructor
  · rfl
  · exact whole.length_eq.symm.trans List.length_append
  · rfl
  · rw [← bytesOf_perm whole, bytesOf_append]
    simp only [ofBlocks, ← List.sum_eq_foldl]
    rfl
  · exact listed.length_eq.symm
  · rw [bytesOf_perm listed]
    exact List.sum_eq_foldl.symm
  · rw [lastSize, ← List.getLast?_map, ← foldl_max_eq_getLast? ascends]
    exact sizes.symm.foldl_eq 0

end HeapStats

namespace Heap

variable {arena : LimitedArena} {config : HeapConfig} {n : Nat} {h : Heap LimitedArena}
  {ledger : Ledger}

/-- There are as many allocated blocks as live pointers. -/
theorem Backs.count_live (backs : h.Backs ledger chain nodes) :
    ∃ live : Finset Nat, (∀ ptr, ptr ∈ live ↔ (ledger ptr).isSome) ∧
      (usedOf chain).length = live.card := by
  have different : ((usedOf chain).map (·.bp)).Nodup :=
    backs.laid.settled.different.sublist (List.filter_sublist.map _)
  refine ⟨((usedOf chain).map (·.bp)).toFinset, fun ptr => ?_, ?_⟩
  · rw [backs.isSome_iff, List.mem_toFinset, List.mem_map]
    simp only [mem_usedOf, ChainBlock.isFree_eq_false, and_assoc]
  · rw [List.toFinset_card_of_nodup different, List.length_map]

/-- In every heap that a client can reach the totals are those of the chain of blocks, of the row
that the free list runs through, of the memory and of the live pointers. -/
theorem Reaches.conserves (reached : Reaches arena config n h ledger) :
    ∃ totals chain nodes, h.stats = .ok totals ∧
      h.memory.WellFormed 16 h.freeList chain nodes ∧
      totals.totalBlocks = totals.allocatedBlocks + totals.freeBlocks ∧
      totals.totalBlocks = chain.length ∧
      (∃ live : Finset Nat, (∀ ptr, ptr ∈ live ↔ (ledger ptr).isSome) ∧
        totals.allocatedBlocks = live.card) ∧
      totals.arenaBytes = h.memory.size ∧
      totals.allocatedBytes + totals.freeBytes + 32 = totals.arenaBytes ∧
      h.freeList.walk h.memory = .ok (nodes.map (·.bp)) ∧
      totals.freeBlocks = totals.freeListLength ∧
      totals.freeListLength = h.freeList.length ∧
      totals.freeBlocks = nodes.length ∧
      totals.freeBytes = bytesOf nodes ∧
      totals.largestFreeBlock = lastSize nodes := by
  obtain ⟨chain, nodes, sound⟩ := reached.sound
  have settled := sound.backs.laid.settled
  have shows := settled.holds.shows
  have tallies := HeapStats.ofBlocks_tallies h.memory.size h.freeList.length settled.listed
    shows.sorted
  have memory := settled.tiles.bytesOf_eq
  have bytes := tallies.bytes
  refine ⟨_, chain, nodes, sound.backs.laid.stats_eq, settled.wellFormed, tallies.split,
    tallies.blocks, ?_, rfl, ?_, shows.walk_eq settled.bounded, ?_, rfl, tallies.free,
    tallies.freeBytes, tallies.largest⟩
  · obtain ⟨live, exactly, counted⟩ := sound.backs.count_live
    exact ⟨live, exactly, tallies.allocated.trans counted⟩
  · change _ = h.memory.size
    change 32 + bytesOf chain = h.memory.size at memory
    omega
  · exact tallies.free.trans shows.length.symm

/-- A client that has released the first of two blocks. -/
theorem Reaches.conserves_hole :
    ∃ h ledger totals chain nodes, Reaches (.withLimit 4096)
        { HeapConfig.standard with chunkSize := 128, placement := .front } 3 h ledger ∧
      h.stats = .ok totals ∧ h.memory.WellFormed 16 h.freeList chain nodes ∧
      chain.length = 3 ∧ nodes.length = 2 ∧ bytesOf nodes = 96 ∧ lastSize nodes = 64 := by
  have ran : ((do
      let laidOut ← init
      let answers ← Heap.run [.allocate 16, .allocate 16, .release 32]
      let totals ← Action.ask stats
      return (laidOut, answers, totals) :
        Action (Heap LimitedArena) (Except HeapError Unit × List Answer × HeapStats)).result
        (new (.withLimit 4096)
          { HeapConfig.standard with chunkSize := 128, placement := .front })).map (·.1) =
      .ok (.ok (), [.block (some 32), .block (some 64), .released],
        ⟨160, 3, 1, 32, 2, 96, 64, 2⟩) := by decide +kernel
  obtain ⟨h, ran⟩ := Action.exists_run_of_result ran
  obtain ⟨laidOut, h₀, first, ran⟩ := Action.run_bind_eq_ok.mp ran
  obtain ⟨answers, h₁, second, ran⟩ := Action.run_bind_eq_ok.mp ran
  obtain ⟨totals, h₂, asked, ran⟩ := Action.run_bind_eq_ok.mp ran
  obtain ⟨told, rfl⟩ := Action.run_ask_eq_ok.mp asked
  cases ran
  have reached := ((Serves.start first).run second
    ⟨fun _ => trivial, fun _ => trivial, fun _ => .inr rfl, trivial⟩).reaches
  obtain ⟨totals, chain, nodes, known, layout, -, blocks, -, -, -, -, -, -, free, bytes, largest⟩ :=
    reached.conserves
  obtain rfl := Except.ok.inj (told.symm.trans known)
  exact ⟨_, _, _, chain, nodes, reached, known, layout, blocks.symm, free.symm, bytes.symm,
    largest.symm⟩

end Heap

end BoundaryHeap
