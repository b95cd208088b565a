import BoundaryHeap.Proofs.Growth

/-!
The totals of a settled region are those over its chain: the walk that collects the blocks meets
every one of them and ends at the epilogue.
-/

namespace BoundaryHeap

namespace Region.Settled

variable {r : Region} {chain nodes : List ChainBlock}

/-- From any block on, the walk along the chain collects the rest of it. -/
theorem chainFrom_eq (settled : r.Settled chain nodes) {rest : List ChainBlock} {first : Nat}
    (known : rest ⊆ chain) (tiles : Tiles first rest r.memory.size) (above : 32 ≤ first) :
    r.memory.chainFrom first = .ok rest := by
  have bounded := settled.fenced.bounded
  induction rest generalizing first with
  | nil =>
    obtain rfl : first = r.memory.size := tiles
    have start : Block.headerOffset r.memory.size = .ok _ := Block.headerOffset_eq_ok (by omega)
    have small : (Tag.used 0).size < Block.minSize := by decide
    rw [Memory.chainFrom, Fault.bind_of_ok start, dif_neg (Nat.lt_irrefl _),
      Fault.bind_of_ok settled.fenced.epilogue, dif_pos small]
    rfl
  | cons b rest ih =>
    obtain ⟨rfl, tiles⟩ := tiles
    have member : b ∈ chain := known (List.mem_cons_self ..)
    have legal := settled.holds.legal b member
    have within := settled.holds.within b member
    have large := legal.large
    simp only [ChainBlock.stop] at within tiles
    have start : Block.headerOffset b.bp = .ok _ := Block.headerOffset_eq_ok (by omega)
    have inside : ¬ r.memory.size < b.bp := by omega
    have enough : ¬ b.tag.size < Block.minSize := by simp only [Block.minSize]; omega
    have ends : ¬ r.memory.size < b.bp + b.tag.size := by omega
    have next := ih (fun c later => known (List.mem_cons_of_mem _ later)) tiles (by omega)
    rw [Memory.chainFrom, Fault.bind_of_ok start, dif_neg inside,
      Fault.bind_of_ok (settled.holds.tagged b member).header, dif_neg enough,
      Fault.bind_of_ok (Checked.add_eq_ok (by omega)), if_neg ends, Fault.bind_of_ok next]
    rfl

theorem stats_eq (settled : r.Settled chain nodes) (freeListLength : Nat) :
    r.memory.stats 16 freeListLength =
      .ok (HeapStats.ofBlocks r.memory.size freeListLength chain) := by
  have walk := settled.chainFrom_eq (List.Subset.refl chain) settled.tiles (Nat.le_refl 32)
  have first : Checked.add 16 Block.prologueSize = .ok 32 := rfl
  rw [Memory.stats, Fault.bind_of_ok first, Fault.bind_of_ok walk]
  rfl

end Region.Settled

namespace Heap

variable {h : Heap LimitedArena} {chain nodes chain' nodes' : List ChainBlock}

/-- A heap in service totals its chain. -/
theorem Laid.stats_eq (laid : h.Laid chain nodes) :
    h.stats = .ok (HeapStats.ofBlocks h.memory.size h.freeList.length chain) := by
  rw [stats, if_pos laid.initialized, laid.prologue]
  exact laid.settled.stats_eq _

/-- A heap has no more than one chain. -/
theorem Laid.chain_unique (laid : h.Laid chain nodes) (laid' : h.Laid chain' nodes') :
    chain = chain' := by
  have walk := laid.settled.chainFrom_eq (List.Subset.refl chain) laid.settled.tiles
    (Nat.le_refl 32)
  have walk' := laid'.settled.chainFrom_eq (List.Subset.refl chain') laid'.settled.tiles
    (Nat.le_refl 32)
  exact Except.ok.inj (walk.symm.trans walk')

end Heap

end BoundaryHeap
