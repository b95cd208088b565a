import BoundaryHeap.Proofs.Move

/-!
Coalescing on its own. While a request is carried out there may be one block that is tagged free,
is not on the list and has free neighbours; everything else is as between two requests. Such a
block leaves a gap, so coalescing it settles the region: the block and its free neighbours become
one free block, and the list and the chain change in nothing else.
-/

namespace BoundaryHeap

variable {front behind nodes : List ChainBlock} {b c : ChainBlock}

/-- The free block that a block and its free neighbours make up. -/
def joined (front : List ChainBlock) (b : ChainBlock) (behind : List ChainBlock) : ChainBlock :=
  ⟨((freeEnd front).map (·.bp)).getD b.bp,
    Tag.free (((freeEnd front).map (·.tag.size)).getD 0 + b.tag.size +
      ((freeStart behind).map (·.tag.size)).getD 0)⟩

/-- In a tiling the neighbours adjoin the block, so their sizes add up to what they fill. -/
theorem merged_eq_joined {first stop : Nat} (tiles : Tiles first (front ++ b :: behind) stop) :
    merged front b.bp b.stop behind = joined front b behind := by
  obtain ⟨middle, lead, rfl, trail⟩ := Tiles.append_iff.mp tiles
  have starts := freeEnd_adjoins lead
  have ends := freeStart_adjoins trail
  have whole : b.stop = b.bp + b.tag.size := rfl
  simp only [merged, joined]
  congr 2
  omega

/-- A row without a node, if there is one, holds the others. -/
theorem mem_dropNode_iff {node : Option ChainBlock} (nodup : nodes.Nodup) :
    c ∈ dropNode nodes node ↔ c ∈ nodes ∧ node ≠ some c := by
  cases node with
  | none => simp [dropNode]
  | some d =>
    rw [dropNode, Option.elim_some, nodup.mem_erase_iff, and_comm, ne_comm, Ne, Ne,
      Option.some_inj]

/-- A row without the free neighbours of a block holds the others. -/
theorem mem_dropNeighbours_iff (nodup : nodes.Nodup) :
    c ∈ dropNeighbours front behind nodes ↔
      c ∈ nodes ∧ freeEnd front ≠ some c ∧ freeStart behind ≠ some c := by
  have rest : (dropNode nodes (freeEnd front)).Nodup := by
    cases freeEnd front with
    | none => exact nodup
    | some a => exact nodup.erase a
  rw [dropNeighbours, mem_dropNode_iff rest, mem_dropNode_iff nodup, and_assoc]

namespace Region

variable {r : Region}

/-- The layout of a region that is at rest but for one block: it is tagged free and not on the list,
and each of its neighbours may be free. -/
@[mk_iff] structure Loose (r : Region) (front : List ChainBlock) (b : ChainBlock)
    (behind nodes : List ChainBlock) : Prop where
  fenced : r.memory.Fenced
  tiles : Tiles 32 (front ++ b :: behind) r.memory.size
  legal : ∀ c ∈ front ++ b :: behind, c.Legal
  tagged : ∀ c ∈ front ++ b :: behind, c.Tagged r.memory
  free : b.isFree = true
  spacedFront : Spaced front
  spacedBehind : Spaced behind
  threads : r.freeList.Threads r.memory nodes
  listed : nodes.Perm ((front ++ behind).filter ChainBlock.isFree)

instance (r : Region) (front : List ChainBlock) (b : ChainBlock)
    (behind nodes : List ChainBlock) : Decidable (r.Loose front b behind nodes) :=
  decidable_of_iff' _ (loose_iff r front b behind nodes)

namespace Loose

theorem mem_nodes (loose : r.Loose front b behind nodes) :
    c ∈ nodes ↔ c ∈ front ++ behind ∧ c.isFree = true := by
  rw [loose.listed.mem_iff, List.mem_filter]

theorem inside (loose : r.Loose front b behind nodes) (member : c ∈ front ++ b :: behind) :
    c.Inside r.memory := by
  obtain ⟨above, below⟩ := loose.tiles.within member
  exact ⟨by omega, (loose.legal c member).large, by omega⟩

theorem apart (loose : r.Loose front b behind nodes) :
    (front ++ b :: behind).Pairwise ChainBlock.Apart := loose.tiles.separated.imp .inl

/-- The list runs through the free blocks around the loose one. -/
theorem shows (loose : r.Loose front b behind nodes) : r.freeList.Shows r.memory nodes where
  toThreads := loose.threads
  headers := fun _ member =>
    (loose.tagged _ (around_sublist.subset (loose.mem_nodes.mp member).1)).header
  inside := fun _ member => loose.inside (around_sublist.subset (loose.mem_nodes.mp member).1)
  apart := (loose.listed.pairwise_iff ChainBlock.Apart.symm).mpr
    (loose.apart.sublist (List.filter_sublist.trans around_sublist))

theorem holds (loose : r.Loose front b behind nodes) : r.Holds (front ++ behind) nodes where
  legal := fun _ member => loose.legal _ (around_sublist.subset member)
  within := fun _ member => loose.tiles.within (around_sublist.subset member)
  tagged := fun _ member => loose.tagged _ (around_sublist.subset member)
  apart := fun _ cMem _ dMem different =>
    (loose.apart.sublist around_sublist).forall cMem dMem different
  shows := loose.shows
  members := fun _ member => loose.mem_nodes.mp member

/-- The loose block leaves a gap. -/
theorem gap (loose : r.Loose front b behind nodes) : r.Gap front b.bp b.stop behind nodes :=
  .of_tiles loose.fenced loose.holds loose.tiles (loose.legal b (by simp)) loose.spacedFront
    loose.spacedBehind loose.listed

/-- Coalescing a loose block settles the region. It answers with the start of the block that the
loose one and its free neighbours make up; this block takes their place in the chain, its free
neighbours leave the list and it enters, and every payload handed out is as it was. -/
theorem coalesces (loose : r.Loose front b behind nodes) :
    ∃ r', (coalesce b.bp).run r = .ok (joined front b behind).bp r' ∧
      r'.Settled (cutEnd front ++ joined front b behind :: cutStart behind)
        (FreeList.enter (joined front b behind) (dropNeighbours front behind nodes)) ∧
      (∀ c, c ∈ FreeList.enter (joined front b behind) (dropNeighbours front behind nodes) ↔
        c = joined front b behind ∨
          c ∈ nodes ∧ freeEnd front ≠ some c ∧ freeStart behind ≠ some c) ∧
      Keeps r.memory r'.memory (usedOf (front ++ b :: behind)) := by
  have large := (loose.legal b (by simp)).large
  have own : r.memory.blockSize b.bp = .ok (b.stop - b.bp) := by
    rw [blockSize_eq (loose.tagged b (by simp)).header, ChainBlock.stop, Nat.add_sub_cancel_left]
  obtain ⟨_, r', ran, rfl, settled, changed, -⟩ :=
    (coalesce_ensures loose.gap own (Nat.add_le_add_left large _)).exists_run
  have keeps := settled.keeps changed
  have same : usedOf (front ++ b :: behind) = usedOf front ++ usedOf behind := by
    rw [usedOf_append, usedOf_cons_of_free loose.free]
  rw [usedOf_mergedChain, ← same] at keeps
  rw [mergedChain, merged_eq_joined loose.tiles] at settled
  rw [merged_eq_joined loose.tiles] at ran
  refine ⟨r', ran, settled, fun c => ?_, keeps⟩
  rw [FreeList.mem_enter, mem_dropNeighbours_iff loose.shows.nodup]

/-- Both neighbours are free, and they are neighbours on the list as well. -/
theorem coalesces_both :
    ∃ r : Region, r.Loose [⟨32, .free 32⟩] ⟨64, .free 32⟩ [⟨96, .free 48⟩, ⟨144, .used 32⟩]
        [⟨32, .free 32⟩, ⟨96, .free 48⟩] ∧
      ∃ r', (coalesce 64).run r = .ok 32 r' ∧
        r'.Settled [⟨32, .free 112⟩, ⟨144, .used 32⟩] [⟨32, .free 112⟩] := by
  let words : List (Nat × Nat) := [(8, 17), (16, 17), (24, 32), (40, 96), (48, 32), (56, 32),
    (80, 32), (88, 48), (96, 32), (128, 48), (136, 33), (160, 33), (168, 1)]
  let memory := words.foldl (fun m word => m.setWord word.1 word.2) (Memory.empty.extend 176)
  let r : Region := ⟨memory, ⟨some 32, 2⟩⟩
  have loose : r.Loose [⟨32, .free 32⟩] ⟨64, .free 32⟩ [⟨96, .free 48⟩, ⟨144, .used 32⟩]
      [⟨32, .free 32⟩, ⟨96, .free 48⟩] := by decide +kernel
  obtain ⟨r', ran, settled, -⟩ := loose.coalesces
  exact ⟨r, loose, r', ran, settled⟩

end Loose

end Region

end BoundaryHeap
