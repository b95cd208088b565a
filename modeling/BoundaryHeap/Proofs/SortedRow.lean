import BoundaryHeap.Proofs.BestFit

/-!
The linked list as a sorted row of free blocks. Walking the list reads the row off, searching it
answers with the first block that is large enough, linking puts a block behind the last one that is
no larger, and unlinking takes one out wherever it stands. Blocks of one size so keep the order in
which they came. Linking and unlinking write links of the block and of the blocks beside it, and
every other byte of the memory stays.
-/

namespace BoundaryHeap

namespace FreeList

/-- The list stands for a row of free blocks: it runs through them in their order, which ascends by
size, and no two of them overlap. -/
structure Represents (l : FreeList) (m : Memory) (nodes : List ChainBlock) : Prop
    extends Shows l m nodes where
  free : ∀ b ∈ nodes, b.isFree

/-- The blocks beside a place in a row, the last in front of it and the first behind it. -/
def beside (front behind : List ChainBlock) : List ChainBlock :=
  front.getLast?.toList ++ behind.head?.toList

/-- The blocks in front of the place of a size are no larger, and those behind it are larger. -/
structure PlaceOf (size : Nat) (front behind : List ChainBlock) : Prop where
  upTo : ∀ c ∈ front, c.tag.size ≤ size
  above : ∀ c ∈ behind, size < c.tag.size

/-- A search for a size answers with the first block of the row that is large enough, which is a
smallest of those, and without an answer if there is none. -/
inductive Finds (nodes : List ChainBlock) (size : Nat) : Option Nat → Prop
  | fit {front behind : List ChainBlock} {b : ChainBlock} (split : nodes = front ++ b :: behind)
    (enough : size ≤ b.tag.size) (first : ∀ c ∈ front, c.tag.size < size)
    (smallest : ∀ c ∈ nodes, size ≤ c.tag.size → b.tag.size ≤ c.tag.size) :
    Finds nodes size (some b.bp)
  | none (small : ∀ c ∈ nodes, c.tag.size < size) : Finds nodes size none

variable {l : FreeList} {m : Memory} {front behind nodes : List ChainBlock} {b : ChainBlock}
  {size i : Nat}

theorem lastOr_eq_getLast? (front : List ChainBlock) :
    lastOr none front = front.getLast?.map (·.bp) := by
  cases List.eq_nil_or_concat front with
  | inl same =>
    subst same
    rfl
  | inr found =>
    obtain ⟨init, c, rfl⟩ := found
    rw [List.concat_eq_append, lastOr_append, List.getLast?_concat]
    rfl

theorem headOr_eq_head? (behind : List ChainBlock) :
    headOr behind none = behind.head?.map (·.bp) := by
  cases behind <;> rfl

/-- The words that join the two parts of a row are links of the blocks at the joint. -/
theorem hasLink_of_joint
    (touched : Region.onWord (lastOr none front) i ∨ Region.backWord (headOr behind none) i) :
    ∃ c ∈ beside front behind, c.HasLink i := by
  rw [lastOr_eq_getLast?, headOr_eq_head?] at touched
  rcases touched with ⟨bp, found, first, last⟩ | ⟨bp, found, first, last⟩
  · obtain ⟨c, member, rfl⟩ := Option.map_eq_some_iff.mp found
    exact ⟨c, by simp [beside, member], by omega, last⟩
  · obtain ⟨c, member, rfl⟩ := Option.map_eq_some_iff.mp found
    exact ⟨c, by simp [beside, member], first, by omega⟩

/-- A row that ascends by size splits at the place of any size. -/
theorem placeOf_split (sorted : nodes.Pairwise fun a c => a.tag.size ≤ c.tag.size) :
    PlaceOf size (upTo size nodes) (above size nodes) where
  upTo := fun c member => by simpa using List.mem_takeWhile_imp member
  above := fun c member => lt_of_mem_above sorted member

namespace Represents

theorem finds (represents : l.Represents m nodes) (bounded : m.size < wordLimit) :
    ∃ answer, l.findFit m size = .ok answer ∧ Finds nodes size answer := by
  refine ⟨_, represents.findFit_eq bounded size, ?_⟩
  cases found : nodes.find? (size ≤ ·.tag.size) with
  | none => exact .none (find?_eq_none_iff_smaller.mp found)
  | some b =>
    have best := BestFit.of_find? represents.sorted found
    obtain ⟨enough, front, behind, split, earlier⟩ := List.find?_eq_some_iff_append.mp found
    exact .fit split best.enough (fun c member => by simpa using earlier c member) best.smallest

end Represents

end FreeList

namespace Region

open FreeList

variable {r : Region} {front behind nodes : List ChainBlock} {b : ChainBlock}

/-- Linking a block turns the row into the one that has it in the place of its size. -/
theorem link_represents (represents : r.freeList.Represents r.memory nodes)
    (bounded : r.memory.size < wordLimit) (free : b.isFree)
    (header : r.memory.header b.bp = .ok b.tag) (inside : b.Inside r.memory)
    (apart : ∀ c ∈ nodes, b.Apart c) :
    ∃ front behind r', nodes = front ++ behind ∧ PlaceOf b.tag.size front behind ∧
      (link b.bp).run r = .ok () r' ∧ r'.freeList.Represents r'.memory (front ++ b :: behind) ∧
      r.memory.ChangedOnly r'.memory fun i =>
        b.HasLink i ∨ ∃ c ∈ beside front behind, c.HasLink i := by
  obtain ⟨_, r', ran, shows, changed⟩ :=
    (link_ensures represents.toShows bounded header inside apart).exists_run
  have allFree : ∀ c ∈ enter b nodes, c.isFree := by
    intro c member
    rcases mem_enter.mp member with rfl | old
    · exact free
    · exact represents.free c old
  refine ⟨_, _, r', (upTo_append_above ..).symm, placeOf_split represents.sorted, ran,
    ⟨shows, allFree⟩, changed.mono ?_⟩
  rintro i (own | joint)
  · exact .inl own
  · exact .inr (hasLink_of_joint joint)

/-- Unlinking a block, wherever it stands in the row, leaves the row without it. -/
theorem unlink_represents (represents : r.freeList.Represents r.memory (front ++ b :: behind))
    (bounded : r.memory.size < wordLimit) :
    ∃ r', (unlink b.bp).run r = .ok () r' ∧
      r'.freeList.Represents r'.memory (front ++ behind) ∧
      r.memory.ChangedOnly r'.memory fun i => ∃ c ∈ beside front behind, c.HasLink i := by
  obtain ⟨_, r', ran, shows, changed⟩ := (unlink_ensures represents.toShows bounded).exists_run
  exact ⟨r', ran, ⟨shows, fun c member => represents.free c (around_sublist.subset member)⟩,
    changed.mono fun i joint => hasLink_of_joint joint⟩

/-- A list that stands for a row of free blocks is that row to whoever walks, searches, extends or
shortens it: none of the four meets a fault, each answers as the row tells, and the two that write
keep to the links of the block and of the blocks beside it. -/
theorem sorted_row (represents : r.freeList.Represents r.memory nodes)
    (bounded : r.memory.size < wordLimit) :
    r.freeList.walk r.memory = .ok (nodes.map (·.bp)) ∧
    (∀ size, ∃ answer, r.freeList.findFit r.memory size = .ok answer ∧
      Finds nodes size answer) ∧
    (∀ b : ChainBlock, b.isFree → r.memory.header b.bp = .ok b.tag → b.Inside r.memory →
      (∀ c ∈ nodes, b.Apart c) →
      ∃ front behind r', nodes = front ++ behind ∧ PlaceOf b.tag.size front behind ∧
        (link b.bp).run r = .ok () r' ∧
        r'.freeList.Represents r'.memory (front ++ b :: behind) ∧
        r.memory.ChangedOnly r'.memory fun i =>
          b.HasLink i ∨ ∃ c ∈ beside front behind, c.HasLink i) ∧
    ∀ front b behind, nodes = front ++ b :: behind →
      ∃ r', (unlink b.bp).run r = .ok () r' ∧
        r'.freeList.Represents r'.memory (front ++ behind) ∧
        r.memory.ChangedOnly r'.memory fun i => ∃ c ∈ beside front behind, c.HasLink i := by
  refine ⟨represents.walk_eq bounded, fun size => represents.finds bounded,
    fun b free header inside apart => link_represents represents bounded free header inside apart,
    ?_⟩
  rintro front b behind rfl
  exact unlink_represents represents bounded

/-- A list of one block takes another of the same size behind it. -/
theorem sorted_row_stable :
    ∃ r : Region, r.freeList.Represents r.memory [⟨16, .free 32⟩] ∧
      r.memory.size < wordLimit ∧
      ∃ r', (link 48).run r = .ok () r' ∧
        r'.freeList.Represents r'.memory [⟨16, .free 32⟩, ⟨48, .free 32⟩] := by
  let memory := ((Memory.empty.extend 80).setWord 8 32).setWord 40 32
  let r : Region := ⟨memory, ⟨some 16, 1⟩⟩
  have bounded : r.memory.size < wordLimit := by decide +kernel
  have represents : r.freeList.Represents r.memory [⟨16, .free 32⟩] :=
    { head := rfl
      length := rfl
      linked := ⟨by decide +kernel, by decide +kernel, trivial⟩
      sorted := List.pairwise_singleton ..
      headers := by decide +kernel
      inside := by
        rintro b member
        obtain rfl := List.mem_singleton.mp member
        exact ⟨by decide, by decide, by decide +kernel⟩
      apart := List.pairwise_singleton ..
      free := by decide }
  obtain ⟨-, -, links, -⟩ := sorted_row represents bounded
  obtain ⟨front, behind, r', split, place, ran, represents', -⟩ :=
    links ⟨48, .free 32⟩ rfl (by decide +kernel) ⟨by decide, by decide, by decide +kernel⟩
      (by simp [ChainBlock.Apart, ChainBlock.stop, Tag.free])
  refine ⟨r, represents, bounded, r', ran, ?_⟩
  -- the block that was there is no larger, so it stands in front
  cases front with
  | nil =>
    obtain rfl : behind = [⟨16, .free 32⟩] := split.symm
    exact absurd (place.above _ List.mem_cons_self) (Nat.lt_irrefl 32)
  | cons c rest =>
    obtain ⟨rfl, rest⟩ := List.cons.inj split
    obtain ⟨rfl, rfl⟩ := List.append_eq_nil_iff.mp rest.symm
    exact represents'

end Region

end BoundaryHeap
