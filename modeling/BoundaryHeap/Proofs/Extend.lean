import BoundaryHeap.Heap.Growth
import BoundaryHeap.Proofs.Move

/-!
Laying out a new memory, and a settled one whose memory has become longer. What was read before is
read after: only the old epilogue is written over, and a new one is put behind the block that the
new bytes make.
-/

namespace BoundaryHeap

namespace Memory

/-- A memory that starts with the bytes of another. -/
structure Extends (m m' : Memory) : Prop where
  size : m.size ≤ m'.size
  byte : ∀ i < m.size, m'.byte i = m.byte i

theorem extends_extend (m : Memory) (count : Nat) : m.Extends (m.extend count) :=
  ⟨by rw [size_extend]; exact Nat.le_add_right .., fun i _ => byte_extend m count i⟩

namespace Extends

variable {m m' : Memory} {offset bp word : Nat} {tag : Tag} {link : Option Nat}

theorem readWord (longer : m.Extends m') (found : m.readWord offset = .ok word) :
    m'.readWord offset = .ok word := by
  rw [Memory.readWord] at found
  split at found
  · rename_i inside
    cases found
    have same : m'.word offset = m.word offset := by
      rw [Memory.word, Memory.word]
      exact littleEndian_congr fun i _ last => longer.byte i (by omega)
    rw [Memory.readWord, if_pos (Nat.le_trans inside longer.size), same]
  · cases found

theorem readTag (longer : m.Extends m') (found : m.readTag offset = .ok tag) :
    m'.readTag offset = .ok tag := by
  rw [Memory.readTag, Fault.bind_eq_ok] at found ⊢
  obtain ⟨word, read, made⟩ := found
  exact ⟨word, longer.readWord read, made⟩

theorem header (longer : m.Extends m') (found : m.header bp = .ok tag) :
    m'.header bp = .ok tag := by
  rw [Memory.header, Fault.bind_eq_ok] at found ⊢
  obtain ⟨offset, place, read⟩ := found
  exact ⟨offset, place, longer.readTag read⟩

theorem backLink (longer : m.Extends m') (found : m.backLink bp = .ok link) :
    m'.backLink bp = .ok link := by
  rw [Memory.backLink, Fault.bind_eq_ok] at found ⊢
  obtain ⟨word, read, made⟩ := found
  exact ⟨word, longer.readWord read, made⟩

theorem onLink (longer : m.Extends m') (found : m.onLink bp = .ok link) :
    m'.onLink bp = .ok link := by
  rw [Memory.onLink, Fault.bind_eq_ok] at found ⊢
  obtain ⟨offset, place, read⟩ := found
  rw [Fault.bind_eq_ok] at read
  obtain ⟨word, read, made⟩ := read
  exact ⟨offset, place, Fault.bind_eq_ok.mpr ⟨word, longer.readWord read, made⟩⟩

theorem linked (longer : m.Extends m') {before after : Option Nat} {nodes : List ChainBlock}
    (linked : FreeList.Linked m before nodes after) : FreeList.Linked m' before nodes after := by
  induction nodes generalizing before with
  | nil => trivial
  | cons b rest ih =>
    obtain ⟨back, on, rest⟩ := linked
    exact ⟨longer.backLink back, longer.onLink on, ih rest⟩

theorem shows (longer : m.Extends m') {l : FreeList} {nodes : List ChainBlock}
    (shows : l.Shows m nodes) : l.Shows m' nodes where
  head := shows.head
  length := shows.length
  linked := longer.linked shows.linked
  sorted := shows.sorted
  headers := fun b member => longer.header (shows.headers b member)
  inside := by
    intro b member
    obtain ⟨tagged, large, ends⟩ := shows.inside b member
    exact ⟨tagged, large, Nat.le_trans ends (Nat.add_le_add_right longer.size 8)⟩
  apart := shows.apart

end Extends

/-- Writes from the old epilogue on leave the sentinels at the start of the memory alone. -/
theorem Fenced.append {m m₁ m' : Memory} (fenced : m.Fenced) (longer : m.Extends m₁)
    (room : 32 ≤ m.size) (changed : m₁.ChangedOnly m' (fun i => m.size ≤ i + 8))
    (epilogue : m'.header m'.size = .ok (Tag.used 0)) (bounded : m'.size < wordLimit) :
    m'.Fenced where
  pad := by
    rw [changed.readWord fun i _ _ => by omega]
    exact longer.readWord fenced.pad
  prologueHeader := by
    rw [changed.header fun i _ _ => by omega]
    exact longer.header fenced.prologueHeader
  prologueFooter := by
    rw [changed.readTag fun i _ _ => by omega]
    exact longer.readTag fenced.prologueFooter
  epilogue := epilogue
  bounded := bounded

end Memory

namespace Region

variable {r r' : Region} {known nodes chain : List ChainBlock} {size : Nat}

theorem Holds.longer (holds : r.Holds known nodes) (longer : r.memory.Extends r'.memory)
    (list : r'.freeList = r.freeList) : r'.Holds known nodes where
  legal := holds.legal
  within := fun b member =>
    ⟨(holds.within b member).1, Nat.le_trans (holds.within b member).2 longer.size⟩
  tagged := fun b member =>
    ⟨longer.header (holds.tagged b member).header, longer.readTag (holds.tagged b member).footer⟩
  apart := holds.apart
  shows := list ▸ longer.shows holds.shows
  members := holds.members

/-- Writes behind all blocks leave what is known of them alone. -/
theorem Holds.beyond {stop : Nat} (holds : r.Holds known nodes) (list : r'.freeList = r.freeList)
    (changed : r.memory.ChangedOnly r'.memory fun i => stop ≤ i + 8 ∧ i < stop)
    (below : ∀ c ∈ known, c.stop ≤ stop) : r'.Holds known nodes := by
  have outside : ∀ c ∈ known, ∀ i, c.Covers i → ¬ (stop ≤ i + 8 ∧ i < stop) := by
    intro c member i covered
    have ends := below c member
    simp only [ChainBlock.Covers] at covered
    omega
  apply holds.frame list changed
  · intro c member i tagged
    exact outside c member i (tagged.covers (holds.legal c member).large)
  · rintro i ⟨c, member, linked⟩
    have inside := (holds.members c member).1
    exact outside c inside i (linked.covers (holds.legal c inside).large)

theorem run_closeAt {m : Memory} {stop : Nat} (room : 8 ≤ stop) (inside : stop ≤ m.size) :
    (Heap.closeAt stop).run m = .ok () (m.setWord (stop - 8) (Tag.used 0).toWord) := by
  have write : (Memory.writeTag (stop - 8) (Tag.used 0)).run m =
      .ok () (m.setWord (stop - 8) (Tag.used 0).toWord) := Memory.run_writeWord (by omega)
  simp [Heap.closeAt, Block.headerOffset_eq_ok room, EStateM.run_bind, write]

theorem closeAt_ensures {stop : Nat} (last : stop = r.memory.size) (room : 8 ≤ stop) :
    (onMemory (Heap.closeAt stop)).Ensures r Action.Total fun _ r' =>
      r'.freeList = r.freeList ∧ r'.memory.header r'.memory.size = .ok (Tag.used 0) ∧
        r.memory.ChangedOnly r'.memory (fun i => stop ≤ i + 8 ∧ i < stop) := by
  have run : (onMemory (Heap.closeAt stop)).run r =
      .ok () ⟨r.memory.setWord (stop - 8) (Tag.used 0).toWord, r.freeList⟩ := by
    rw [onMemory, Action.run_focus, run_closeAt room (Nat.le_of_eq last)]
  have changed := Memory.setWord_changedOnly r.memory (Tag.used 0).toWord
    (by omega : stop - 8 + 8 ≤ r.memory.size)
  refine .of_run run ⟨rfl, ?_, changed.mono fun i touched => by omega⟩
  rw [Memory.size_setWord, ← last, Memory.header_eq_readTag room]
  refine Memory.readTag_eq_ok (by rw [Memory.size_setWord]; omega) ?_ rfl
  exact Memory.word_setWord r.memory (by omega) (by decide)

/-- New bytes at the end of a settled memory become a gap that one free block fills, with the
epilogue behind it. -/
theorem Settled.append_ensures (settled : r.Settled chain nodes) (legal : Block.LegalSize size)
    (bounded : r.memory.size + size < wordLimit) {r₁ : Region}
    (memory : r₁.memory = r.memory.extend size) (list : r₁.freeList = r.freeList) :
    (do mark r.memory.size (Tag.free size)
        onMemory do Heap.closeAt (← Checked.add r.memory.size size) :
      Action Region Unit).Ensures r₁ Action.Total fun _ r' =>
        r'.Gap chain r.memory.size (r.memory.size + size) [] nodes ∧
          r'.memory.header r.memory.size = .ok (Tag.free size) ∧
          r₁.memory.ChangedOnly r'.memory (fun i => r.memory.size ≤ i + 8) := by
  have longer : r.memory.Extends r₁.memory := memory ▸ Memory.extends_extend ..
  have size₁ : r₁.memory.size = r.memory.size + size := by rw [memory, Memory.size_extend]
  have above := settled.tiles.le
  have aligned := settled.tiles.aligned settled.holds.legal rfl
  have large := legal.2
  have part := legal.1
  simp only [Block.minSize, Block.alignment] at large part
  have within : ∀ c ∈ chain, c.stop ≤ r.memory.size := by
    intro c member
    exact (settled.holds.within c member).2
  -- the new bytes become a block in front of the place for the epilogue
  refine ((settled.holds.longer longer list).mark_ensures (b := ⟨r.memory.size, Tag.free size⟩)
    (by omega) ⟨aligned, legal⟩ ⟨above, Nat.le_of_eq size₁.symm⟩
    fun c member => .inr (within c member)).bind ?_
  rintro _ r₂ ⟨list₂, holds₂, marked⟩
  have size₂ := marked.size
  have sum : Checked.add r.memory.size size = .ok (r.memory.size + size) :=
    Checked.add_eq_ok bounded
  have body : (onMemory do Heap.closeAt (← Checked.add r.memory.size size) : Action Region Unit) =
      onMemory (Heap.closeAt (r.memory.size + size)) := by
    rw [sum]
    rfl
  rw [body]
  apply (closeAt_ensures (by omega) (by omega)).imp
  rintro _ r₃ ⟨list₃, epilogue, closed⟩
  have size₃ := closed.size
  have changed : r₁.memory.ChangedOnly r₃.memory (fun i => r.memory.size ≤ i + 8) := by
    refine (marked.trans closed).mono fun i touched => ?_
    simp only [ChainBlock.HasTag, ChainBlock.stop, Tag.free] at touched
    omega
  have holds₃ := holds₂.beyond list₃ closed fun c member =>
    Nat.le_trans (holds₂.within c member).2 (by omega)
  have fenced : r₃.memory.Fenced :=
    settled.fenced.append longer above changed epilogue (by omega)
  have gap : r₃.Gap chain r.memory.size (r.memory.size + size) [] nodes :=
    { fenced
      holds := by
        refine holds₃.subset (by simp) fun c member => ?_
        exact List.mem_append_left _ (settled.holds.members c member).1
      lead := settled.tiles
      trail := by
        rw [size₃, size₂, size₁]
        rfl
      ordered := Nat.le_add_right ..
      firstAligned := aligned
      stopAligned := by omega
      spacedFront := settled.spaced
      spacedBehind := .nil
      listed := by simpa using settled.listed }
  exact ⟨gap, (holds₃.tagged ⟨r.memory.size, Tag.free size⟩ List.mem_cons_self).header, changed⟩

/-- A new memory with its sentinels written is settled, without any block. -/
theorem layOut_ensures (size : r.memory.size = 32) (list : r.freeList = .empty) :
    (onMemory do
      Memory.writeWord 0 0
      Memory.writeTags 16 (Tag.used Block.prologueSize)
      Heap.closeAt (← Checked.add 16 Block.prologueSize)).Ensures r Action.Total fun _ r' =>
        r'.Settled [] [] ∧ r'.memory.size = 32 := by
  let padded := r.memory.setWord 0 0
  let headed := padded.setWord 8 (Tag.used 16).toWord
  let tagged := headed.setWord 16 (Tag.used 16).toWord
  let closed := tagged.setWord 24 (Tag.used 0).toWord
  have sizes : padded.size = 32 ∧ headed.size = 32 ∧ tagged.size = 32 ∧ closed.size = 32 := by
    simp [padded, headed, tagged, closed, size]
  obtain ⟨size₁, size₂, size₃, size₄⟩ := sizes
  have sum : Checked.add 16 Block.prologueSize = .ok 32 := rfl
  have pads : (Memory.writeWord 0 0).run r.memory = .ok () padded :=
    Memory.run_writeWord (by omega)
  have tags : (Memory.writeTags 16 (Tag.used Block.prologueSize)).run padded = .ok () tagged :=
    Memory.run_writeTags (by decide) (by decide)
      (by simp only [Tag.used, Block.prologueSize]; omega) (by rw [size₁]; decide)
  have closes : (Heap.closeAt 32).run tagged = .ok () closed :=
    run_closeAt (by decide) (Nat.le_of_eq size₃.symm)
  have run : (onMemory do
      Memory.writeWord 0 0
      Memory.writeTags 16 (Tag.used Block.prologueSize)
      Heap.closeAt (← Checked.add 16 Block.prologueSize)).run r = .ok () ⟨closed, r.freeList⟩ := by
    rw [sum, onMemory, Action.run_focus]
    simp [EStateM.run_bind, pads, tags, closes]
  have headedOnly := Memory.setWord_changedOnly padded (Tag.used 16).toWord
    (by omega : 8 + 8 ≤ padded.size)
  have taggedOnly := Memory.setWord_changedOnly headed (Tag.used 16).toWord
    (by omega : 16 + 8 ≤ headed.size)
  have closedOnly := Memory.setWord_changedOnly tagged (Tag.used 0).toWord
    (by omega : 24 + 8 ≤ tagged.size)
  have after := (headedOnly.trans taggedOnly).trans closedOnly
  have fenced : closed.Fenced :=
    { pad := by
        have word : closed.word 0 = 0 := by
          rw [after.word fun i _ _ => by omega]
          exact Memory.word_setWord r.memory (by omega) (by decide)
        rw [Memory.readWord, if_pos (by omega), word]
      prologueHeader := by
        have kept := taggedOnly.trans closedOnly
        rw [Memory.header_eq_readTag (by decide), kept.readTag fun i _ _ => by omega]
        apply Memory.readTag_eq_ok (by omega) _ rfl
        exact Memory.word_setWord padded (by omega) (by decide)
      prologueFooter := by
        rw [closedOnly.readTag fun i _ _ => by omega]
        apply Memory.readTag_eq_ok (by omega) _ rfl
        exact Memory.word_setWord headed (by omega) (by decide)
      epilogue := by
        rw [size₄, Memory.header_eq_readTag (by decide)]
        apply Memory.readTag_eq_ok (by omega) _ rfl
        exact Memory.word_setWord tagged (by omega) (by decide)
      bounded := by rw [size₄]; decide }
  refine .of_run run ⟨?_, size₄⟩
  exact
    { fenced
      holds :=
        { legal := by simp
          within := by simp
          tagged := by simp
          apart := by simp
          shows := by
            rw [list]
            exact ⟨⟨rfl, rfl, trivial, .nil⟩, by simp, by simp, .nil⟩
          members := by simp }
      tiles := size₄.symm
      spaced := .nil
      listed := .nil }

end Region

end BoundaryHeap
