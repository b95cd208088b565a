import BoundaryHeap.Proofs.Linking
import BoundaryHeap.Proofs.Sizing
import Mathlib.Data.List.Chain

/-!
What a region looks like. `Settled` is the layout between two requests: the sentinels, a chain of
tagged blocks that tiles the memory with no two free neighbours, and a free list of exactly the free
ones. While a request is carried out some of the memory is not a block for a while; `Gap` is the
layout then, and `Holds` the part of both that speaks of the blocks one by one.
-/

namespace BoundaryHeap

/-- The word of padding, the prologue block behind it and the epilogue in the last word. -/
@[mk_iff] structure Memory.Fenced (m : Memory) : Prop where
  pad : m.readWord 0 = .ok 0
  prologueHeader : m.header 16 = .ok (Tag.used 16)
  prologueFooter : m.readTag 16 = .ok (Tag.used 16)
  epilogue : m.header m.size = .ok (Tag.used 0)
  bounded : m.size < wordLimit

instance (m : Memory) : Decidable m.Fenced := decidable_of_iff' _ (Memory.fenced_iff m)

/-- Writes between the sentinels leave them alone. -/
theorem Memory.Fenced.frame {m m' : Memory} {touched : Nat → Prop} (fenced : m.Fenced)
    (changed : m.ChangedOnly m' touched) (between : ∀ i, touched i → 24 ≤ i ∧ i + 8 < m.size) :
    m'.Fenced where
  pad := by
    rw [changed.readWord fun i _ last touched => by have := between i touched; omega, fenced.pad]
  prologueHeader := by
    rw [changed.header fun i _ last touched => by have := between i touched; omega,
      fenced.prologueHeader]
  prologueFooter := by
    rw [changed.readTag fun i _ last touched => by have := between i touched; omega,
      fenced.prologueFooter]
  epilogue := by
    rw [changed.size, changed.header fun i first _ touched => by
      have := between i touched; omega, fenced.epilogue]
  bounded := changed.size ▸ fenced.bounded

/-- No two neighbours are free. -/
def Spaced (blocks : List ChainBlock) : Prop :=
  blocks.IsChain fun a b => a.isFree = false ∨ b.isFree = false

instance (blocks : List ChainBlock) : Decidable (Spaced blocks) :=
  inferInstanceAs (Decidable (blocks.IsChain _))

/-- The tag in front of whatever follows the blocks. In front of all blocks is the prologue. -/
def lastTag (blocks : List ChainBlock) : Tag := (blocks.getLast?.map (·.tag)).getD (Tag.used 16)

/-- The tag behind whatever precedes the blocks. Behind all blocks is the epilogue. -/
def firstTag (blocks : List ChainBlock) : Tag := (blocks.head?.map (·.tag)).getD (Tag.used 0)

/-- The bytes that the heap has to itself: the tags of all blocks and the whole of the free ones. -/
def Idle (blocks : List ChainBlock) (i : Nat) : Prop :=
  ∃ b ∈ blocks, b.HasTag i ∨ (b.isFree = true ∧ b.Covers i)

/-- The link words of some blocks. -/
def HasLinkOf (nodes : List ChainBlock) (i : Nat) : Prop := ∃ b ∈ nodes, b.HasLink i

/-- The words that the heap writes on its own account: the tags of all blocks and the links of the
nodes among them. -/
def Wired (blocks nodes : List ChainBlock) (i : Nat) : Prop :=
  (∃ b ∈ blocks, b.HasTag i) ∨ HasLinkOf nodes i

/-- Of the memory from the header in front of `first` up to the one in front of `stop`, only wired
words have changed. -/
def Rewired (m m' : Memory) (first stop : Nat) (blocks nodes : List ChainBlock) : Prop :=
  ∀ i, first ≤ i + 8 → i + 8 < stop → ¬ Wired blocks nodes i → m'.byte i = m.byte i

theorem Rewired.readTag {m m' : Memory} {first stop offset : Nat} {blocks nodes : List ChainBlock}
    (rewired : Rewired m m' first stop blocks nodes) (size : m'.size = m.size)
    (above : first ≤ offset + 8) (below : offset + 16 ≤ stop)
    (unwired : ∀ i, offset ≤ i → i < offset + 8 → ¬ Wired blocks nodes i) :
    m'.readTag offset = m.readTag offset := by
  have changed : m.ChangedOnly m' fun i => ¬ m'.byte i = m.byte i :=
    ⟨size, fun _ same => not_not.mp same⟩
  refine changed.readTag fun i starts ends different => different ?_
  exact rewired i (by omega) (by omega) (unwired i starts ends)

/-- Every byte of the payloads of some blocks is as it was. -/
def Keeps (m m' : Memory) (blocks : List ChainBlock) : Prop :=
  ∀ b ∈ blocks, ∀ i, b.HasPayload i → m'.byte i = m.byte i

namespace Keeps

variable {m m' m'' : Memory} {blocks fewer : List ChainBlock}

theorem refl (m : Memory) : Keeps m m blocks := fun _ _ _ _ => rfl

theorem trans (first : Keeps m m' blocks) (second : Keeps m' m'' blocks) : Keeps m m'' blocks :=
  fun b member i payload => (second b member i payload).trans (first b member i payload)

theorem subset (keeps : Keeps m m' blocks) (sub : fewer ⊆ blocks) : Keeps m m' fewer :=
  fun b member => keeps b (sub member)

/-- Payloads that are kept read as before. -/
theorem slice {b : ChainBlock} (keeps : Keeps m m' blocks) (member : b ∈ blocks) :
    m'.slice b.bp (b.tag.size - 16) = m.slice b.bp (b.tag.size - 16) := by
  refine List.map_congr_left fun index within => keeps b member _ ⟨Nat.le_add_right .., ?_⟩
  rw [List.mem_range] at within
  rw [ChainBlock.stop]
  omega

end Keeps

namespace Region

/-- The memory holds some blocks, which lie apart between the sentinels, and the free list threads
the nodes among them. Memory that belongs to none of the blocks may hold anything. -/
structure Holds (r : Region) (known nodes : List ChainBlock) : Prop where
  legal : ∀ b ∈ known, b.Legal
  within : ∀ b ∈ known, 32 ≤ b.bp ∧ b.stop ≤ r.memory.size
  tagged : ∀ b ∈ known, b.Tagged r.memory
  apart : ∀ b ∈ known, ∀ c ∈ known, b ≠ c → b.Apart c
  shows : r.freeList.Shows r.memory nodes
  members : ∀ b ∈ nodes, b ∈ known ∧ b.isFree = true

/-- The layout of a region that is at rest. -/
structure Settled (r : Region) (chain nodes : List ChainBlock) : Prop where
  fenced : r.memory.Fenced
  holds : r.Holds chain nodes
  tiles : Tiles 32 chain r.memory.size
  spaced : Spaced chain
  listed : nodes.Perm (chain.filter ChainBlock.isFree)

/-- The layout of a region that is at rest but for the gap between `first` and `stop`, which holds
anything. -/
structure Gap (r : Region) (front : List ChainBlock) (first stop : Nat) (behind : List ChainBlock)
    (nodes : List ChainBlock) : Prop where
  fenced : r.memory.Fenced
  holds : r.Holds (front ++ behind) nodes
  lead : Tiles 32 front first
  trail : Tiles stop behind r.memory.size
  ordered : first ≤ stop
  firstAligned : first % 16 = 0
  stopAligned : stop % 16 = 0
  spacedFront : Spaced front
  spacedBehind : Spaced behind
  listed : nodes.Perm ((front ++ behind).filter ChainBlock.isFree)

variable {r r' : Region} {known known' nodes front behind chain : List ChainBlock}
  {b c : ChainBlock} {touched : Nat → Prop} {first stop size : Nat}

namespace Holds

theorem inside (holds : r.Holds known nodes) (member : b ∈ known) : b.Inside r.memory := by
  have ⟨above, below⟩ := holds.within b member
  exact ⟨by omega, (holds.legal b member).large, by omega⟩

/-- What is known of a region can be forgotten, except where the free list is. -/
theorem subset (holds : r.Holds known nodes) (fewer : known' ⊆ known) (listed : nodes ⊆ known') :
    r.Holds known' nodes where
  legal := fun b member => holds.legal b (fewer member)
  within := fun b member => holds.within b (fewer member)
  tagged := fun b member => holds.tagged b (fewer member)
  apart := fun b bMem c cMem => holds.apart b (fewer bMem) c (fewer cMem)
  shows := holds.shows
  members := fun b member => ⟨listed member, (holds.members b member).2⟩

/-- No link of a free block lies in a tag. -/
theorem not_link_of_tag (holds : r.Holds known nodes) {free : List ChainBlock}
    (members : ∀ c ∈ free, c ∈ known ∧ c.isFree = true) (member : b ∈ known) {i : Nat}
    (tag : b.HasTag i) : ¬ HasLinkOf free i := by
  rintro ⟨c, cMem, linked⟩
  have cKnown := (members c cMem).1
  by_cases same : b = c
  · subst same
    exact linked.not_hasTag (holds.legal b member).large tag
  · exact (holds.apart b member c cKnown same).not_hasLink (holds.legal c cKnown).large
      (tag.covers (holds.legal b member).large) linked

/-- A region survives writes that keep off the tags of its blocks and the links of its nodes. -/
theorem frame (holds : r.Holds known nodes) (list : r'.freeList = r.freeList)
    (changed : r.memory.ChangedOnly r'.memory touched)
    (tags : ∀ b ∈ known, ∀ i, b.HasTag i → ¬ touched i)
    (links : ∀ i, HasLinkOf nodes i → ¬ touched i) : r'.Holds known nodes where
  legal := holds.legal
  within := fun b member => changed.size ▸ holds.within b member
  tagged := fun b member => by
    have large := (holds.legal b member).large
    exact (holds.tagged b member).frame (by simp only [ChainBlock.stop]; omega) changed
      (tags b member)
  apart := holds.apart
  shows := by
    rw [list]
    refine holds.shows.frame changed fun b member i first last => ?_
    have bKnown := (holds.members b member).1
    by_cases inHeader : i < b.bp
    · exact tags b bKnown i (.inl ⟨first, inHeader⟩)
    · exact links i ⟨b, member, by omega, last⟩
  members := holds.members

/-- The list may be threaded anew through other blocks that are free and known. -/
theorem relist (holds : r.Holds known nodes) {nodes' : List ChainBlock}
    (shows : r'.freeList.Shows r'.memory nodes')
    (links : r.memory.ChangedOnly r'.memory (HasLinkOf nodes'))
    (members : ∀ b ∈ nodes', b ∈ known ∧ b.isFree = true) : r'.Holds known nodes' where
  legal := holds.legal
  within := fun b member => links.size ▸ holds.within b member
  tagged := by
    intro b member
    have large := (holds.legal b member).large
    apply (holds.tagged b member).frame (by simp only [ChainBlock.stop]; omega) links
    exact fun i tag => holds.not_link_of_tag members member tag
  apart := holds.apart
  shows := shows
  members := members

/-- The links of a free list lie between the sentinels. -/
theorem fenced (holds : r'.Holds known nodes) (fenced : r.memory.Fenced)
    (links : r.memory.ChangedOnly r'.memory (HasLinkOf nodes)) : r'.memory.Fenced := by
  refine fenced.frame links fun i ⟨c, member, here⟩ => ?_
  have cKnown := (holds.members c member).1
  have within := holds.within c cKnown
  have covered := here.covers (holds.legal c cKnown).large
  have same := links.size
  simp only [ChainBlock.Covers] at covered
  omega

/-- Tagging a stretch of memory apart from all known blocks makes it one more of them. -/
theorem mark_ensures (holds : r.Holds known nodes) (bounded : r.memory.size < wordLimit)
    (legal : b.Legal) (within : 32 ≤ b.bp ∧ b.stop ≤ r.memory.size)
    (apart : ∀ c ∈ known, b.Apart c) :
    (mark b.bp b.tag).Ensures r Action.Total fun _ r' =>
      r'.freeList = r.freeList ∧ r'.Holds (b :: known) nodes ∧
        r.memory.ChangedOnly r'.memory b.HasTag := by
  obtain ⟨above, below⟩ := within
  have large := legal.large
  have even : b.tag.size % 2 = 0 := by
    have := legal.size.1
    simp only [Block.alignment] at this
    omega
  simp only [ChainBlock.stop] at below
  have small : b.tag.toWord < wordLimit := Tag.toWord_lt_iff.mpr (by omega)
  let headed := r.memory.setWord (b.bp - 8) b.tag.toWord
  let tagged := headed.setWord (b.bp + b.tag.size - 16) b.tag.toWord
  have first : r.memory.ChangedOnly headed _ := Memory.setWord_changedOnly _ _ (by omega)
  have second : headed.ChangedOnly tagged _ :=
    Memory.setWord_changedOnly _ _ (by rw [first.size]; omega)
  have changed : r.memory.ChangedOnly tagged b.HasTag := by
    refine (first.trans second).mono fun i touched => ?_
    rcases touched with touched | touched <;> simp only [ChainBlock.HasTag, ChainBlock.stop] <;>
      omega
  have run : (mark b.bp b.tag).run r = .ok () ⟨tagged, r.freeList⟩ := by
    rw [mark, onMemory, Action.run_focus,
      Memory.run_writeTags (by omega) (by omega) (by omega) bounded]
  refine .of_run run ⟨rfl, ?_, changed⟩
  have rest : Region.Holds ⟨tagged, r.freeList⟩ known nodes := by
    refine holds.frame rfl changed (fun c member i tag here => ?_) (fun i linked here => ?_)
    · exact (apart c member).not_covers (here.covers large)
        (tag.covers (holds.legal c member).large)
    · obtain ⟨c, member, linked⟩ := linked
      have cKnown := (holds.members c member).1
      exact (apart c cKnown).not_covers (here.covers large)
        (linked.covers (holds.legal c cKnown).large)
  -- both words read back, the header although the footer is written after it
  have own : b.Tagged tagged := by
    constructor
    · rw [Memory.header_eq_readTag (by omega)]
      refine Memory.readTag_eq_ok (by rw [changed.size]; omega) ?_ even
      rw [second.word fun i _ _ touched => by omega]
      exact Memory.word_setWord r.memory (by omega) small
    · exact Memory.readTag_eq_ok (by rw [changed.size]; simp only [ChainBlock.stop]; omega)
        (Memory.word_setWord headed (by rw [first.size]; omega) small) even
  exact
    { legal := List.forall_mem_cons.mpr ⟨legal, rest.legal⟩
      within := List.forall_mem_cons.mpr
        ⟨⟨above, changed.size.symm ▸ below⟩, rest.within⟩
      tagged := List.forall_mem_cons.mpr ⟨own, rest.tagged⟩
      apart := by
        rintro c cMem d dMem different
        rcases List.mem_cons.mp cMem with rfl | cOld <;>
          rcases List.mem_cons.mp dMem with rfl | dOld
        · exact absurd rfl different
        · exact apart d dOld
        · exact (apart c cOld).symm
        · exact rest.apart c cOld d dOld different
      shows := rest.shows
      members := fun c member =>
        ⟨List.mem_cons_of_mem b (rest.members c member).1, (rest.members c member).2⟩ }

/-- Linking a free block that is not on the list yet puts it there. -/
theorem link_ensures (holds : r.Holds known nodes) (bounded : r.memory.size < wordLimit)
    (member : b ∈ known) (free : b.isFree = true) (unlisted : b ∉ nodes) :
    (link b.bp).Ensures r Action.Total fun _ r' =>
      r'.Holds known (FreeList.enter b nodes) ∧
        r.memory.ChangedOnly r'.memory (HasLinkOf (FreeList.enter b nodes)) := by
  have apart : ∀ c ∈ nodes, b.Apart c := by
    intro c cMem
    exact holds.apart b member c (holds.members c cMem).1 fun same => unlisted (same ▸ cMem)
  refine (Region.link_ensures holds.shows bounded (holds.tagged b member).header
    (holds.inside member) apart).imp ?_
  rintro _ r' ⟨shows, changed⟩
  have links : r.memory.ChangedOnly r'.memory (HasLinkOf (FreeList.enter b nodes)) := by
    apply changed.mono
    rintro i (own | before | behind)
    · exact ⟨b, FreeList.mem_enter.mpr (.inl rfl), own⟩
    · obtain ⟨c, cMem, linked⟩ := hasLink_of_onWord before
      exact ⟨c, List.mem_append_left _ cMem, linked⟩
    · obtain ⟨c, cMem, linked⟩ := hasLink_of_backWord behind
      exact ⟨c, List.mem_append_right _ (List.mem_cons_of_mem b cMem), linked⟩
  have members : ∀ c ∈ FreeList.enter b nodes, c ∈ known ∧ c.isFree = true := by
    intro c cMem
    cases FreeList.mem_enter.mp cMem with
    | inl same =>
      subst same
      exact ⟨member, free⟩
    | inr old =>
      exact holds.members c old
  exact ⟨holds.relist shows links members, links⟩

/-- Unlinking takes a block off the list. It stays a block of the region. -/
theorem unlink_ensures (holds : r.Holds known nodes) (bounded : r.memory.size < wordLimit)
    (listed : b ∈ nodes) :
    (unlink b.bp).Ensures r Action.Total fun _ r' =>
      r'.Holds known (nodes.erase b) ∧
        r.memory.ChangedOnly r'.memory (HasLinkOf (nodes.erase b)) := by
  obtain ⟨xs, ys, absent, split, erased⟩ := List.exists_erase_eq listed
  rw [erased]
  apply (Region.unlink_ensures (split ▸ holds.shows) bounded).imp
  rintro _ r' ⟨shows, changed⟩
  have links : r.memory.ChangedOnly r'.memory (HasLinkOf (xs ++ ys)) := by
    apply changed.mono
    rintro i (before | behind)
    · obtain ⟨c, cMem, linked⟩ := hasLink_of_onWord before
      exact ⟨c, List.mem_append_left _ cMem, linked⟩
    · obtain ⟨c, cMem, linked⟩ := hasLink_of_backWord behind
      exact ⟨c, List.mem_append_right _ cMem, linked⟩
  have members : ∀ c ∈ xs ++ ys, c ∈ known ∧ c.isFree = true := by
    intro c cMem
    exact holds.members c (List.mem_of_mem_erase (erased ▸ cMem))
  exact ⟨holds.relist shows links members, links⟩

end Holds

end Region

end BoundaryHeap
