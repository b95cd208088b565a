import BoundaryHeap.Proofs.Pointer

/-!
What is left at a pointer that a resize has retired. A block that moves is freed, and its header
says so. A block that slides down leaves its old tags inside the joined memory, where the new block,
the tail behind it or the bytes carried along may cover them or not: the test of a pointer is only
as good as what covers them.
-/

namespace BoundaryHeap

/-- Words that outlive a slide from `ptr` down to `target` and pass for an allocated block. -/
inductive Lingers (before after : Memory) (ptr target : Nat) : Prop
  /-- Both tags of the old block: it was no larger than the free block in front of it, there was a
  free block behind it as well, and the new block ends neither at one of the tags nor one word pair
  in front of it, where the links of its tail would cover it. -/
  | tags {current size next : Nat} (old : before.blockSize ptr = .ok current)
    (new : after.blockSize target = .ok size) (beyond : current ≤ ptr - target)
    (follows : before.header (ptr + current) = .ok (Tag.free next))
    (head : target + size ≠ ptr ∧ target + size + 16 ≠ ptr)
    (foot : target + size ≠ ptr + current ∧ target + size + 16 ≠ ptr + current) :
    Lingers before after ptr target
  /-- A payload word carried along to the place of the old header. -/
  | word {current : Nat} {tag : Tag} (old : before.blockSize ptr = .ok current)
    (within : ptr - target < current)
    (carried : before.readTag (ptr + (ptr - target) - 8) = .ok tag)
    (passes : after.Passes ptr tag) : Lingers before after ptr target

namespace Memory

theorem littleEndian_shift {m m' : Memory} {offset offset' count : Nat}
    (same : ∀ i < count, m'.byte (offset' + i) = m.byte (offset + i)) :
    m'.littleEndian offset' count = m.littleEndian offset count := by
  induction count generalizing offset offset' with
  | zero => rfl
  | succ count ih =>
    have first := same 0 (Nat.succ_pos count)
    have rest : m'.littleEndian (offset' + 1) count = m.littleEndian (offset + 1) count := by
      refine ih fun i below => ?_
      have later := same (i + 1) (Nat.succ_lt_succ below)
      rwa [Nat.add_comm i 1, ← Nat.add_assoc, ← Nat.add_assoc] at later
    rw [Nat.add_zero, Nat.add_zero] at first
    rw [littleEndian, littleEndian, first, rest]

/-- A tag that has been copied to another place. -/
theorem readTag_shift {m m' : Memory} {offset offset' : Nat} (inside : offset + 8 ≤ m.size)
    (inside' : offset' + 8 ≤ m'.size)
    (same : ∀ i < 8, m'.byte (offset' + i) = m.byte (offset + i)) :
    m'.readTag offset' = m.readTag offset := by
  have word : m'.word offset' = m.word offset := by
    rw [Memory.word, Memory.word]
    exact littleEndian_shift same
  rw [readTag, readTag, readWord, readWord, if_pos inside, if_pos inside', word]

/-- A word that stores a link reads as the tag of a free block. -/
theorem readTag_of_link {m : Memory} {offset : Nat} {link : Option Nat}
    (inside : offset + 8 ≤ m.size) (found : linkOfWord (m.word offset) = link)
    (aligned : ∀ bp ∈ link, bp % 16 = 0 ∧ bp ≤ m.size) :
    ∃ rest, m.readTag offset = .ok (Tag.free rest) ∧ rest ≤ m.size := by
  have even : m.word offset % 16 = 0 ∧ m.word offset ≤ m.size := by
    unfold linkOfWord at found
    split at found
    next zero => simp [zero]
    next => exact aligned _ found.symm
  refine ⟨m.word offset, ?_, even.2⟩
  have tag : Tag.ofWord (m.word offset) = Tag.free (m.word offset) := by
    have low : m.word offset % 2 = 0 := by omega
    simp only [Tag.ofWord, Tag.free, low, Tag.mk.injEq]
    exact ⟨by omega, rfl⟩
  rw [readTag, readWord, if_pos inside, ← tag]
  rfl

end Memory

namespace Region

variable {m : Memory} {r : Region} {chain nodes : List ChainBlock} {a b c : ChainBlock}
  {stop offset : Nat}

/-- The link words of a node read as tags of free blocks. -/
theorem Settled.links_read (settled : r.Settled chain nodes) (listed : c ∈ nodes) :
    (∃ rest, r.memory.readTag c.bp = .ok (Tag.free rest) ∧ rest ≤ r.memory.size) ∧
      ∃ rest, r.memory.readTag (c.bp + 8) = .ok (Tag.free rest) ∧ rest ≤ r.memory.size := by
  obtain ⟨member, -⟩ := settled.mem_nodes.mp listed
  have within := settled.holds.within c member
  have large := (settled.holds.legal c member).large
  have bounded := settled.bounded
  simp only [ChainBlock.stop] at within
  have node : ∀ d ∈ nodes, d.bp % 16 = 0 ∧ d.bp ≤ r.memory.size := by
    intro d dListed
    obtain ⟨dMem, -⟩ := settled.mem_nodes.mp dListed
    have ends : d.bp + d.tag.size ≤ r.memory.size := (settled.holds.within d dMem).2
    exact ⟨(settled.holds.legal d dMem).aligned, by omega⟩
  obtain ⟨xs, ys, rfl⟩ := List.append_of_mem listed
  obtain ⟨-, back, on, -⟩ := FreeList.Linked.append_iff.mp settled.holds.shows.linked
  rw [Memory.backLink_eq_ok (by omega), Except.ok.injEq] at back
  rw [Memory.onLink_eq_ok (by omega) bounded, Except.ok.injEq] at on
  constructor
  · refine Memory.readTag_of_link (by omega) back fun bp found => ?_
    obtain ⟨d, dMem, rfl⟩ := FreeList.mem_of_lastOr found
    exact node d (List.mem_append_left _ dMem)
  · refine Memory.readTag_of_link (by omega) on fun bp found => ?_
    obtain ⟨d, dMem, rfl⟩ := FreeList.mem_of_headOr found
    exact node d (List.mem_append_right _ (List.mem_cons_of_mem c dMem))

/-- The state after the block `b` has slid down into the free block `a` in front of it: `c` is the
new block, and what is left of the joined memory is a free block behind it. -/
structure Slide (m : Memory) (r : Region) (a b c : ChainBlock) (stop : Nat)
    (chain nodes : List ChainBlock) : Prop where
  aLegal : a.Legal
  bLegal : b.Legal
  above : 32 ≤ a.bp
  meet : a.stop = b.bp
  old : b.Tagged m
  used : b.tag.allocated = true
  settled : r.Settled chain nodes
  size : r.memory.size = m.size
  member : c ∈ chain
  taken : c.isFree = false
  starts : c.bp = a.bp
  larger : b.tag.size < c.tag.size
  ends : b.stop ≤ stop
  within : stop ≤ r.memory.size
  stopAligned : stop % 16 = 0
  follows : (∃ next, m.header b.stop = .ok (Tag.free next)) ↔ b.stop ≠ stop
  tail : c.stop = stop ∨ c.stop < stop ∧ ⟨c.stop, Tag.free (stop - c.stop)⟩ ∈ chain
  left : Rewired m r.memory (a.bp + b.tag.size - 8) b.stop chain nodes
  carried : ∀ index, index + 16 < b.tag.size →
    r.memory.byte (a.bp + index) = m.byte (b.bp + index)

namespace Slide

/-- A tag of the old block that no bytes are carried to is still there unless the new block or the
tail has a tag or a link in its place. -/
theorem readTag_eq (slide : Slide m r a b c stop chain nodes)
    (above : a.bp + b.tag.size ≤ offset + 16) (below : offset + 16 ≤ b.stop)
    (aligned : offset % 8 = 0)
    (clear : offset + 16 ≠ c.stop ∧ offset + 8 ≠ c.stop ∧ offset ≠ c.stop ∧ offset ≠ c.stop + 8 ∧
      offset + 16 ≠ stop) : r.memory.readTag offset = m.readTag offset := by
  have cEnds := (slide.settled.holds.legal c slide.member).stop_aligned
  have bLarge := slide.bLegal.large
  have starts := slide.starts
  have ends := slide.ends
  refine slide.left.readTag slide.size (by omega) below fun i after under wired => ?_
  by_cases inside : i + 8 < c.stop
  · -- in the new block
    have own := slide.settled.wired_within slide.member ⟨by omega, inside⟩ wired
    rw [slide.taken] at own
    simp only [ChainBlock.HasTag, Bool.false_eq_true, false_and, or_false] at own
    omega
  · -- behind it
    rcases slide.tail with whole | ⟨short, member⟩
    · omega
    · have stopEnds := (slide.settled.holds.legal _ member).stop_aligned
      have own := slide.settled.wired_within member (i := i) (by
        simp only [ChainBlock.Covers, ChainBlock.stop, Tag.free] at inside ⊢
        omega) wired
      generalize c.stop = start at *
      simp only [ChainBlock.HasTag, ChainBlock.HasLink, ChainBlock.stop, Tag.free] at own stopEnds
      omega

/-- The new block ends at an aligned offset, and in the joined memory. -/
theorem cEnds (slide : Slide m r a b c stop chain nodes) : c.stop % 16 = 0 ∧ c.stop ≤ stop := by
  refine ⟨(slide.settled.holds.legal c slide.member).stop_aligned, ?_⟩
  rcases slide.tail with whole | ⟨short, -⟩
  · exact Nat.le_of_eq whole
  · exact Nat.le_of_lt short

/-- The tail behind the new block, if there is one, is a free block on the list. -/
theorem tail_listed (slide : Slide m r a b c stop chain nodes) (short : c.stop < stop) :
    (⟨c.stop, Tag.free (stop - c.stop)⟩ : ChainBlock) ∈ nodes := by
  rcases slide.tail with whole | ⟨-, member⟩
  · exact absurd whole (Nat.ne_of_lt short)
  · exact slide.settled.mem_nodes.mpr ⟨member, rfl⟩

theorem header_eq (slide : Slide m r a b c stop chain nodes) (beyond : b.tag.size ≤ a.tag.size)
    (head : c.stop ≠ b.bp ∧ c.stop + 16 ≠ b.bp) : r.memory.header b.bp = .ok b.tag := by
  have aLarge := slide.aLegal.large
  have bLarge := slide.bLegal.large
  have meet : a.bp + a.tag.size = b.bp := slide.meet
  have starts : b.bp % 16 = 0 := slide.bLegal.aligned
  have bStop : b.stop = b.bp + b.tag.size := rfl
  obtain ⟨cAligned, -⟩ := slide.cEnds
  have stopAligned := slide.stopAligned
  have old := slide.old.header
  rw [Memory.header_eq_readTag (by omega)] at old ⊢
  rw [slide.readTag_eq (by omega) (by omega) (by omega) (by omega), old]

/-- Where the old header was is the header of the tail, or a link of it. -/
theorem header_lost (slide : Slide m r a b c stop chain nodes) (capped : m.size < capacityLimit)
    (lost : c.stop = b.bp ∨ c.stop + 16 = b.bp) :
    ∃ rest, r.memory.header b.bp = .ok (Tag.free rest) ∧ b.bp + rest < wordLimit := by
  have bLarge := slide.bLegal.large
  have bStop : b.stop = b.bp + b.tag.size := rfl
  have ends := slide.ends
  have within := slide.within
  have size := slide.size
  have limits : capacityLimit + capacityLimit = wordLimit := rfl
  have listed := slide.tail_listed (by omega)
  rcases lost with same | same
  · obtain ⟨member, -⟩ := slide.settled.mem_nodes.mp listed
    refine ⟨stop - c.stop, ?_, by omega⟩
    rw [← same]
    exact (slide.settled.holds.tagged _ member).header
  · obtain ⟨-, rest, link, small⟩ := slide.settled.links_read listed
    refine ⟨rest, ?_, by omega⟩
    rw [Memory.header_eq_readTag (by omega), ← link]
    congr 1
    show b.bp - 8 = c.stop + 8
    omega

theorem footer_eq (slide : Slide m r a b c stop chain nodes)
    (foot : b.stop ≠ stop ∧ c.stop ≠ b.stop ∧ c.stop + 16 ≠ b.stop) :
    r.memory.readTag (b.stop - 16) = .ok b.tag := by
  have aLarge := slide.aLegal.large
  have bLarge := slide.bLegal.large
  have meet : a.bp + a.tag.size = b.bp := slide.meet
  have bAligned := slide.bLegal.stop_aligned
  have bStop : b.stop = b.bp + b.tag.size := rfl
  obtain ⟨cAligned, -⟩ := slide.cEnds
  have stopAligned := slide.stopAligned
  rw [slide.readTag_eq (by omega) (by omega) (by omega) (by omega), slide.old.footer]

/-- At the end of the new block and of the tail, and where the tail has a link, there is no footer of
a smaller allocated block. -/
theorem readTag_lost (slide : Slide m r a b c stop chain nodes) {tag : Tag} {ending : Nat}
    (below : ending ≤ stop) (used : tag.allocated = true) (smaller : tag.size < c.tag.size)
    (lost : ending = stop ∨ c.stop = ending ∨ c.stop + 16 = ending) :
    r.memory.readTag (ending - 16) ≠ .ok tag := by
  have notFree : ∀ rest, Tag.free rest ≠ tag := by
    rintro rest rfl
    cases used
  have whole (same : c.stop = ending) : r.memory.readTag (ending - 16) ≠ .ok tag := by
    rw [← same, (slide.settled.holds.tagged c slide.member).footer]
    intro found
    rw [Except.ok.inj found] at smaller
    exact Nat.lt_irrefl _ smaller
  rcases lost with rfl | same | same
  · rcases slide.tail with all | ⟨short, member⟩
    · exact whole all
    · have footer := (slide.settled.holds.tagged _ member).footer
      simp only [ChainBlock.stop, Tag.free] at footer short
      rw [show c.bp + c.tag.size + (ending - (c.bp + c.tag.size)) = ending by omega] at footer
      rw [footer]
      exact fun found => notFree _ (Except.ok.inj found)
  · exact whole same
  · obtain ⟨⟨rest, link, -⟩, -⟩ := slide.settled.links_read (slide.tail_listed (by omega))
    replace link : r.memory.readTag c.stop = .ok (Tag.free rest) := link
    rw [show ending - 16 = c.stop by omega, link]
    exact fun found => notFree _ (Except.ok.inj found)

/-- The payload word that is carried to the place of the old header. -/
theorem header_carried (slide : Slide m r a b c stop chain nodes)
    (within : a.tag.size < b.tag.size) :
    r.memory.header b.bp = m.readTag (b.bp + a.tag.size - 8) := by
  have aLarge := slide.aLegal.large
  have aWhole := slide.aLegal.size.1
  have bWhole := slide.bLegal.size.1
  simp only [Block.alignment] at aWhole bWhole
  have meet : a.bp + a.tag.size = b.bp := slide.meet
  have bStop : b.stop = b.bp + b.tag.size := rfl
  have ends := slide.ends
  have inside := slide.within
  have size := slide.size
  rw [Memory.header_eq_readTag (by omega)]
  refine Memory.readTag_shift (by omega) (by omega) fun i below => ?_
  have moved := slide.carried (a.tag.size - 8 + i) (by omega)
  rwa [show a.bp + (a.tag.size - 8 + i) = b.bp - 8 + i by omega,
    show b.bp + (a.tag.size - 8 + i) = b.bp + a.tag.size - 8 + i by omega] at moved

section Lingers

theorem lingers_iff_tags (slide : Slide m r a b c stop chain nodes)
    (beyond : b.tag.size ≤ a.tag.size) :
    Lingers m r.memory b.bp a.bp ↔ (c.stop ≠ b.bp ∧ c.stop + 16 ≠ b.bp) ∧
      b.stop ≠ stop ∧ c.stop ≠ b.stop ∧ c.stop + 16 ≠ b.stop := by
  have meet : a.bp + a.tag.size = b.bp := slide.meet
  have old := blockSize_eq slide.old.header
  have new := blockSize_eq (slide.settled.holds.tagged c slide.member).header
  rw [slide.starts] at new
  have cStop : c.stop = a.bp + c.tag.size := by rw [ChainBlock.stop, slide.starts]
  constructor
  · intro lingers
    cases lingers with
    | tags old' new' _ follows head foot =>
      cases old.symm.trans old'
      cases new.symm.trans new'
      rw [cStop]
      exact ⟨head, slide.follows.mp ⟨_, follows⟩, foot⟩
    | word old' within =>
      cases old.symm.trans old'
      omega
  · rintro ⟨head, apart, foot⟩
    obtain ⟨next, follows⟩ := slide.follows.mpr apart
    rw [cStop] at head foot
    exact .tags old new (by omega) follows head foot

theorem lingers_iff_word (slide : Slide m r a b c stop chain nodes) {tag : Tag}
    (within : a.tag.size < b.tag.size) (header : r.memory.header b.bp = .ok tag) :
    Lingers m r.memory b.bp a.bp ↔ r.memory.Passes b.bp tag := by
  have meet : a.bp + a.tag.size = b.bp := slide.meet
  have room : b.bp - a.bp = a.tag.size := by omega
  have old := blockSize_eq slide.old.header
  rw [slide.header_carried within] at header
  constructor
  · intro lingers
    cases lingers with
    | tags old' _ beyond =>
      cases old.symm.trans old'
      omega
    | word old' _ carried passes =>
      rw [room] at carried
      cases header.symm.trans carried
      exact passes
  · intro passes
    rw [← room] at header
    exact .word old (by omega) header passes

/-- If the word that is carried to the place of the old header tells of a block that ends among the
bytes carried along, these alone decide. -/
theorem lingers_iff_carried (slide : Slide m r a b c stop chain nodes) {tag : Tag}
    (header : m.readTag (b.bp + a.tag.size - 8) = .ok tag)
    (short : a.tag.size + tag.size < b.tag.size) :
    Lingers m r.memory b.bp a.bp ↔ Block.LegalSize tag.size ∧ tag.allocated = true ∧
      m.readTag (b.bp + a.tag.size + tag.size - 16) = .ok tag := by
  have within : a.tag.size < b.tag.size := by omega
  have meet : a.bp + a.tag.size = b.bp := slide.meet
  have bStop : b.stop = b.bp + b.tag.size := rfl
  have ends := slide.ends
  have inside := slide.within
  have size := slide.size
  have bounded := slide.settled.bounded
  rw [← slide.header_carried within] at header
  rw [slide.lingers_iff_word within header, Memory.Passes]
  refine and_congr_right fun legal => ?_
  have footer : r.memory.readTag (b.bp + tag.size - 16) =
      m.readTag (b.bp + a.tag.size + tag.size - 16) := by
    have aWhole := slide.aLegal.size.1
    have bWhole := slide.bLegal.size.1
    have whole := legal.1
    have large : 32 ≤ tag.size := legal.2
    simp only [Block.alignment] at aWhole bWhole whole
    refine Memory.readTag_shift (by omega) (by omega) fun i below => ?_
    have moved := slide.carried (a.tag.size + tag.size - 16 + i) (by omega)
    rwa [show a.bp + (a.tag.size + tag.size - 16 + i) = b.bp + tag.size - 16 + i by omega,
      show b.bp + (a.tag.size + tag.size - 16 + i) = b.bp + a.tag.size + tag.size - 16 + i by
        omega] at moved
  have near : ¬ wordLimit ≤ b.bp + tag.size := by omega
  have fits : b.bp + tag.size ≤ r.memory.size := by omega
  simp only [near, fits, footer, false_or, true_and, and_comm]

/-- If it tells of a block that ends behind them but no later than the old block did, the old word
there decides, unless the new block ends there or its tail has covered that word. -/
theorem lingers_iff_left (slide : Slide m r a b c stop chain nodes) {tag : Tag}
    (within : a.tag.size < b.tag.size)
    (header : m.readTag (b.bp + a.tag.size - 8) = .ok tag)
    (long : b.tag.size ≤ a.tag.size + tag.size) (below : tag.size ≤ b.tag.size) :
    Lingers m r.memory b.bp a.bp ↔ Block.LegalSize tag.size ∧ tag.allocated = true ∧
      m.readTag (b.bp + tag.size - 16) = .ok tag ∧ b.bp + tag.size ≠ stop ∧
      c.stop ≠ b.bp + tag.size ∧ c.stop + 16 ≠ b.bp + tag.size := by
  have meet : a.bp + a.tag.size = b.bp := slide.meet
  have starts : b.bp % 16 = 0 := slide.bLegal.aligned
  have bStop : b.stop = b.bp + b.tag.size := rfl
  have ends := slide.ends
  have inside := slide.within
  have bounded := slide.settled.bounded
  have larger := slide.larger
  obtain ⟨cAligned, -⟩ := slide.cEnds
  have stopAligned := slide.stopAligned
  rw [← slide.header_carried within] at header
  rw [slide.lingers_iff_word within header, Memory.Passes]
  refine and_congr_right fun legal => ?_
  have whole := legal.1
  have large : 32 ≤ tag.size := legal.2
  simp only [Block.alignment] at whole
  have kept (clear : b.bp + tag.size ≠ stop ∧ c.stop ≠ b.bp + tag.size ∧
      c.stop + 16 ≠ b.bp + tag.size) :
      r.memory.readTag (b.bp + tag.size - 16) = m.readTag (b.bp + tag.size - 16) :=
    slide.readTag_eq (by omega) (by omega) (by omega) (by omega)
  constructor
  · rintro (overflows | ⟨-, footer, used⟩)
    · omega
    · have clear : b.bp + tag.size ≠ stop ∧ c.stop ≠ b.bp + tag.size ∧
          c.stop + 16 ≠ b.bp + tag.size := by
        by_contra lost
        exact slide.readTag_lost (by omega) used (by omega) (by omega) footer
      exact ⟨used, kept clear ▸ footer, clear⟩
  · rintro ⟨used, footer, clear⟩
    exact .inr ⟨by omega, (kept clear).trans footer, used⟩

end Lingers

/-- After a slide the test of a pointer refuses the old one unless words that pass outlive it. -/
theorem refuses_iff (slide : Slide m r a b c stop chain nodes) (capped : m.size < capacityLimit) :
    (∃ violation, r.memory.liveBlock 16 b.bp = .ok (.error violation)) ↔
      ¬ Lingers m r.memory b.bp a.bp := by
  have above := slide.above
  have aLarge := slide.aLegal.large
  have bLarge := slide.bLegal.large
  have meet : a.bp + a.tag.size = b.bp := slide.meet
  have bStop : b.stop = b.bp + b.tag.size := rfl
  have ends := slide.ends
  have within := slide.within
  have starts : b.bp % 16 = 0 := slide.bLegal.aligned
  have bounded := slide.settled.bounded
  have test {tag : Tag} (header : r.memory.header b.bp = .ok tag) :=
    Memory.liveBlock_refuses_iff (by omega) (by omega) bounded starts header
  by_cases beyond : b.tag.size ≤ a.tag.size
  swap
  · -- the place of the old header is among the bytes carried along
    obtain ⟨tag, header⟩ : ∃ tag, r.memory.header b.bp = .ok tag := by
      rw [Memory.header_eq_readTag (by omega)]
      exact Memory.exists_readTag (by omega)
    rw [test header, slide.lingers_iff_word (by omega) header]
  rw [slide.lingers_iff_tags beyond]
  by_cases head : c.stop ≠ b.bp ∧ c.stop + 16 ≠ b.bp
  · rw [test (slide.header_eq beyond head)]
    by_cases foot : b.stop ≠ stop ∧ c.stop ≠ b.stop ∧ c.stop + 16 ≠ b.stop
    · have passes : r.memory.Passes b.bp b.tag :=
        ⟨slide.bLegal.size, .inr ⟨by omega, slide.footer_eq foot, slide.used⟩⟩
      exact iff_of_false (not_not.mpr passes) (not_not.mpr ⟨head, foot⟩)
    · refine iff_of_true (fun passes => ?_) fun both => foot both.2
      rcases passes.2 with overflows | ⟨-, footer, -⟩
      · omega
      · exact slide.readTag_lost ends slide.used slide.larger (by omega) footer
  · obtain ⟨rest, header, small⟩ := slide.header_lost capped (by omega)
    rw [test header]
    exact iff_of_true (Memory.not_passes_free small) fun both => head both.1

end Slide

end Region

/-- Behind the free block that a row starts with, if it does, is an allocated one. -/
theorem Spaced.cutStart_used {behind : List ChainBlock} (spaced : Spaced behind) :
    (firstTag (cutStart behind)).allocated = true := by
  rcases start_cases behind with ⟨-, same, used⟩ | ⟨c, after, rfl, free⟩
  · rw [same]
    exact used
  · rw [cutStart_of_free free]
    refine (spaced_cons.mp spaced).2.resolve_left ?_
    rw [ChainBlock.isFree_iff.mp free]
    decide

/-- A block takes all of the memory it is kept in, or leaves a free block behind it. -/
theorem kept_stop_cases {first stop size : Nat} {behind : List ChainBlock}
    (fits : first + size ≤ stop) (startUsed : (firstTag behind).allocated = true) :
    (kept first stop size).stop = stop ∨ (kept first stop size).stop < stop ∧
      ⟨(kept first stop size).stop, Tag.free (stop - (kept first stop size).stop)⟩ ∈
        tailChain first stop size behind := by
  by_cases whole : stop < first + size + 32
  · left
    simp only [kept, ChainBlock.stop, Tag.used, if_pos whole]
    omega
  · right
    have stops : (kept first stop size).stop = first + size := by
      simp only [kept, ChainBlock.stop, Tag.used, if_neg whole]
    have alone : freeEnd ([] : List ChainBlock) = none := rfl
    rw [stops]
    refine ⟨by omega, ?_⟩
    simp [tailChain, if_neg whole, mergedChain, merged, alone, freeStart_of_used startUsed]

/-- The header behind a gap is that of a free block if there is room. -/
theorem Region.Gap.free_behind_iff {r : Region} {front behind nodes : List ChainBlock}
    {first stop : Nat} (gap : r.Gap front first stop behind nodes) :
    (∃ next, r.memory.header stop = .ok (Tag.free next)) ↔ roomBehind behind ≠ 0 := by
  rw [gap.header_stop]
  rcases start_cases behind with ⟨none, -, allocated⟩ | ⟨c, after, rfl, free⟩
  · have room : roomBehind behind = 0 := by simp [roomBehind, none]
    refine iff_of_false ?_ (not_not.mpr room)
    rintro ⟨next, found⟩
    rw [Except.ok.inj found] at allocated
    cases allocated
  · have large := (gap.holds.legal c (by simp)).large
    have room : roomBehind (c :: after) = c.tag.size := by
      simp [roomBehind, freeStart_of_free free]
    have offered := ChainBlock.isFree_iff.mp free
    refine iff_of_true ⟨c.tag.size, ?_⟩ (by omega)
    rw [firstTag_cons, Tag.free, ← offered]

namespace Heap

open Region (roomInFront roomBehind)

variable {h h' : Heap LimitedArena} {front behind before nodes chain' nodes' : List ChainBlock}
  {a b : ChainBlock} {size request ptr stop : Nat} {r : Region}

/-- Sliding a block down as a resize does it. -/
theorem Laid.slide (laid : h.Laid (before ++ [a] ++ b :: behind) nodes)
    (used : b.isFree = false) (small : b.tag.size < size)
    (ends : stop = b.stop + roomBehind behind) (fits : a.bp + size ≤ stop)
    (settled : r.Settled
      (before ++ kept a.bp stop size :: tailChain a.bp stop size (cutStart behind)) nodes')
    (memory : r.memory.size = h.memory.size)
    (carried : ∀ index, index + 16 < b.tag.size →
      (kept a.bp stop size).HasPayload (a.bp + index) →
        r.memory.byte (a.bp + index) = h.memory.byte (b.bp + index))
    (left : Rewired h.memory r.memory (a.bp + b.tag.size - 8) b.stop
      (before ++ kept a.bp stop size :: tailChain a.bp stop size (cutStart behind)) nodes') :
    Region.Slide h.memory r a b (kept a.bp stop size) stop
      (before ++ kept a.bp stop size :: tailChain a.bp stop size (cutStart behind)) nodes' := by
  have holds := laid.settled.holds
  have gap := laid.settled.gap used
  have startUsed := gap.spacedBehind.cutStart_used
  have larger : size ≤ (kept a.bp stop size).tag.size := le_kept fits
  have starts : (kept a.bp stop size).bp = a.bp := rfl
  have tail := kept_stop_cases fits startUsed
  have stopAligned : stop % 16 = 0 := by
    rcases tail with whole | ⟨short, listed⟩
    · rw [← whole]
      exact (settled.holds.legal _ (by simp)).stop_aligned
    · have legal := settled.holds.legal _ (List.mem_append_right before
        (List.mem_cons_of_mem _ listed))
      have aligned := legal.stop_aligned
      rwa [ChainBlock.stop, Tag.free, Nat.add_sub_cancel' (Nat.le_of_lt short)] at aligned
  have follows : (∃ next, h.memory.header b.stop = .ok (Tag.free next)) ↔ b.stop ≠ stop :=
    gap.free_behind_iff.trans (by omega)
  have meet := gap.lead.stop_eq
  exact
    { aLegal := holds.legal a (by simp)
      bLegal := holds.legal b (by simp)
      above := (holds.within a (by simp)).1
      meet
      old := holds.tagged b (by simp)
      used := ChainBlock.isFree_eq_false.mp used
      settled
      size := memory
      member := by simp
      taken := rfl
      starts
      larger := Nat.lt_of_lt_of_le small larger
      ends := by omega
      within := by
        rw [memory, ends]
        exact gap.roomBehind_le
      stopAligned
      follows
      tail := tail.imp_right (And.imp_right fun listed => by simp [listed])
      left
      carried := by
        intro index within
        apply carried index within
        refine ⟨Nat.le_add_right .., ?_⟩
        simp only [ChainBlock.stop, starts]
        omega }

/-- What becomes of the old pointer of a block that a resize has taken elsewhere. -/
theorem Resized.retires (laid : h.Laid (front ++ b :: behind) nodes) (used : b.isFree = false)
    (found : Block.sizeFor request = some size) (tests : h.config.check.testsPointers = true)
    (capped : h.memory.size < capacityLimit)
    (resized : Resized h front b behind nodes size request ptr h' chain' nodes')
    (elsewhere : ptr ≠ b.bp) :
    (h'.counters.reallocsMoved = h.counters.reallocsMoved + 1 ∧
        h'.counters.reallocsAbsorbedPrev = h.counters.reallocsAbsorbedPrev ∧ h'.Rejects b.bp) ∨
      h'.counters.reallocsMoved = h.counters.reallocsMoved ∧
        h'.counters.reallocsAbsorbedPrev = h.counters.reallocsAbsorbedPrev + 1 ∧ ptr < b.bp ∧
        (h'.Rejects b.bp ↔ ¬ Lingers h.memory h'.memory b.bp ptr) := by
  have continues := resized.advances.continues
  have tests' : h'.config.check.testsPointers = true := continues.config ▸ tests
  have placed : h'.memory.Placed b.bp :=
    laid.settled.wellFormed.placed (by simp) continues.larger
  obtain ⟨_, -, laid', -⟩ := resized.carried laid used found
  cases resized with
  | trimmed => exact absurd rfl elsewhere
  | grown => exact absurd rfl elsewhere
  | @slid a before stop r _ prev free small ends fits edited settled changed carried left =>
    subst prev
    have slide := laid.slide used small ends fits settled changed.size carried left
    have below : a.bp < b.bp := by
      have aLarge := slide.aLegal.large
      have meet : a.bp + a.tag.size = b.bp := slide.meet
      omega
    have rejects := laid'.rejects_iff tests' (Nat.ne_zero_of_lt below)
    rw [laid'.prologue, edited.memory] at rejects
    rw [edited.memory, edited.counters]
    exact .inr ⟨rfl, rfl, below, rejects.trans (slide.refuses_iff capped)⟩
  | @moved t h₁ front' behind' nodes₁ r _ small cramped allocated edited settled changed carried
      left =>
    obtain ⟨rest, header, ends⟩ := left
    have counters := allocated.counters
    simp only [Counters.served, Counters.mk.injEq] at counters
    rw [← edited.memory] at header ends
    rw [edited.counters]
    exact .inl ⟨congrArg (· + 1) counters.2.2.2.2.1, counters.2.2.2.1,
      laid'.rejects_of_free tests' placed header ends⟩

variable {arena : LimitedArena} {config : HeapConfig} {n target : Nat} {ledger : Ledger}

/-- A resize that takes a block elsewhere retires its pointer. If the block moved to a fresh one,
the old pointer is refused from then on. If it slid down into the free block in front of it, the old
pointer is refused unless words that pass for an allocated block linger in the joined memory. -/
theorem Reaches.retired (reached : Reaches arena config n h ledger) (checked : config.check ≠ .off)
    (live : (ledger ptr).isSome) (wanted : request ≠ 0)
    (ran : (Heap.call (.resize ptr request)).run h = .ok (.block (some target)) h')
    (elsewhere : target ≠ ptr) :
    (h'.counters.reallocsMoved = h.counters.reallocsMoved + 1 ∧
        h'.counters.reallocsAbsorbedPrev = h.counters.reallocsAbsorbedPrev ∧ h'.Rejects ptr) ∨
      h'.counters.reallocsMoved = h.counters.reallocsMoved ∧
        h'.counters.reallocsAbsorbedPrev = h.counters.reallocsAbsorbedPrev + 1 ∧ target < ptr ∧
        (h'.Rejects ptr ↔ ¬ Lingers h.memory h'.memory ptr target) := by
  obtain ⟨_, _, sound⟩ := reached.sound
  obtain ⟨front, b, behind, rfl, rfl, used⟩ := sound.backs.live live
  obtain ⟨_, _, called, same⟩ := Action.run_bind_eq_ok.mp ran
  cases same
  obtain ⟨_, _, outcome⟩ := (resize_ensures sound.backs.laid used wanted).holds called
  have tests : h.config.check.testsPointers = true := by
    rw [reached.config_eq]
    exact decide_eq_true checked
  cases outcome with
  | resized found way => exact way.retires sound.backs.laid used found tests sound.capped elsewhere

/-- A block that has moved away from 32, since the one behind it is taken. -/
theorem Reaches.retired_moved :
    ∃ h h' ledger, Reaches (.withLimit 4096)
        { HeapConfig.standard with chunkSize := 96, placement := .front, check := .validate } 2 h
        ledger ∧ (ledger 32).isSome ∧
      (Heap.call (.resize 32 40)).run h = .ok (.block (some 96)) h' ∧ h'.Rejects 32 := by
  have ran : ((do
      let laidOut ← init
      let answers ← Heap.run [.allocate 16, .allocate 16]
      let moved ← Heap.call (.resize 32 40)
      return (laidOut, answers, moved) :
        Action (Heap LimitedArena) (Except HeapError Unit × List Answer × Answer)).result
        (new (.withLimit 4096)
          { HeapConfig.standard with
            chunkSize := 96, placement := .front, check := .validate })).map (·.1) =
      .ok (.ok (), [.block (some 32), .block (some 64)], .block (some 96)) := by decide +kernel
  obtain ⟨h', ran⟩ := Action.exists_run_of_result ran
  obtain ⟨laidOut, h₁, first, ran⟩ := Action.run_bind_eq_ok.mp ran
  obtain ⟨answers, h, second, ran⟩ := Action.run_bind_eq_ok.mp ran
  obtain ⟨moved, h₂, third, ran⟩ := Action.run_bind_eq_ok.mp ran
  cases ran
  have served := (Serves.start first).run second ⟨fun _ => trivial, fun _ => trivial, trivial⟩
  have reached := served.reaches
  rcases Reaches.retired reached (by decide) rfl (by decide) third (by decide) with
    ⟨-, -, rejects⟩ | ⟨-, -, below, -⟩
  · exact ⟨h, h', _, reached, rfl, third, rejects⟩
  · contradiction

/-- The tags of a block of 32 bytes outlive its slide into the free block in front of it. -/
theorem Reaches.retired_usable :
    ∃ h h' ledger, Reaches (.withLimit 4096)
        { HeapConfig.standard with chunkSize := 96, placement := .front, check := .validate } 5 h
        ledger ∧ (ledger 64).isSome ∧
      (Heap.call (.resize 64 80)).run h = .ok (.block (some 32)) h' ∧
      h'.usableSize 64 = .ok (some 16) := by
  have ran : ((do
      let laidOut ← init
      let answers ← Heap.run [.allocate 16, .allocate 16, .allocate 16, .release 32, .release 96]
      let moved ← Heap.call (.resize 64 80)
      let usable ← Action.ask (·.usableSize 64)
      return (laidOut, answers, moved, usable) :
        Action (Heap LimitedArena)
          (Except HeapError Unit × List Answer × Answer × Option Nat)).result
        (new (.withLimit 4096)
          { HeapConfig.standard with
            chunkSize := 96, placement := .front, check := .validate })).map (·.1) =
      .ok (.ok (), [.block (some 32), .block (some 64), .block (some 96), .released, .released],
        .block (some 32), some 16) := by decide +kernel
  obtain ⟨h', ran⟩ := Action.exists_run_of_result ran
  obtain ⟨laidOut, h₁, first, ran⟩ := Action.run_bind_eq_ok.mp ran
  obtain ⟨answers, h, second, ran⟩ := Action.run_bind_eq_ok.mp ran
  obtain ⟨moved, h₂, third, ran⟩ := Action.run_bind_eq_ok.mp ran
  obtain ⟨usable, h₃, fourth, ran⟩ := Action.run_bind_eq_ok.mp ran
  cases ran
  have served := (Serves.start first).run second ⟨fun _ => trivial, fun _ => trivial,
    fun _ => trivial, fun _ => .inr rfl, fun _ => .inr rfl, trivial⟩
  refine ⟨h, h₂, _, served.reaches, rfl, third, ?_⟩
  rw [Action.run_ask] at fourth
  split at fourth <;> cases fourth
  assumption

end Heap

end BoundaryHeap
