import BoundaryHeap.Proofs.Coalesce

/-!
Taking an allocation out of a free block, giving back the tail of an allocated one, and freeing it.
For each the chain that it comes to is named, and nothing is written outside the tags and the free
blocks of that chain.
-/

namespace BoundaryHeap

/-- The block that is handed out of the free block `b` for `size` bytes. -/
def taken (policy : Placement) (b : ChainBlock) (size : Nat) : ChainBlock :=
  if b.tag.size < size + 32 then ⟨b.bp, Tag.used b.tag.size⟩
  else match policy.side size with
    | .front => ⟨b.bp, Tag.used size⟩
    | .back => ⟨b.bp + (b.tag.size - size), Tag.used size⟩

/-- What stays free of it in front of the block handed out. -/
def spareFront (policy : Placement) (b : ChainBlock) (size : Nat) : List ChainBlock :=
  if b.tag.size < size + 32 then []
  else match policy.side size with
    | .front => []
    | .back => [⟨b.bp, Tag.free (b.tag.size - size)⟩]

/-- What stays free of it behind the block handed out. -/
def spareBehind (policy : Placement) (b : ChainBlock) (size : Nat) : List ChainBlock :=
  if b.tag.size < size + 32 then []
  else match policy.side size with
    | .front => [⟨b.bp + size, Tag.free (b.tag.size - size)⟩]
    | .back => []

/-- The row of nodes with some blocks put in their places. -/
def enterAll (blocks nodes : List ChainBlock) : List ChainBlock := blocks.foldr FreeList.enter nodes

/-- The chain with `size` bytes handed out of the free block `b`. -/
def placedChain (policy : Placement) (front : List ChainBlock) (b : ChainBlock) (size : Nat)
    (behind : List ChainBlock) : List ChainBlock :=
  front ++
    (spareFront policy b size ++ taken policy b size :: (spareBehind policy b size ++ behind))

/-- The row of nodes with `size` bytes handed out of the free block `b`. -/
def placedNodes (policy : Placement) (b : ChainBlock) (size : Nat) (nodes : List ChainBlock) :
    List ChainBlock :=
  enterAll (spareFront policy b size ++ spareBehind policy b size) (nodes.erase b)

/-- The allocated block that is kept of `[first, stop)` for `size` bytes. -/
def kept (first stop size : Nat) : ChainBlock :=
  ⟨first, Tag.used (if stop < first + size + 32 then stop - first else size)⟩

/-- The blocks behind it, once its tail has been given back. -/
def tailChain (first stop size : Nat) (behind : List ChainBlock) : List ChainBlock :=
  if stop < first + size + 32 then behind else mergedChain [] (first + size) stop behind

/-- The row of nodes, once its tail has been given back. -/
def tailNodes (first stop size : Nat) (behind nodes : List ChainBlock) : List ChainBlock :=
  if stop < first + size + 32 then nodes
  else FreeList.enter (merged [] (first + size) stop behind) (dropNode nodes (freeStart behind))

/-- Of two block sizes less than a smallest block apart, one exceeds the other by a unit at most. -/
theorem Block.LegalSize.eq_or_eq_add {size total : Nat} (legal : Block.LegalSize size)
    (whole : Block.LegalSize total) (fits : size ≤ total) (close : total < size + 32) :
    total = size ∨ total = size + 16 := by
  simp only [Block.LegalSize, Block.alignment] at legal whole
  omega

section Pieces

variable {policy : Placement} {b : ChainBlock} {size : Nat} {front behind : List ChainBlock}

theorem taken_used : (taken policy b size).isFree = false := by
  unfold taken
  split
  · rfl
  · cases policy.side size <;> rfl

theorem le_taken (fits : size ≤ b.tag.size) : size ≤ (taken policy b size).tag.size := by
  unfold taken
  split
  · exact fits
  · cases policy.side size <;> exact Nat.le_refl size

theorem taken_lt : (taken policy b size).tag.size < size + 32 := by
  unfold taken
  split
  · assumption
  · cases policy.side size <;> exact Nat.lt_add_of_pos_right (by decide)

theorem usedOf_spareFront : usedOf (spareFront policy b size) = [] := by
  unfold spareFront
  split
  · rfl
  · cases policy.side size <;> rfl

theorem usedOf_spareBehind : usedOf (spareBehind policy b size) = [] := by
  unfold spareBehind
  split
  · rfl
  · cases policy.side size <;> rfl

/-- Of the free block that serves an allocation, only the block handed out is in use. -/
theorem usedOf_placedChain : usedOf (placedChain policy front b size behind) =
    usedOf front ++ taken policy b size :: usedOf behind := by
  rw [placedChain, usedOf_append, usedOf_append, usedOf_cons_of_used taken_used, usedOf_append,
    usedOf_spareFront, usedOf_spareBehind, List.nil_append, List.nil_append]

end Pieces

/-- Giving back a tail in front of an allocated block takes nothing off the list. -/
theorem mem_tailNodes {first stop size : Nat} {behind nodes : List ChainBlock} {c : ChainBlock}
    (used : (firstTag behind).allocated = true) (member : c ∈ nodes) :
    c ∈ tailNodes first stop size behind nodes := by
  rw [tailNodes, freeStart_of_used used]
  split
  · exact member
  · exact FreeList.mem_enter.mpr (.inr member)

namespace Region

variable {r r' : Region} {nodes front behind chain : List ChainBlock} {b c : ChainBlock}
  {touched : Nat → Prop} {first stop size bp : Nat} {policy : Placement}

/-- No payload of an allocated block is idle. -/
theorem Settled.not_idle (settled : r.Settled chain nodes) (member : b ∈ chain)
    (used : b.isFree = false) {i : Nat} (payload : b.HasPayload i) : ¬ Idle chain i := by
  rintro ⟨c, cMem, idle⟩
  have cLarge := (settled.holds.legal c cMem).large
  by_cases same : c = b
  · subst same
    rcases idle with tagged | ⟨free, -⟩
    · exact payload.not_hasTag tagged
    · exact absurd (free.symm.trans used) (by simp)
  · have apart := settled.holds.apart c cMem b member same
    rcases idle with tagged | ⟨-, covered⟩
    · exact apart.not_covers (tagged.covers cLarge) payload.covers
    · exact apart.not_covers covered payload.covers

/-- The links of the free list are idle. -/
theorem Settled.idle_of_link (settled : r.Settled chain nodes) {i : Nat}
    (linked : HasLinkOf nodes i) :
    Idle chain i := by
  obtain ⟨c, member, linked⟩ := linked
  obtain ⟨known, free⟩ := settled.mem_nodes.mp member
  exact ⟨c, known, .inr ⟨free, linked.covers (settled.holds.legal c known).large⟩⟩

/-- Placing an allocation in a free block of the list that is large enough. -/
theorem place_ensures (settled : r.Settled (front ++ b :: behind) nodes) (free : b.isFree = true)
    (legal : Block.LegalSize size) (fits : size ≤ b.tag.size) :
    (place policy b.bp size).Ensures r Action.Total fun bp r' =>
      bp = (taken policy b size).bp ∧
        r'.Settled (placedChain policy front b size behind) (placedNodes policy b size nodes) ∧
        r.memory.ChangedOnly r'.memory (Idle (placedChain policy front b size behind)) := by
  rw [place, placedChain, placedNodes]
  apply (settled.detach_ensures free).bind
  rintro _ r₁ ⟨gap, header, endUsed, startUsed, unlinked⟩
  apply read_ensures (blockSize_eq header)
  apply Action.Ensures.lift (Checked.sub_eq_ok fits)
  have large := (settled.holds.legal b (by simp)).large
  have ends := gap.stop_le
  have bounded := gap.bounded
  simp only [ChainBlock.stop] at ends
  by_cases small : b.tag.size < size + 32
  · -- the whole block is handed out
    have little : b.tag.size - size < Block.minSize := by simp only [Block.minSize]; omega
    simp only [taken, spareFront, spareBehind, if_pos small, if_pos little]
    apply (gap.take_ensures (settled.holds.legal b (by simp)).size (Nat.le_refl _)).bind
    rintro _ r₂ ⟨gap₂, marked⟩
    have settled₂ := gap₂.close (.inl (by simp [Tag.used]))
    rw [List.append_assoc, List.singleton_append] at settled₂
    refine .pure ⟨rfl, settled₂, (unlinked.trans marked).mono ?_⟩
    rintro i (linked | tagged)
    · exact settled₂.idle_of_link linked
    · exact ⟨_, by simp, .inl tagged⟩
  · have much : ¬ b.tag.size - size < Block.minSize := by simp only [Block.minSize]; omega
    have restLegal : Block.LegalSize (b.tag.size - size) := by
      have whole := (settled.holds.legal b (by simp)).size.1
      have part := legal.1
      simp only [Block.LegalSize, Block.alignment, Block.minSize] at whole part ⊢
      omega
    rw [if_neg much]
    cases side : policy.side size with
    | front =>
      simp only [taken, spareFront, spareBehind, if_neg small, side]
      apply (gap.take_ensures legal (by simp only [ChainBlock.stop]; omega)).bind
      rintro _ r₂ ⟨gap₂, marked⟩
      apply Action.Ensures.lift (Checked.add_eq_ok (by omega))
      have rest : b.bp + size + (b.tag.size - size) = b.stop := by
        simp only [ChainBlock.stop]
        omega
      apply gap₂.offer_ensures restLegal (Nat.le_of_eq rest) (by simp [Tag.used])
      intro r₃ gap₃ offered
      rw [rest] at gap₃
      have settled₃ := gap₃.close (.inr startUsed)
      simp only [List.append_assoc, List.singleton_append] at settled₃
      refine .pure ⟨rfl, settled₃, ((unlinked.trans marked).trans offered).mono ?_⟩
      rintro i ((⟨c, member, linked⟩ | tagged) | (tagged | linked))
      · exact settled₃.idle_of_link ⟨c, FreeList.mem_enter.mpr (.inr member), linked⟩
      · exact ⟨_, by simp, .inl tagged⟩
      · exact ⟨_, by simp, .inl tagged⟩
      · exact settled₃.idle_of_link linked
    | back =>
      simp only [taken, spareFront, spareBehind, if_neg small, side]
      apply gap.offer_ensures restLegal (by simp only [ChainBlock.stop]; omega) endUsed
      intro r₂ gap₂ offered
      apply Action.Ensures.lift (Checked.add_eq_ok (by omega))
      have rest : b.bp + (b.tag.size - size) + size = b.stop := by
        simp only [ChainBlock.stop]
        omega
      apply (gap₂.take_ensures legal (Nat.le_of_eq rest)).bind
      rintro _ r₃ ⟨gap₃, marked⟩
      rw [rest] at gap₃
      have settled₃ := gap₃.close (.inr startUsed)
      simp only [List.append_assoc, List.singleton_append] at settled₃
      refine .pure ⟨rfl, settled₃, ((unlinked.trans offered).trans marked).mono ?_⟩
      rintro i ((⟨c, member, linked⟩ | (tagged | linked)) | tagged)
      · exact settled₃.idle_of_link ⟨c, FreeList.mem_enter.mpr (.inr member), linked⟩
      · exact ⟨_, by simp, .inl tagged⟩
      · exact settled₃.idle_of_link linked
      · exact ⟨_, by simp, .inl tagged⟩

/-- Of the words in a block only its own are wired: its tags, and its links while it is free. -/
theorem Settled.wired_within (settled : r.Settled chain nodes) (member : b ∈ chain) {i : Nat}
    (covered : b.Covers i) (wired : Wired chain nodes i) :
    b.HasTag i ∨ b.isFree = true ∧ b.HasLink i := by
  rcases wired with ⟨c, cMem, tagged⟩ | ⟨c, listed, linked⟩
  · by_cases same : b = c
    · exact .inl (same ▸ tagged)
    · have apart := settled.holds.apart b member c cMem same
      exact absurd (tagged.covers (settled.holds.legal c cMem).large) (apart.not_covers covered)
  · obtain ⟨cMem, free⟩ := settled.mem_nodes.mp listed
    by_cases same : b = c
    · exact .inr ⟨same ▸ free, same ▸ linked⟩
    · have apart := settled.holds.apart b member c cMem same
      exact absurd (linked.covers (settled.holds.legal c cMem).large) (apart.not_covers covered)

/-- What was the header of a stretch of free memory still tells of free memory once the stretch is
joined with its free neighbours. -/
theorem Gap.header_coalesced (gap : r.Gap front first stop behind nodes)
    (header : r.memory.header first = .ok (Tag.free (stop - first))) (large : first + 32 ≤ stop)
    {chain' nodes' : List ChainBlock} (settled : r'.Settled chain' nodes')
    (member : merged front first stop behind ∈ chain')
    (rewired : Rewired r.memory r'.memory first stop chain' nodes')
    (size : r'.memory.size = r.memory.size) :
    ∃ rest, r'.memory.header first = .ok (Tag.free rest) ∧ first + rest ≤ r'.memory.size := by
  have ⟨below, above⟩ := merged_spans gap.lead gap.trail
  have firstGe := gap.first_ge
  have stopLe := gap.stop_le
  rcases end_cases front with ⟨none, -⟩ | ⟨before, a, rfl, free⟩
  · -- the stretch is the start of what it is joined to
    have starts : (merged front first stop behind).bp = first := by simp [merged, none]
    have tagged := (settled.holds.tagged _ member).header
    have within := (settled.holds.within _ member).2
    rw [starts] at tagged
    simp only [ChainBlock.stop, starts] at within
    exact ⟨_, tagged, within⟩
  · -- its header is now inside, past the links
    have starts : (merged (before ++ [a]) first stop behind).bp = a.bp := by
      simp [merged, freeEnd_of_free free]
    obtain rfl := gap.lead.stop_eq
    have aLarge := (gap.holds.legal a (by simp)).large
    refine ⟨stop - a.stop, ?_, by omega⟩
    rw [← header, Memory.header_eq_readTag (by omega), Memory.header_eq_readTag (by omega)]
    refine rewired.readTag size (by omega) (by omega) fun i after under wired => ?_
    have past : a.bp + 32 ≤ a.stop := Nat.add_le_add_left aLarge _
    have covered : (merged (before ++ [a]) a.stop stop behind).Covers i := by
      simp only [ChainBlock.Covers, starts]
      omega
    have own := settled.wired_within member covered wired
    simp only [ChainBlock.HasTag, ChainBlock.HasLink, starts] at own
    omega

/-- Freeing an allocated block joins it with its free neighbours. -/
theorem free_ensures (settled : r.Settled (front ++ b :: behind) nodes) (used : b.isFree = false) :
    (Region.free b.bp).Ensures r Action.Total fun start r' =>
      start = (merged front b.bp b.stop behind).bp ∧
        r'.Settled (mergedChain front b.bp b.stop behind)
          (FreeList.enter (merged front b.bp b.stop behind) (dropNeighbours front behind nodes)) ∧
        r.memory.ChangedOnly r'.memory (Idle (mergedChain front b.bp b.stop behind)) ∧
        ∃ rest, r'.memory.header b.bp = .ok (Tag.free rest) ∧ b.bp + rest ≤ r'.memory.size := by
  have legal := settled.holds.legal b (by simp)
  have tagged := settled.holds.tagged b (by simp)
  unfold Region.free
  apply read_ensures (blockSize_eq tagged.header)
  apply ((settled.gap used).stamp_ensures (Tag.free b.tag.size) rfl legal.large).bind
  rintro _ r₁ ⟨gap, header, stamped⟩
  have whole : b.stop - b.bp = b.tag.size := by
    simp only [ChainBlock.stop]
    omega
  have own : r₁.memory.blockSize b.bp = .ok (b.stop - b.bp) := by
    rw [blockSize_eq header, whole]
    rfl
  apply (coalesce_ensures gap own (by have := legal.large; omega)).imp
  rintro start r₂ ⟨starts, settled₂, changed, rewired⟩
  have freed := gap.header_coalesced (whole ▸ header) (Nat.add_le_add_left legal.large _) settled₂
    (by simp [mergedChain]) rewired changed.size
  refine ⟨starts, settled₂, (stamped.trans changed).mono ?_, freed⟩
  rintro i (tagged | idle)
  · have covered := tagged.covers (b := ⟨b.bp, Tag.free b.tag.size⟩) legal.large
    exact idle_of_stretch gap.lead gap.trail covered.1 covered.2
  · exact idle

/-- Keeping the start of a gap as an allocated block and giving back the rest. In front of an
allocated block no more is written than tags and links. -/
theorem trim_ensures (gap : r.Gap front first stop behind nodes) {total : Nat}
    (whole : first + total = stop) (legal : Block.LegalSize size) (fits : size ≤ total) :
    (trim first total size).Ensures r Action.Total fun _ r' =>
      r'.Settled (front ++ kept first stop size :: tailChain first stop size behind)
          (tailNodes first stop size behind nodes) ∧
        r.memory.ChangedOnly r'.memory
          (Idle (front ++ kept first stop size :: tailChain first stop size behind)) ∧
        ((firstTag behind).allocated = true → Rewired r.memory r'.memory first stop
          (front ++ kept first stop size :: tailChain first stop size behind)
          (tailNodes first stop size behind nodes)) := by
  have starts := gap.firstAligned
  have ends := gap.stopAligned
  have large := legal.2
  have part := legal.1
  simp only [Block.alignment, Block.minSize] at large part
  have below := gap.stop_le
  have bounded := gap.bounded
  subst whole
  unfold trim
  apply Action.Ensures.lift (Checked.sub_eq_ok fits)
  by_cases small : first + total < first + size + 32
  · have little : total - size < Block.minSize := by simp only [Block.minSize]; omega
    have rest : first + total - first = total := by omega
    simp only [kept, tailChain, tailNodes, if_pos small, if_pos little, rest]
    have wholeLegal : Block.LegalSize total := by
      simp only [Block.LegalSize, Block.alignment, Block.minSize]
      omega
    apply (gap.take_ensures wholeLegal (Nat.le_refl _)).imp
    rintro _ r₁ ⟨gap₁, marked⟩
    have settled₁ := gap₁.close (.inl (by simp [Tag.used]))
    rw [List.append_assoc, List.singleton_append] at settled₁
    refine ⟨settled₁, marked.mono fun i tagged => ⟨_, by simp, .inl tagged⟩, ?_⟩
    exact fun _ i _ _ unwired => marked.byte i fun tagged => unwired (.inl ⟨_, by simp, tagged⟩)
  · have much : ¬ total - size < Block.minSize := by simp only [Block.minSize]; omega
    simp only [kept, tailChain, tailNodes, if_neg small, if_neg much]
    apply (gap.take_ensures legal (by omega)).bind
    rintro _ r₁ ⟨gap₁, marked⟩
    apply Action.Ensures.lift (Checked.add_eq_ok (by omega))
    refine (gap₁.stamp_ensures (Tag.free (total - size)) ?_ ?_).bind ?_
    · simp only [Tag.free]
      omega
    · simp only [Tag.free]
      omega
    rintro _ r₂ ⟨gap₂, header, stamped⟩
    have own : r₂.memory.blockSize (first + size) = .ok (first + total - (first + size)) := by
      rw [blockSize_eq header, Tag.free, Nat.add_sub_add_left]
    apply (coalesce_ensures gap₂ own (by omega)).bind
    rintro _ r₃ ⟨-, settled₃, changed, rewired⟩
    have used : (⟨first, Tag.used size⟩ : ChainBlock).isFree = false := rfl
    have stretch : ∀ i, first + size ≤ i + 8 → i + 8 < first + total →
        Idle (front ++ ⟨first, Tag.used size⟩ :: mergedChain [] (first + size) (first + total)
          behind) i := fun i above below => by
      rw [← mergedChain_of_used used]
      exact idle_of_stretch gap₂.lead gap₂.trail above below
    rw [mergedChain_of_used used, merged_of_used used, dropNeighbours_of_used used] at settled₃
    rw [mergedChain_of_used used] at changed
    rw [mergedChain_of_used used, merged_of_used used, dropNeighbours_of_used used] at rewired
    refine .pure ⟨settled₃, ((marked.trans stamped).trans changed).mono ?_, ?_⟩
    swap
    · intro startUsed i above below unwired
      have tail : merged [] (first + size) (first + total) behind =
          ⟨first + size, Tag.free (total - size)⟩ := by
        simp only [merged, freeStart_of_used startUsed, Option.map_none, Option.getD_none]
        rw [show freeEnd ([] : List ChainBlock) = none from rfl, Option.map_none, Option.getD_none,
          Nat.add_sub_add_left]
      have later : r₃.memory.byte i = r₂.memory.byte i := by
        by_cases tailed : first + size ≤ i + 8
        · exact rewired i tailed below unwired
        · refine changed.byte i (settled₃.not_idle (by simp) used ?_)
          have headless : ¬ ChainBlock.HasTag ⟨first, Tag.used size⟩ i := fun tagged =>
            unwired (.inl ⟨_, by simp, tagged⟩)
          simp only [ChainBlock.HasTag, ChainBlock.HasPayload, ChainBlock.stop, Tag.used] at *
          omega
      rw [later,
        stamped.byte i fun tagged => unwired (.inl ⟨_, by simp [mergedChain, tail], tagged⟩),
        marked.byte i fun tagged => unwired (.inl ⟨_, by simp, tagged⟩)]
    rintro i ((tagged | tagged) | idle)
    · exact ⟨_, by simp, .inl tagged⟩
    · have covered := tagged.covers (b := ⟨first + size, Tag.free (total - size)⟩) (by
        simp only [Tag.free]; omega)
      simp only [ChainBlock.Covers, ChainBlock.stop, Tag.free] at covered
      exact stretch i covered.1 (by omega)
    · exact idle

/-- Every byte of a gap that is trimmed lies in the payload that is kept, or is idle. -/
theorem Gap.payload_or_idle (gap : r.Gap front first stop behind nodes) (fits : first + size ≤ stop)
    {i : Nat} (above : first ≤ i + 8) (below : i + 8 < stop) :
    (kept first stop size).HasPayload i ∨
      Idle (front ++ kept first stop size :: tailChain first stop size behind) i := by
  by_cases inside : (kept first stop size).Covers i
  · by_cases payload : (kept first stop size).HasPayload i
    · exact .inl payload
    · refine .inr ⟨kept first stop size, by simp, .inl ?_⟩
      simp only [ChainBlock.Covers, ChainBlock.HasPayload, ChainBlock.HasTag] at *
      have starts : (kept first stop size).bp = first := rfl
      omega
  · have beyond : (kept first stop size).stop ≤ i + 8 := by
      simp only [ChainBlock.Covers, not_and, not_lt] at inside
      exact inside above
    simp only [ChainBlock.stop, kept, Tag.used] at beyond
    by_cases small : stop < first + size + 32
    · rw [if_pos small] at beyond
      omega
    · rw [if_neg small] at beyond
      have lead : Tiles (first + size) [] (first + size) := rfl
      obtain ⟨c, member, idle⟩ := idle_of_stretch lead gap.trail beyond below
      rw [tailChain, if_neg small]
      exact .inr ⟨c, by simp [member], idle⟩

end Region

end BoundaryHeap
