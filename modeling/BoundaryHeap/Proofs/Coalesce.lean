import BoundaryHeap.Proofs.Gap

/-!
Joining a stretch of free memory with its free neighbours. Of the four cases each takes the free
neighbours off the list and widens the gap by them; what is left is one gap between allocated
blocks, which one free block fills.
-/

namespace BoundaryHeap

/-- The last block, if it is free. -/
def freeEnd (blocks : List ChainBlock) : Option ChainBlock := blocks.getLast?.filter (·.isFree)

/-- The first block, if it is free. -/
def freeStart (blocks : List ChainBlock) : Option ChainBlock := blocks.head?.filter (·.isFree)

/-- The blocks without the last one, if that is free. -/
def cutEnd (blocks : List ChainBlock) : List ChainBlock :=
  if (freeEnd blocks).isSome then blocks.dropLast else blocks

/-- The blocks without the first one, if that is free. -/
def cutStart (blocks : List ChainBlock) : List ChainBlock :=
  if (freeStart blocks).isSome then blocks.tail else blocks

/-- The free block that fills `[first, stop)` and its free neighbours. -/
def merged (front : List ChainBlock) (first stop : Nat) (behind : List ChainBlock) : ChainBlock :=
  let start := ((freeEnd front).map (·.bp)).getD first
  ⟨start, Tag.free (((freeStart behind).map (·.stop)).getD stop - start)⟩

/-- The row of nodes without a block, if there is one. -/
def dropNode (nodes : List ChainBlock) (node : Option ChainBlock) : List ChainBlock :=
  node.elim nodes nodes.erase

/-- The row of nodes without the free neighbours of a stretch. -/
def dropNeighbours (front behind nodes : List ChainBlock) : List ChainBlock :=
  dropNode (dropNode nodes (freeEnd front)) (freeStart behind)

theorem mem_dropNode {nodes : List ChainBlock} {node : Option ChainBlock} {c : ChainBlock}
    (other : node ≠ some c) (member : c ∈ nodes) : c ∈ dropNode nodes node := by
  cases node with
  | none => exact member
  | some d => exact (List.mem_erase_of_ne fun same => other (congrArg some same.symm)).mpr member

/-- The chain with `[first, stop)` joined with its free neighbours. -/
def mergedChain (front : List ChainBlock) (first stop : Nat) (behind : List ChainBlock) :
    List ChainBlock :=
  cutEnd front ++ merged front first stop behind :: cutStart behind

/-- The blocks of a chain that are handed out. -/
def usedOf (chain : List ChainBlock) : List ChainBlock := chain.filter (·.tag.allocated)

section Cases

variable {front behind : List ChainBlock} {a c : ChainBlock}

theorem freeEnd_of_free (free : a.isFree = true) : freeEnd (front ++ [a]) = some a := by
  simp [freeEnd, free]

theorem freeStart_of_free (free : c.isFree = true) : freeStart (c :: behind) = some c := by
  simp [freeStart, free]

theorem cutEnd_of_free (free : a.isFree = true) : cutEnd (front ++ [a]) = front := by
  simp [cutEnd, freeEnd_of_free free]

theorem cutStart_of_free (free : c.isFree = true) : cutStart (c :: behind) = behind := by
  simp [cutStart, freeStart_of_free free]

theorem freeEnd_of_used (used : a.isFree = false) : freeEnd (front ++ [a]) = none := by
  simp [freeEnd, used]

/-- What is in front of an allocated block is out of reach for what is behind it. -/
theorem mergedChain_of_used (used : a.isFree = false) (first stop : Nat) :
    mergedChain (front ++ [a]) first stop behind =
      front ++ a :: mergedChain [] first stop behind := by
  have none : freeEnd ([] : List ChainBlock) = none := rfl
  simp [mergedChain, merged, cutEnd, freeEnd_of_used used, none]

theorem merged_of_used (used : a.isFree = false) (first stop : Nat) :
    merged (front ++ [a]) first stop behind = merged [] first stop behind := by
  have none : freeEnd ([] : List ChainBlock) = none := rfl
  simp [merged, freeEnd_of_used used, none]

theorem dropNeighbours_of_used (used : a.isFree = false) (nodes : List ChainBlock) :
    dropNeighbours (front ++ [a]) behind nodes = dropNode nodes (freeStart behind) := by
  simp [dropNeighbours, dropNode, freeEnd_of_used used]

/-- Blocks end with a free one, or with what counts as allocated. -/
theorem end_cases (front : List ChainBlock) :
    (freeEnd front = none ∧ cutEnd front = front ∧ (lastTag front).allocated = true) ∨
      ∃ before a, front = before ++ [a] ∧ a.isFree = true := by
  rcases List.eq_nil_or_concat front with rfl | ⟨before, a, rfl⟩
  · exact .inl ⟨rfl, rfl, rfl⟩
  · rw [List.concat_eq_append]
    cases free : a.isFree with
    | true => exact .inr ⟨before, a, rfl, free⟩
    | false =>
      have none : freeEnd (before ++ [a]) = none := by simp [freeEnd, free]
      exact .inl ⟨none, by simp [cutEnd, none], by simpa using ChainBlock.isFree_eq_false.mp free⟩

/-- Blocks start with a free one, or with what counts as allocated. -/
theorem start_cases (behind : List ChainBlock) :
    (freeStart behind = none ∧ cutStart behind = behind ∧ (firstTag behind).allocated = true) ∨
      ∃ c after, behind = c :: after ∧ c.isFree = true := by
  cases behind with
  | nil => exact .inl ⟨rfl, rfl, rfl⟩
  | cons c after =>
    cases free : c.isFree with
    | true => exact .inr ⟨c, after, rfl, free⟩
    | false =>
      have none : freeStart (c :: after) = none := by simp [freeStart, free]
      exact .inl ⟨none, by simp [cutStart, none], ChainBlock.isFree_eq_false.mp free⟩

theorem freeStart_of_used (used : (firstTag behind).allocated = true) :
    freeStart behind = none := by
  rcases start_cases behind with ⟨none, -⟩ | ⟨c, after, rfl, free⟩
  · exact none
  · simp [ChainBlock.isFree_iff.mp free] at used

/-- A free block in front of a stretch ends where the stretch starts. -/
theorem freeEnd_adjoins {start first : Nat} (lead : Tiles start front first) :
    ((freeEnd front).map (·.bp)).getD first + ((freeEnd front).map (·.tag.size)).getD 0 =
      first := by
  rcases end_cases front with ⟨none, -⟩ | ⟨before, a, rfl, free⟩
  · rw [none]
    rfl
  · rw [freeEnd_of_free free]
    exact lead.stop_eq

/-- A free block behind a stretch starts where the stretch ends. -/
theorem freeStart_adjoins {stop last : Nat} (trail : Tiles stop behind last) :
    ((freeStart behind).map (·.stop)).getD stop =
      stop + ((freeStart behind).map (·.tag.size)).getD 0 := by
  rcases start_cases behind with ⟨none, -⟩ | ⟨c, after, rfl, free⟩
  · rw [none]
    rfl
  · obtain ⟨rfl, -⟩ := trail
    rw [freeStart_of_free free]
    rfl

/-- The block that fills a stretch and its free neighbours covers the stretch. -/
theorem merged_spans {start first stop last : Nat} (lead : Tiles start front first)
    (trail : Tiles stop behind last) :
    (merged front first stop behind).bp ≤ first ∧ stop ≤ (merged front first stop behind).stop := by
  have starts := freeEnd_adjoins lead
  have ends := freeStart_adjoins trail
  simp only [merged, ChainBlock.stop, Tag.free] at ends ⊢
  omega

/-- The stretch is idle once it is joined with its free neighbours. -/
theorem idle_of_stretch {start first stop last i : Nat} (lead : Tiles start front first)
    (trail : Tiles stop behind last) (above : first ≤ i + 8) (below : i + 8 < stop) :
    Idle (mergedChain front first stop behind) i := by
  obtain ⟨starts, ends⟩ := merged_spans lead trail
  refine ⟨merged front first stop behind, by simp [mergedChain], .inr ⟨rfl, ?_, ?_⟩⟩
  · exact Nat.le_trans starts above
  · exact Nat.lt_of_lt_of_le below ends

theorem mem_usedOf {chain : List ChainBlock} : c ∈ usedOf chain ↔ c ∈ chain ∧ c.isFree = false := by
  rw [usedOf, List.mem_filter, ChainBlock.isFree_eq_false]

theorem usedOf_append {xs ys : List ChainBlock} : usedOf (xs ++ ys) = usedOf xs ++ usedOf ys :=
  List.filter_append ..

theorem usedOf_cons_of_used (used : c.isFree = false) : usedOf (c :: behind) = c :: usedOf behind :=
  List.filter_cons_of_pos (ChainBlock.isFree_eq_false.mp used)

theorem usedOf_cons_of_free (free : c.isFree = true) : usedOf (c :: behind) = usedOf behind :=
  List.filter_cons_of_neg (by simp [ChainBlock.isFree_iff.mp free])

/-- A block in use can be counted before the others. -/
theorem usedOf_middle (used : c.isFree = false) :
    (usedOf (front ++ c :: behind)).Perm (c :: (usedOf front ++ usedOf behind)) := by
  rw [usedOf_append, usedOf_cons_of_used used]
  exact List.perm_middle

theorem cutEnd_subset : cutEnd front ⊆ front := by
  rcases end_cases front with ⟨-, same, -⟩ | ⟨before, a, rfl, free⟩
  · rw [same]
    exact List.Subset.refl front
  · rw [cutEnd_of_free free]
    exact List.subset_append_left ..

theorem usedOf_cutEnd : usedOf (cutEnd front) = usedOf front := by
  rcases end_cases front with ⟨-, same, -⟩ | ⟨before, a, rfl, free⟩
  · rw [same]
  · rw [cutEnd_of_free free, usedOf_append, usedOf_cons_of_free free]
    exact (List.append_nil _).symm

theorem usedOf_cutStart : usedOf (cutStart behind) = usedOf behind := by
  rcases start_cases behind with ⟨-, same, -⟩ | ⟨c, after, rfl, free⟩
  · rw [same]
  · rw [cutStart_of_free free, usedOf_cons_of_free free]

/-- Joining free memory changes nothing about what is handed out. -/
theorem usedOf_mergedChain (first stop : Nat) :
    usedOf (mergedChain front first stop behind) = usedOf front ++ usedOf behind := by
  rw [mergedChain, usedOf_append, usedOf_cons_of_free rfl, usedOf_cutEnd, usedOf_cutStart]

end Cases

namespace Region

variable {r r' : Region} {nodes front behind chain : List ChainBlock} {b c : ChainBlock}
  {touched : Nat → Prop} {first stop size bp : Nat}

theorem read_ensures {α β : Type} {question : Memory → Except Fault α} {answer : α}
    {next : α → Action Region β} {excused : Fault → Prop} {post : β → Region → Prop}
    (known : question r.memory = .ok answer) (rest : (next answer).Ensures r excused post) :
    (read question >>= next).Ensures r excused post :=
  .ask known rest

theorem blockSize_eq {m : Memory} {tag : Tag} (header : m.header bp = .ok tag) :
    m.blockSize bp = .ok tag.size := by
  rw [Memory.blockSize, header]
  rfl

/-- Relinking around a gap leaves the headers in it alone. -/
theorem Gap.header_kept (gap : r'.Gap front first stop behind nodes)
    (links : r.memory.ChangedOnly r'.memory (HasLinkOf nodes)) (above : first ≤ bp)
    (below : bp + 8 ≤ stop) : r'.memory.header bp = r.memory.header bp :=
  links.header fun i _ _ => gap.not_link (by omega) (by omega)

/-- The free neighbours of a stretch are off the list, which widens the gap to where the neighbours
are allocated. -/
structure Gathered (r : Region) (front : List ChainBlock) (first stop : Nat)
    (behind nodes : List ChainBlock) (found : Nat × Nat) (r' : Region) : Prop where
  found : found = ((merged front first stop behind).bp, (merged front first stop behind).tag.size)
  gap : r'.Gap (cutEnd front) (merged front first stop behind).bp
    (merged front first stop behind).stop (cutStart behind) (dropNeighbours front behind nodes)
  endUsed : (lastTag (cutEnd front)).allocated = true
  startUsed : (firstTag (cutStart behind)).allocated = true
  changed : r.memory.ChangedOnly r'.memory fun i => (merged front first stop behind).Covers i ∨
    HasLinkOf (dropNeighbours front behind nodes) i
  /-- The stretch itself is left alone. -/
  inside : ∀ i, first ≤ i + 8 → i + 8 < stop → r'.memory.byte i = r.memory.byte i

/-- A gap that has been widened as far as it goes, by its bounds and by what is left around it. -/
theorem Gathered.of_bounds {start last : Nat} {before after rest : List ChainBlock}
    {found : Nat × Nat} (starts : ((freeEnd front).map (·.bp)).getD first = start)
    (ends : ((freeStart behind).map (·.stop)).getD stop = last)
    (inFront : cutEnd front = before) (further : cutStart behind = after)
    (listed : dropNeighbours front behind nodes = rest) (same : found = (start, last - start))
    (gap : r'.Gap before start last after rest) (endUsed : (lastTag before).allocated = true)
    (startUsed : (firstTag after).allocated = true)
    (changed : r.memory.ChangedOnly r'.memory fun i => start ≤ i + 8 ∧ i + 8 < last ∨
      HasLinkOf rest i)
    (inside : ∀ i, first ≤ i + 8 → i + 8 < stop → r'.memory.byte i = r.memory.byte i) :
    r.Gathered front first stop behind nodes found r' := by
  subst inFront further listed
  have whole : merged front first stop behind = ⟨start, Tag.free (last - start)⟩ := by
    simp only [merged, starts, ends]
  have stops : (merged front first stop behind).stop = last := by
    rw [whole]
    exact Nat.add_sub_cancel' gap.ordered
  constructor
  · rw [same, whole]
    rfl
  · rw [stops, whole]
    exact gap
  · exact endUsed
  · exact startUsed
  · apply changed.mono
    rintro i (covered | linked)
    · rw [ChainBlock.Covers, stops, whole]
      exact .inl covered
    · exact .inr linked
  · exact inside

theorem Gap.precedingBlock {a : ChainBlock} (gap : r.Gap (front ++ [a]) a.stop stop behind nodes) :
    r.memory.precedingBlock a.stop = .ok a.bp := by
  rw [Memory.precedingBlock, gap.precedingTag, lastTag_append_singleton]
  show Checked.sub a.stop a.tag.size = .ok a.bp
  rw [ChainBlock.stop, Checked.sub_eq_ok (Nat.le_add_left ..), Nat.add_sub_cancel]

theorem gather_ensures (gap : r.Gap front first stop behind nodes)
    (own : r.memory.blockSize first = .ok (stop - first)) :
    (gather first).Ensures r Action.Total (r.Gathered front first stop behind nodes) := by
  have ordered := gap.ordered
  have bounded := gap.bounded
  have ends := gap.stop_le
  have sum : first + (stop - first) = stop := by omega
  unfold gather
  apply read_ensures own
  apply Action.Ensures.lift (Checked.add_eq_ok (by omega))
  rw [sum]
  apply read_ensures gap.precedingTag
  apply read_ensures gap.header_stop
  rcases end_cases front with ⟨endNone, endSame, endUsed⟩ | ⟨before, a, rfl, aFree⟩
  · rw [if_pos endUsed]
    rcases start_cases behind with ⟨startNone, startSame, startUsed⟩ | ⟨c, after, rfl, cFree⟩
    · -- no neighbour is free
      have listed : dropNeighbours front behind nodes = nodes := by
        simp [dropNeighbours, dropNode, endNone, startNone]
      rw [if_pos startUsed]
      exact .pure (.of_bounds (by simp [endNone]) (by simp [startNone]) endSame startSame listed rfl
        gap endUsed startUsed (.refl _) fun _ _ _ => rfl)
    · -- the one behind is
      obtain ⟨rfl, -⟩ := gap.trail
      have cOffered : ¬ (firstTag (c :: after)).allocated = true := by
        simp [ChainBlock.isFree_iff.mp cFree]
      have listed : dropNeighbours front (c :: after) nodes = nodes.erase c := by
        simp [dropNeighbours, dropNode, endNone, freeStart_of_free cFree]
      rw [if_neg cOffered]
      apply (gap.absorb_start_ensures cFree).bind
      rintro _ r₁ ⟨gap₁, header, startUsed, changed⟩
      have ends₁ := changed.size ▸ gap₁.stop_le
      simp only [ChainBlock.stop] at ends₁
      refine read_ensures (blockSize_eq header) (.lift (Checked.add_eq_ok (by omega)) (.pure ?_))
      have cLarge := (gap.holds.legal c (by simp)).large
      apply Gathered.of_bounds (by simp [endNone]) (by simp [freeStart_of_free cFree]) endSame
        (cutStart_of_free cFree) listed ?_ gap₁ endUsed startUsed (changed.mono fun i => .inr)
      · intro i above below
        exact changed.byte i (gap₁.not_link above (by simp only [ChainBlock.stop]; omega))
      · simp only [Prod.mk.injEq, true_and, ChainBlock.stop]
        omega
  · obtain rfl := gap.lead.stop_eq
    have aOffered : ¬ (lastTag (before ++ [a])).allocated = true := by
      simp [ChainBlock.isFree_iff.mp aFree]
    rw [if_neg aOffered]
    apply read_ensures gap.precedingBlock
    apply (gap.absorb_end_ensures aFree).bind
    rintro _ r₁ ⟨gap₁, aHeader, endUsed, changed₁⟩
    rcases start_cases behind with ⟨startNone, startSame, startUsed⟩ | ⟨c, after, rfl, cFree⟩
    · -- the one in front is
      have listed : dropNeighbours (before ++ [a]) behind nodes = nodes.erase a := by
        simp [dropNeighbours, dropNode, freeEnd_of_free aFree, startNone]
      rw [if_pos startUsed]
      simp only [ChainBlock.stop] at ordered sum ⊢
      refine read_ensures (blockSize_eq aHeader) (.lift (Checked.add_eq_ok (by omega)) (.pure ?_))
      apply Gathered.of_bounds (by simp [freeEnd_of_free aFree]) (by simp [startNone])
        (cutEnd_of_free aFree) startSame listed ?_ gap₁ endUsed startUsed
        (changed₁.mono fun i => .inr)
      · intro i above below
        exact changed₁.byte i (gap₁.not_link (by omega) below)
      · simp only [Prod.mk.injEq, true_and]
        omega
    · -- both are
      obtain ⟨rfl, -⟩ := gap.trail
      have cOffered : ¬ (firstTag (c :: after)).allocated = true := by
        simp [ChainBlock.isFree_iff.mp cFree]
      have listed : dropNeighbours (before ++ [a]) (c :: after) nodes =
          (nodes.erase a).erase c := by
        simp [dropNeighbours, dropNode, freeEnd_of_free aFree, freeStart_of_free cFree]
      rw [if_neg cOffered]
      apply (gap₁.absorb_start_ensures cFree).bind
      rintro _ r₂ ⟨gap₂, cHeader, startUsed, changed₂⟩
      have cLarge := (gap.holds.legal c (by simp)).large
      have ends₂ := gap₂.stop_le
      have size₁ := changed₁.size
      have size₂ := changed₂.size
      simp only [ChainBlock.stop] at ordered sum ends₂ ⊢
      have aKept := gap₂.header_kept changed₂ (Nat.le_refl a.bp)
        (by simp only [ChainBlock.stop]; omega)
      refine read_ensures (blockSize_eq (aKept.trans aHeader))
        (.lift (Checked.add_eq_ok (by omega)) ?_)
      refine read_ensures (blockSize_eq cHeader) (.lift (Checked.add_eq_ok (by omega)) (.pure ?_))
      apply Gathered.of_bounds (by simp [freeEnd_of_free aFree]) (by simp [freeStart_of_free cFree])
        (cutEnd_of_free aFree) (cutStart_of_free cFree) listed ?_ gap₂ endUsed startUsed
      · apply (changed₁.trans changed₂).mono
        rintro i (⟨d, dMem, linked⟩ | linked)
        · by_cases same : d = c
          · subst same
            have covered := linked.covers cLarge
            simp only [ChainBlock.Covers, ChainBlock.stop] at covered ⊢
            exact .inl (by omega)
          · exact .inr ⟨d, (List.mem_erase_of_ne same).mpr dMem, linked⟩
        · exact .inr linked
      · intro i above below
        rw [changed₂.byte i (gap₂.not_link (by omega) (by simp only [ChainBlock.stop]; omega)),
          changed₁.byte i (gap₁.not_link (by omega) below)]
      · simp only [Prod.mk.injEq, true_and, ChainBlock.stop]
        omega

/-- Coalescing settles a region that is at rest but for one stretch of free memory. Nothing is
written outside the tags and the free blocks of the chain it comes to, and in the stretch no more
than tags and links. -/
theorem coalesce_ensures (gap : r.Gap front first stop behind nodes)
    (own : r.memory.blockSize first = .ok (stop - first)) (large : first + 32 ≤ stop) :
    (coalesce first).Ensures r Action.Total fun start r' =>
      start = (merged front first stop behind).bp ∧
        r'.Settled (mergedChain front first stop behind)
          (FreeList.enter (merged front first stop behind) (dropNeighbours front behind nodes)) ∧
        r.memory.ChangedOnly r'.memory (Idle (mergedChain front first stop behind)) ∧
        Rewired r.memory r'.memory first stop (mergedChain front first stop behind)
          (FreeList.enter (merged front first stop behind)
            (dropNeighbours front behind nodes)) := by
  unfold coalesce
  apply (gather_ensures gap own).bind
  have ⟨below, above⟩ := merged_spans gap.lead gap.trail
  rintro _ r₁ ⟨rfl, gap₁, endUsed, startUsed, gathered, inside⟩
  unfold mergedChain
  have same : (⟨(merged front first stop behind).bp,
      Tag.free (merged front first stop behind).tag.size⟩ : ChainBlock) =
        merged front first stop behind := rfl
  have free : (merged front first stop behind).isFree = true := rfl
  generalize merged front first stop behind = whole at *
  have starts := gap₁.firstAligned
  have ends := gap₁.stopAligned
  have legal : Block.LegalSize whole.tag.size := by
    simp only [ChainBlock.stop] at above ends
    simp only [Block.LegalSize, Block.alignment, Block.minSize]
    omega
  refine gap₁.offer_ensures legal (Nat.le_refl _) endUsed fun r₂ gap₂ offered => ?_
  rw [same] at gap₂ offered
  have settled := gap₂.close (.inr startUsed)
  rw [List.append_assoc, List.singleton_append] at settled
  refine .pure ⟨rfl, settled, (gathered.trans offered).mono ?_, ?_⟩
  swap
  · intro i above below unwired
    rw [offered.byte i, inside i above below]
    rintro (tagged | linked)
    · exact unwired (.inl ⟨whole, by simp, tagged⟩)
    · exact unwired (.inr linked)
  have linked : ∀ i, HasLinkOf (FreeList.enter whole (dropNeighbours front behind nodes)) i →
      Idle (cutEnd front ++ whole :: cutStart behind) i := by
    rintro i ⟨c, member, linked⟩
    obtain ⟨known, free⟩ := settled.mem_nodes.mp member
    exact ⟨c, known, .inr ⟨free, linked.covers (settled.holds.legal c known).large⟩⟩
  rintro i ((covered | ⟨c, member, linkedTo⟩) | (tagged | linkedTo))
  · exact ⟨whole, by simp, .inr ⟨free, covered⟩⟩
  · exact linked i ⟨c, FreeList.mem_enter.mpr (.inr member), linkedTo⟩
  · exact ⟨whole, by simp, .inl tagged⟩
  · exact linked i linkedTo

end Region

end BoundaryHeap
