import BoundaryHeap.Proofs.Allocate

/-!
What a release and a resize do to a heap in service, for a pointer that is live. A resize takes one
of four ways: it trims the block where it is, grows it into the free block behind, slides it down
into the free block before, or moves it to a fresh block and frees the old one.
-/

namespace BoundaryHeap

namespace Region.Settled

variable {r : Region} {chain nodes : List ChainBlock} {b : ChainBlock}

/-- The test of a pointer accepts every live one. -/
theorem liveBlock_eq (settled : r.Settled chain nodes) (member : b ∈ chain)
    (used : b.isFree = false) : r.memory.liveBlock 16 b.bp = .ok (.ok b.tag) := by
  have within := settled.holds.within b member
  have legal := settled.holds.legal b member
  have tagged := settled.holds.tagged b member
  have bounded := settled.bounded
  have large := legal.large
  simp only [ChainBlock.stop] at within
  have above : ¬ b.bp < 16 + Block.prologueSize := by simp only [Block.prologueSize]; omega
  have word : b.bp + Block.wordSize < wordLimit := by simp only [Block.wordSize]; omega
  have inside : ¬ r.memory.size < b.bp + Block.wordSize := by simp only [Block.wordSize]; omega
  have aligned : ¬ b.bp % Block.alignment ≠ 0 := not_not.mpr legal.aligned
  have legalSize : ¬ ¬ Block.LegalSize b.tag.size := not_not.mpr legal.size
  have fits : b.bp + b.tag.size < wordLimit := by omega
  have ends : ¬ r.memory.size < b.bp + b.tag.size := by omega
  have same : ¬ b.tag ≠ b.tag := not_not.mpr rfl
  have allocated : ¬ ¬ b.tag.allocated = true := not_not.mpr (ChainBlock.isFree_eq_false.mp used)
  have footer : r.memory.readTag (b.bp + b.tag.size - 16) = .ok b.tag := tagged.footer
  rw [Memory.liveBlock, Fault.bind_of_ok (Checked.add_eq_ok (by decide)), if_neg above,
    Fault.bind_of_ok (Checked.add_eq_ok word), if_neg inside, if_neg aligned,
    Fault.bind_of_ok tagged.header, if_neg legalSize, Fault.bind_of_ok (Checked.add_eq_ok fits),
    if_neg ends, Fault.bind_of_ok (Block.footerOffset_eq_ok fits (by omega)),
    Fault.bind_of_ok footer, if_neg same, if_neg allocated]
  rfl

end Region.Settled

/-! ## Room around a block -/

namespace Region

variable {r : Region} {front behind nodes : List ChainBlock} {first stop : Nat}

/-- The bytes of the free block that a row ends with, none if it ends otherwise. -/
def roomInFront (front : List ChainBlock) : Nat := ((freeEnd front).map (·.tag.size)).getD 0

theorem roomInFront_of_free {a : ChainBlock} (free : a.isFree = true) :
    roomInFront (front ++ [a]) = a.tag.size := by
  simp [roomInFront, freeEnd_of_free free]

theorem roomBehind_of_free {c : ChainBlock} (free : c.isFree = true) :
    roomBehind (c :: behind) = c.tag.size := by
  simp [roomBehind, freeStart_of_free free]

/-- The room in front of a block, if there is any, is that of the free block there. -/
theorem exists_of_roomInFront (room : roomInFront front ≠ 0) :
    ∃ before a, front = before ++ [a] ∧ a.isFree = true ∧ roomInFront front = a.tag.size := by
  rcases end_cases front with ⟨none, -⟩ | ⟨before, a, rfl, free⟩
  · exact absurd (by simp [roomInFront, none]) room
  · exact ⟨before, a, rfl, free, roomInFront_of_free free⟩

theorem exists_of_roomBehind (room : roomBehind behind ≠ 0) :
    ∃ c after, behind = c :: after ∧ c.isFree = true ∧ roomBehind behind = c.tag.size := by
  rcases start_cases behind with ⟨none, -⟩ | ⟨c, after, rfl, free⟩
  · exact absurd (by simp [roomBehind, none]) room
  · exact ⟨c, after, rfl, free, roomBehind_of_free free⟩

theorem freeSize_lastTag (front : List ChainBlock) :
    Heap.freeSize (lastTag front) = roomInFront front := by
  rcases end_cases front with ⟨none, -, used⟩ | ⟨before, a, rfl, free⟩
  · simp [Heap.freeSize, roomInFront, none, used]
  · simp [Heap.freeSize, roomInFront_of_free free, ChainBlock.isFree_iff.mp free]

theorem freeSize_firstTag (behind : List ChainBlock) :
    Heap.freeSize (firstTag behind) = roomBehind behind := by
  rcases start_cases behind with ⟨none, -, used⟩ | ⟨c, after, rfl, free⟩
  · simp [Heap.freeSize, roomBehind, none, used]
  · simp [Heap.freeSize, roomBehind_of_free free, ChainBlock.isFree_iff.mp free]

namespace Gap

theorem roomInFront_le (gap : r.Gap front first stop behind nodes) :
    32 + roomInFront front ≤ first := by
  rcases end_cases front with ⟨none, -⟩ | ⟨before, a, rfl, free⟩
  · simpa [roomInFront, none] using gap.first_ge
  · obtain ⟨above, below⟩ := gap.lead.within (b := a) (by simp)
    rw [roomInFront_of_free free]
    simp only [ChainBlock.stop] at below
    omega

theorem roomBehind_le (gap : r.Gap front first stop behind nodes) :
    stop + roomBehind behind ≤ r.memory.size := by
  rcases start_cases behind with ⟨none, -⟩ | ⟨c, after, rfl, free⟩
  · simpa [roomBehind, none] using gap.stop_le
  · obtain ⟨above, below⟩ := gap.trail.within (b := c) (by simp)
    rw [roomBehind_of_free free]
    simp only [ChainBlock.stop] at below
    omega

end Gap

end Region

namespace Heap

open Region (roomInFront roomBehind)

variable {h h' : Heap LimitedArena} {front behind chain nodes chain' nodes' : List ChainBlock}
  {b : ChainBlock}
  {excused : Fault → Prop} {request size : Nat}

/-- The pointer of an allocated block is accepted, whether it is tested or not. -/
theorem readyFor_run (laid : h.Laid chain nodes) (member : b ∈ chain) (used : b.isFree = false)
    (symbol : String) : (readyFor symbol b.bp).run h = .ok true h := by
  have known : (readyFor symbol b.bp).Ensures h Action.Total fun answer h' =>
      answer = true ∧ h' = h := by
    unfold readyFor
    apply ready_ensures laid
    rw [if_pos rfl, accepts]
    apply view_ensures rfl
    have live : h.memory.liveBlock h.prologue b.bp = .ok (.ok b.tag) := by
      rw [laid.prologue]
      exact laid.settled.liveBlock_eq member used
    cases h.config.check.testsPointers with
    | true => exact .ask live (.pure ⟨rfl, rfl⟩)
    | false => exact .pure ⟨rfl, rfl⟩
  obtain ⟨_, _, ran, rfl, rfl⟩ := known.exists_run
  exact ran

theorem readyFor_ensures {β : Type} {post : β → Heap LimitedArena → Prop} {symbol : String}
    {next : Bool → Action (Heap LimitedArena) β} (laid : h.Laid chain nodes) (member : b ∈ chain)
    (used : b.isFree = false) (rest : (next true).Ensures h excused post) :
    (readyFor symbol b.bp >>= next).Ensures h excused post :=
  .step (readyFor_run laid member used symbol) rest

/-- How a release of the block `b` changes a heap: `b` is joined with its free neighbours. -/
structure Released (h : Heap LimitedArena) (front : List ChainBlock) (b : ChainBlock)
    (behind nodes : List ChainBlock) (h' : Heap LimitedArena) : Prop where
  laid : h'.Laid (mergedChain front b.bp b.stop behind)
    (FreeList.enter (merged front b.bp b.stop behind) (dropNeighbours front behind nodes))
  advances : h.Advances h'
  counters : h'.counters = { h.counters with frees := h.counters.frees + 1 }
  changed : h.memory.ChangedOnly h'.memory (Idle (mergedChain front b.bp b.stop behind))
  /-- The header at the old place tells of a free block, even from inside a larger one. -/
  left : ∃ rest, h'.memory.header b.bp = .ok (Tag.free rest) ∧ b.bp + rest ≤ h'.memory.size

theorem Released.keeps (released : Released h front b behind nodes h') :
    Keeps h.memory h'.memory (usedOf front ++ usedOf behind) := by
  rw [← usedOf_mergedChain b.bp b.stop]
  exact released.laid.settled.keeps (r := h.region) released.changed

theorem Edited.released {r : Region}
    (edited : h.Edited r (fun c => { c with frees := c.frees + 1 }) h')
    (laid : h.Laid (front ++ b :: behind) nodes)
    (settled : r.Settled (mergedChain front b.bp b.stop behind)
      (FreeList.enter (merged front b.bp b.stop behind) (dropNeighbours front behind nodes)))
    (changed : h.memory.ChangedOnly r.memory (Idle (mergedChain front b.bp b.stop behind)))
    (left : ∃ rest, r.memory.header b.bp = .ok (Tag.free rest) ∧ b.bp + rest ≤ r.memory.size) :
    Released h front b behind nodes h' where
  laid := edited.laid laid settled
  advances := edited.advances changed.size rfl rfl fun _ within =>
    { within.succ with frees := Nat.succ_le_succ within.frees }
  counters := edited.counters
  changed := edited.memory ▸ changed
  left := edited.memory ▸ left

/-- Releasing a live block joins it with its free neighbours. -/
theorem releaseAs_ensures (laid : h.Laid (front ++ b :: behind) nodes) (used : b.isFree = false)
    (symbol : String) :
    (releaseAs symbol b.bp).Ensures h excused fun _ h' => Released h front b behind nodes h' := by
  have member : b ∈ front ++ b :: behind := by simp
  have within := laid.settled.holds.within b member
  have some : ¬ b.bp = 0 := by omega
  rw [releaseAs, if_neg some]
  apply readyFor_ensures laid member used
  rw [if_pos rfl]
  refine .ask (Region.blockSize_eq (laid.settled.holds.tagged b member).header) ?_
  apply edit_ensures (Region.free_ensures laid.settled used)
  rintro _ r ⟨rfl, settled, changed, left⟩
  apply count_ensures
  exact .of_run rfl (Edited.released (agrees_withRecord ..) laid settled changed left)

theorem releaseAs_zero_ensures (h : Heap LimitedArena) (symbol : String) :
    (releaseAs symbol 0).Ensures h excused fun _ h' => Agrees h h' := by
  rw [releaseAs, if_pos rfl]
  exact .of_run rfl (agrees_withRecord ..)

/-! ## The four ways of a resize -/

/-- Where a block finds room does not depend on the order of the tests. -/
theorem Room.of_cases {before current after : Nat} (size : Nat)
    (fits : before + current + after < wordLimit) :
    (Room.of before current after size = .ok .behind ∧
        before = 0 ∧ after ≠ 0 ∧ size ≤ current + after) ∨
      (Room.of before current after size = .ok .around ∧
        before ≠ 0 ∧ size ≤ before + current + after) ∨
      (Room.of before current after size = .ok .elsewhere ∧
        if before = 0 then after = 0 ∨ current + after < size
        else before + current + after < size) := by
  unfold Room.of
  by_cases alone : before = 0
  · rw [if_pos alone, if_pos alone]
    by_cases tight : after = 0
    · rw [if_pos tight]
      exact .inr (.inr ⟨rfl, .inl tight⟩)
    · rw [if_neg tight, Fault.bind_of_ok (Checked.add_eq_ok (by omega))]
      by_cases enough : size ≤ current + after
      · rw [if_pos enough]
        exact .inl ⟨rfl, alone, tight, enough⟩
      · rw [if_neg enough]
        exact .inr (.inr ⟨rfl, .inr (by omega)⟩)
  · rw [if_neg alone, if_neg alone, Fault.bind_of_ok (Checked.add_eq_ok (by omega)),
      Fault.bind_of_ok (Checked.add_eq_ok fits)]
    by_cases enough : size ≤ before + current + after
    · rw [if_pos enough]
      exact .inr (.inl ⟨rfl, alone, enough⟩)
    · rw [if_neg enough]
      exact .inr (.inr ⟨rfl, by omega⟩)

/-- How a resize of the block `b` to `size` bytes, for a request of `request`, changes a heap. The
first three ways leave the memory as long as it is. -/
inductive Resized (h : Heap LimitedArena) (front : List ChainBlock) (b : ChainBlock)
    (behind nodes : List ChainBlock) (size request : Nat) :
    Nat → Heap LimitedArena → List ChainBlock → List ChainBlock → Prop
  /-- The block is large enough, and its tail is given back. -/
  | trimmed {r : Region} {h' : Heap LimitedArena} (enough : size ≤ b.tag.size)
    (edited : h.Edited r (fun c => { c with reallocsInPlace := c.reallocsInPlace + 1 }) h')
    (settled : r.Settled (front ++ kept b.bp b.stop size :: tailChain b.bp b.stop size behind)
      (tailNodes b.bp b.stop size behind nodes))
    (changed : h.memory.ChangedOnly r.memory
      (Idle (front ++ kept b.bp b.stop size :: tailChain b.bp b.stop size behind))) :
    Resized h front b behind nodes size request b.bp h'
      (front ++ kept b.bp b.stop size :: tailChain b.bp b.stop size behind)
      (tailNodes b.bp b.stop size behind nodes)
  /-- The block grows into the free block behind it. -/
  | grown {c : ChainBlock} {after : List ChainBlock} {r : Region} {h' : Heap LimitedArena}
    (next : behind = c :: after) (free : c.isFree = true) (small : b.tag.size < size)
    (fits : size ≤ b.tag.size + c.tag.size) (alone : roomInFront front = 0)
    (edited : h.Edited r (fun c => { c with reallocsInPlace := c.reallocsInPlace + 1 }) h')
    (settled : r.Settled (front ++ kept b.bp c.stop size :: tailChain b.bp c.stop size after)
      (tailNodes b.bp c.stop size after (nodes.erase c)))
    (changed : h.memory.ChangedOnly r.memory
      (Idle (front ++ kept b.bp c.stop size :: tailChain b.bp c.stop size after))) :
    Resized h front b behind nodes size request b.bp h'
      (front ++ kept b.bp c.stop size :: tailChain b.bp c.stop size after)
      (tailNodes b.bp c.stop size after (nodes.erase c))
  /-- The block slides down into the free block before it. -/
  | slid {a : ChainBlock} {before : List ChainBlock} {stop : Nat} {r : Region}
    {h' : Heap LimitedArena} (prev : front = before ++ [a]) (free : a.isFree = true)
    (small : b.tag.size < size) (ends : stop = b.stop + roomBehind behind)
    (fits : a.bp + size ≤ stop)
    (edited : h.Edited r
      (fun c => { c with reallocsAbsorbedPrev := c.reallocsAbsorbedPrev + 1 }) h')
    (settled : r.Settled
      (before ++ kept a.bp stop size :: tailChain a.bp stop size (cutStart behind))
      (tailNodes a.bp stop size (cutStart behind) (dropNode (nodes.erase a) (freeStart behind))))
    (changed : h.memory.ChangedOnly r.memory (fun i => (kept a.bp stop size).HasPayload i ∨
      Idle (before ++ kept a.bp stop size :: tailChain a.bp stop size (cutStart behind)) i))
    (carried : ∀ index, index + 16 < b.tag.size →
      (kept a.bp stop size).HasPayload (a.bp + index) →
        r.memory.byte (a.bp + index) = h.memory.byte (b.bp + index))
    (left : Rewired h.memory r.memory (a.bp + b.tag.size - 8) b.stop
      (before ++ kept a.bp stop size :: tailChain a.bp stop size (cutStart behind))
      (tailNodes a.bp stop size (cutStart behind)
        (dropNode (nodes.erase a) (freeStart behind)))) :
    Resized h front b behind nodes size request a.bp h'
      (before ++ kept a.bp stop size :: tailChain a.bp stop size (cutStart behind))
      (tailNodes a.bp stop size (cutStart behind) (dropNode (nodes.erase a) (freeStart behind)))
  /-- The block moves to a fresh one. -/
  | moved {t : ChainBlock} {h₁ : Heap LimitedArena} {front' behind' nodes₁ : List ChainBlock}
    {r : Region} {h' : Heap LimitedArena} (small : b.tag.size < size)
    (cramped : Room.of (roomInFront front) b.tag.size (roomBehind behind) size =
      .ok .elsewhere)
    (allocated : Allocated h (front ++ b :: behind) nodes size t h₁ (front' ++ b :: behind') nodes₁)
    (edited : h₁.Edited r (fun c => { c with reallocsMoved := c.reallocsMoved + 1 }) h')
    (settled : r.Settled (mergedChain front' b.bp b.stop behind')
      (FreeList.enter (merged front' b.bp b.stop behind') (dropNeighbours front' behind' nodes₁)))
    (changed : h₁.memory.ChangedOnly r.memory (fun i => t.HasPayload i ∨
      Idle (mergedChain front' b.bp b.stop behind') i))
    (carried : ∀ index < min (b.tag.size - 16) request,
      r.memory.byte (t.bp + index) = h₁.memory.byte (b.bp + index))
    (left : ∃ rest, r.memory.header b.bp = .ok (Tag.free rest) ∧ b.bp + rest ≤ r.memory.size) :
    Resized h front b behind nodes size request t.bp h' (mergedChain front' b.bp b.stop behind')
      (FreeList.enter (merged front' b.bp b.stop behind') (dropNeighbours front' behind' nodes₁))

/-- An allocation hands out an allocated block. -/
theorem Allocated.isUsed {t : ChainBlock}
    (allocated : Allocated h chain nodes size t h' chain' nodes') :
    t ∈ chain' ∧ t.isFree = false :=
  mem_usedOf.mp (allocated.used.mem_iff.mpr (List.mem_cons_self ..))

theorem Allocated.close {t : ChainBlock}
    (allocated : Allocated h chain nodes size t h' chain' nodes') : t.tag.size < size + 32 := by
  obtain ⟨_, _, _, _, _, -, -, rfl, -, -⟩ := allocated.served
  exact taken_lt

/-- An allocation leaves the blocks in use where they are, and hands out none of them. -/
theorem Allocated.around {t : ChainBlock}
    (allocated : Allocated h chain nodes size t h' chain' nodes') (member : b ∈ chain)
    (used : b.isFree = false) :
    ∃ front behind, chain' = front ++ b :: behind ∧ t ∈ front ++ behind := by
  have inUse : b ∈ usedOf chain := mem_usedOf.mpr ⟨member, used⟩
  have still : b ∈ usedOf chain' := allocated.used.mem_iff.mpr (List.mem_cons_of_mem _ inUse)
  obtain ⟨front, behind, rfl⟩ := List.append_of_mem (mem_usedOf.mp still).1
  have different : t ≠ b := fun same =>
    allocated.laid.settled.bp_ne allocated.used inUse (same ▸ rfl)
  have found := allocated.isUsed.1
  simp only [List.mem_append, List.mem_cons, different, false_or] at found
  exact ⟨front, behind, rfl, List.mem_append.mpr found⟩

/-- What a resize of the live block `b` to `request` bytes answers, and what it leaves. -/
inductive ResizeOutcome (h : Heap LimitedArena) (front : List ChainBlock) (b : ChainBlock)
    (behind nodes : List ChainBlock) (request : Nat) :
    Option Nat → Heap LimitedArena → List ChainBlock → List ChainBlock → Prop
  /-- The request is too large for 64 bits, or there is no memory for it, around the block or
  elsewhere. -/
  | refused {h' : Heap LimitedArena} (agrees : Agrees h.failed h')
    (lacks : ∀ size, Block.sizeFor request = some size → h.Lacks nodes size)
    (cramped : ∀ size, Block.sizeFor request = some size → b.tag.size < size ∧
      Room.of (roomInFront front) b.tag.size (roomBehind behind) size = .ok .elsewhere) :
    ResizeOutcome h front b behind nodes request none h' (front ++ b :: behind) nodes
  | resized {size ptr : Nat} {h' : Heap LimitedArena} {chain' nodes' : List ChainBlock}
    (found : Block.sizeFor request = some size)
    (way : Resized h front b behind nodes size request ptr h' chain' nodes') :
    ResizeOutcome h front b behind nodes request (some ptr) h' chain' nodes'

/-- A resize of the live block `b` to `request` bytes has to move it, and would make the arena
burst. -/
def ResizeBursts (h : Heap LimitedArena) (front : List ChainBlock) (b : ChainBlock)
    (behind nodes : List ChainBlock) (request : Nat) : Prop :=
  ∃ size, Block.sizeFor request = some size ∧ b.tag.size < size ∧
    Room.of (roomInFront front) b.tag.size (roomBehind behind) size = .ok .elsewhere ∧
    h.Bursts nodes size

theorem ResizeBursts.overreaches (bursts : h.ResizeBursts front b behind nodes request)
    (some : request ≠ 0) : h.Overreaches nodes request := by
  obtain ⟨size, found, -, -, bursts⟩ := bursts
  exact AllocateBursts.overreaches ⟨some, size, found, bursts⟩

/-- Enlarging a live block, or leaving it as it is for lack of memory. -/
theorem enlarge_ensures (laid : h.Laid (front ++ b :: behind) nodes) (used : b.isFree = false)
    (symbol : String) (found : Block.sizeFor request = some size) (some : request ≠ 0)
    (small : b.tag.size < size) :
    (enlarge symbol b.bp b.tag.size size request).Ensures h
      (Overgrown (h.ResizeBursts front b behind nodes request)) fun answer h' =>
        ∃ chain' nodes', ResizeOutcome h front b behind nodes request answer h' chain' nodes' := by
  have settled := laid.settled
  have gap := settled.gap used
  obtain ⟨legal, room⟩ := Block.sizeFor_eq_some found
  have bounded := settled.bounded
  have above := gap.first_ge
  have below := gap.stop_le
  have ends := gap.roomBehind_le
  have starts := gap.roomInFront_le
  simp only [ChainBlock.stop] at below ends
  unfold enlarge
  apply Action.Ensures.lift (Checked.add_eq_ok (by omega))
  refine .ask gap.header_stop (.ask gap.precedingTag ?_)
  rw [Region.freeSize_lastTag, Region.freeSize_firstTag]
  have total : roomInFront front + b.tag.size + roomBehind behind < wordLimit := by omega
  rcases Room.of_cases size total with ⟨place, alone, more, fits⟩ | ⟨place, more, fits⟩ |
    ⟨place, -⟩
  · obtain ⟨c, after, rfl, free, room⟩ := Region.exists_of_roomBehind more
    rw [room] at fits place ⊢
    apply Action.Ensures.lift place
    apply edit_ensures (Region.growInPlace_ensures settled used free legal fits)
    rintro _ r ⟨settled', changed⟩
    refine count_ensures (record_ensures fun h' edited => .pure ?_)
    exact ⟨_, _, .resized found (.grown rfl free small fits alone edited settled' changed)⟩
  · obtain ⟨before, a, rfl, free, room⟩ := Region.exists_of_roomInFront more
    rw [room] at fits place starts ⊢
    apply Action.Ensures.lift place
    have same : before ++ [a] ++ b :: behind = before ++ a :: b :: behind := by simp
    have meet := gap.lead.stop_eq
    have fits' : a.bp + size ≤ b.stop + roomBehind behind := by
      simp only [ChainBlock.stop] at *
      omega
    refine edit_ensures
      (Region.slideDown_ensures (same ▸ settled) free used legal rfl fits') ?_
    rintro _ r ⟨rfl, settled', changed, carried, left⟩
    refine count_ensures (record_ensures fun h' edited => .pure ?_)
    exact ⟨_, _, .resized found
      (.slid rfl free small rfl fits' edited settled' changed carried left)⟩
  · apply Action.Ensures.lift place
    refine ((allocateAs_ensures laid symbol request).overgrown ?_).bind ?_
    · rintro ⟨-, _, known, bursts⟩
      obtain rfl := Option.some.inj (found.symm.trans known)
      exact ⟨size, found, small, place, bursts⟩
    rintro _ h₁ ⟨_, _, outcome⟩
    cases outcome with
    | nothing empty => exact absurd empty some
    | refused _ agrees lacks =>
      refine .pure ⟨_, _, .refused agrees lacks fun _ known => ?_⟩
      obtain rfl := Option.some.inj (found.symm.trans known)
      exact ⟨small, place⟩
    | @served _ t _ _ _ _ known allocated =>
      obtain rfl := Option.some.inj (found.symm.trans known)
      obtain ⟨front', behind', rfl, target⟩ := allocated.around (by simp) used
      have settled₁ := allocated.laid.settled
      have fits : request + 16 ≤ t.tag.size := Nat.le_trans room allocated.enough
      refine edit_ensures
        (Region.moveTo_ensures settled₁ used target allocated.isUsed.2 fits) ?_
      rintro _ r ⟨settled', changed, carried, left⟩
      refine count_ensures (record_ensures fun h' edited => .pure ?_)
      exact ⟨_, _, .resized found
        (.moved small place allocated edited settled' changed carried left)⟩

theorem resizeAs_null (symbol : String) (request : Nat) :
    resizeAs (A := LimitedArena) symbol 0 request = allocateAs symbol request := by
  rw [resizeAs, if_pos rfl]

theorem resizeAs_zero (symbol : String) {ptr : Nat} (some : ptr ≠ 0) :
    resizeAs (A := LimitedArena) symbol ptr 0 = (do releaseAs symbol ptr; return none) := by
  rw [resizeAs, if_neg some, if_pos rfl]

/-- Resizing a live block to some bytes. -/
theorem resizeAs_ensures (laid : h.Laid (front ++ b :: behind) nodes) (used : b.isFree = false)
    (symbol : String) (some : request ≠ 0) :
    (resizeAs symbol b.bp request).Ensures h
      (Overgrown (h.ResizeBursts front b behind nodes request)) fun answer h' =>
      ∃ chain' nodes', ResizeOutcome h front b behind nodes request answer h' chain' nodes' := by
  have member : b ∈ front ++ b :: behind := by simp
  have within := laid.settled.holds.within b member
  have live : ¬ b.bp = 0 := by omega
  have serves : ¬ (!true) = true := by decide
  rw [resizeAs, if_neg live, if_neg some]
  apply readyFor_ensures laid member used
  rw [if_neg serves]
  apply (sized_ensures h symbol request).bind
  rintro _ h₁ (⟨size, rfl, found, rfl⟩ | ⟨rfl, found, agrees⟩)
  swap
  · refine .pure ⟨_, _, .refused agrees (fun _ known => ?_) fun _ known => ?_⟩ <;>
      cases found.symm.trans known
  refine .ask (Region.blockSize_eq (laid.settled.holds.tagged b member).header) ?_
  by_cases enough : size ≤ b.tag.size
  · rw [if_pos enough]
    obtain ⟨legal, -⟩ := Block.sizeFor_eq_some found
    apply edit_ensures (Region.trim_ensures (laid.settled.gap used) rfl legal enough)
    rintro _ r ⟨settled, changed, -⟩
    refine count_ensures (record_ensures fun h' edited => .pure ?_)
    exact ⟨_, _, .resized found (.trimmed enough edited settled changed)⟩
  · rw [if_neg enough]
    exact enlarge_ensures laid used symbol found some (by omega)

/-! ## What the four ways have in common -/

/-- The block `b` gives way to `b'`, which holds the start of what `b` held and is no larger than a
block of `size` bytes has to be. -/
structure Carried (h : Heap LimitedArena) (others : List ChainBlock) (b b' : ChainBlock)
    (size request : Nat) (h' : Heap LimitedArena) (chain' : List ChainBlock) : Prop where
  used : (usedOf chain').Perm (b' :: others)
  enough : size ≤ b'.tag.size
  close : b'.tag.size < size + 32
  keeps : Keeps h.memory h'.memory others
  bytes : ∀ index < min (b.tag.size - 16) request,
    h'.memory.byte (b'.bp + index) = h.memory.byte (b.bp + index)

theorem usedOf_kept (front rest : List ChainBlock) (first stop size : Nat) :
    usedOf (front ++ kept first stop size :: tailChain first stop size rest) =
      usedOf front ++ kept first stop size :: usedOf rest := by
  have tail : usedOf (tailChain first stop size rest) = usedOf rest := by
    unfold tailChain
    split
    · rfl
    · rw [usedOf_mergedChain]
      rfl
  rw [usedOf_append, usedOf_cons_of_used rfl, tail]

theorem le_kept {first stop : Nat} (fits : first + size ≤ stop) :
    size ≤ (kept first stop size).tag.size := by
  simp only [kept, Tag.used]
  split <;> omega

theorem kept_lt {first stop : Nat} : (kept first stop size).tag.size < size + 32 := by
  simp only [kept, Tag.used]
  split <;> omega

/-- A block that is resized where it is. -/
theorem Carried.in_place {rest : List ChainBlock} {r : Region} {stop : Nat}
    (memory : h'.memory = r.memory)
    (settled : r.Settled (front ++ kept b.bp stop size :: tailChain b.bp stop size rest) nodes)
    (changed : h.memory.ChangedOnly r.memory
      (Idle (front ++ kept b.bp stop size :: tailChain b.bp stop size rest)))
    (fits : b.bp + size ≤ stop) (room : request + 16 ≤ size) :
    Carried h (usedOf front ++ usedOf rest) b (kept b.bp stop size) size request h'
      (front ++ kept b.bp stop size :: tailChain b.bp stop size rest) := by
  have enough := le_kept fits
  have moved : (usedOf (front ++ kept b.bp stop size :: tailChain b.bp stop size rest)).Perm
      (kept b.bp stop size :: (usedOf front ++ usedOf rest)) := by
    rw [usedOf_kept]
    exact List.perm_middle
  refine ⟨moved, enough, kept_lt, ?_, fun index within => ?_⟩
  · rw [memory]
    exact settled.keeps_others (r := h.region) moved (changed.mono fun _ => .inr)
  · rw [memory]
    refine settled.payload_kept (r := h.region) changed (by simp) rfl ⟨Nat.le_add_right .., ?_⟩
    have starts : (kept b.bp stop size).bp = b.bp := rfl
    simp only [ChainBlock.stop]
    omega

/-- A block that slides down into the free block `a` before it. -/
theorem Carried.down {a : ChainBlock} {rest : List ChainBlock} {r : Region} {stop : Nat}
    (memory : h'.memory = r.memory) (free : a.isFree = true)
    (settled : r.Settled (front ++ kept a.bp stop size :: tailChain a.bp stop size rest) nodes)
    (changed : h.memory.ChangedOnly r.memory (fun i => (kept a.bp stop size).HasPayload i ∨
      Idle (front ++ kept a.bp stop size :: tailChain a.bp stop size rest) i))
    (carried : ∀ index, index + 16 < b.tag.size →
      (kept a.bp stop size).HasPayload (a.bp + index) →
        r.memory.byte (a.bp + index) = h.memory.byte (b.bp + index))
    (fits : a.bp + size ≤ stop) (room : request + 16 ≤ size) :
    Carried h (usedOf (front ++ [a]) ++ usedOf rest) b (kept a.bp stop size) size request h'
      (front ++ kept a.bp stop size :: tailChain a.bp stop size rest) := by
  have enough := le_kept fits
  have fewer : usedOf (front ++ [a]) = usedOf front := by
    rw [usedOf_append, usedOf_cons_of_free free]
    exact List.append_nil _
  have moved : (usedOf (front ++ kept a.bp stop size :: tailChain a.bp stop size rest)).Perm
      (kept a.bp stop size :: (usedOf (front ++ [a]) ++ usedOf rest)) := by
    rw [usedOf_kept, fewer]
    exact List.perm_middle
  constructor
  · exact moved
  · exact enough
  · exact kept_lt
  · rw [memory]
    exact settled.keeps_others (r := h.region) moved changed
  · intro index within
    rw [memory]
    apply carried index (by omega) ⟨Nat.le_add_right .., _⟩
    have starts : (kept a.bp stop size).bp = a.bp := rfl
    simp only [ChainBlock.stop]
    omega

/-- Of the blocks in use before an allocation and the release of one of them, the block handed out
takes the place of the one released. -/
theorem Allocated.used_of_released {t : ChainBlock} {front' behind' nodes₁ : List ChainBlock}
    (allocated : Allocated h (front ++ b :: behind) nodes size t h' (front' ++ b :: behind') nodes₁)
    (used : b.isFree = false) :
    (usedOf front' ++ usedOf behind').Perm (t :: (usedOf front ++ usedOf behind)) := by
  have before := allocated.used
  rw [usedOf_append, usedOf_cons_of_used used, usedOf_append, usedOf_cons_of_used used] at before
  apply List.Perm.cons_inv (a := b)
  calc b :: (usedOf front' ++ usedOf behind')
    List.Perm _ (usedOf front' ++ b :: usedOf behind') := List.perm_middle.symm
    List.Perm _ (t :: (usedOf front ++ b :: usedOf behind)) := before
    List.Perm _ (t :: b :: (usedOf front ++ usedOf behind)) := .cons t List.perm_middle
    List.Perm _ (b :: t :: (usedOf front ++ usedOf behind)) := .swap ..

/-- A block that moves to a fresh one. -/
theorem Carried.away {t : ChainBlock} {h₁ : Heap LimitedArena}
    {front' behind' nodes₁ nodes₂ : List ChainBlock} {r : Region} (memory : h'.memory = r.memory)
    (used : b.isFree = false)
    (allocated : Allocated h (front ++ b :: behind) nodes size t h₁ (front' ++ b :: behind') nodes₁)
    (settled : r.Settled (mergedChain front' b.bp b.stop behind') nodes₂)
    (changed : h₁.memory.ChangedOnly r.memory (fun i => t.HasPayload i ∨
      Idle (mergedChain front' b.bp b.stop behind') i))
    (carried : ∀ index < min (b.tag.size - 16) request,
      r.memory.byte (t.bp + index) = h₁.memory.byte (b.bp + index)) :
    Carried h (usedOf front ++ usedOf behind) b t size request h'
      (mergedChain front' b.bp b.stop behind') := by
  have moved : (usedOf (mergedChain front' b.bp b.stop behind')).Perm
      (t :: (usedOf front ++ usedOf behind)) := by
    rw [usedOf_mergedChain]
    exact allocated.used_of_released used
  constructor
  · exact moved
  · exact allocated.enough
  · exact allocated.close
  · rw [memory]
    apply (allocated.keeps.subset _).trans
      (settled.keeps_others (r := h₁.region) moved changed)
    rw [usedOf_append, usedOf_cons_of_used used]
    exact around_sublist.subset
  · intro index within
    have held : b.HasPayload (b.bp + index) :=
      ⟨Nat.le_add_right .., by simp only [ChainBlock.stop]; omega⟩
    rw [memory, carried index within]
    exact allocated.keeps b (mem_usedOf.mpr ⟨by simp, used⟩) _ held

theorem Resized.advances {ptr : Nat}
    (resized : Resized h front b behind nodes size request ptr h' chain' nodes') :
    h.Advances h' := by
  cases resized with
  | trimmed enough edited settled changed =>
    exact edited.advances changed.size rfl rfl fun _ within =>
      { within.succ with reallocsInPlace := Nat.succ_le_succ within.reallocsInPlace }
  | grown next free small fits alone edited settled changed =>
    exact edited.advances changed.size rfl rfl fun _ within =>
      { within.succ with reallocsInPlace := Nat.succ_le_succ within.reallocsInPlace }
  | slid prev free small ends fits edited settled changed bytes left =>
    exact edited.advances changed.size rfl rfl fun _ within =>
      { within.succ with reallocsAbsorbedPrev := Nat.succ_le_succ within.reallocsAbsorbedPrev }
  | moved small cramped allocated edited settled changed bytes left =>
    refine ⟨allocated.continues.trans (edited.continues changed.size rfl rfl), ?_⟩
    intro bound within
    have before := allocated.counters
    simp only [Counters.served, Counters.mk.injEq] at before
    rw [edited.counters]
    exact
      { allocated.advances.within bound within with
        reallocsMoved := before.2.2.2.2.1 ▸ Nat.succ_le_succ within.reallocsMoved }

/-- Whichever way a resize takes, the others keep their payloads. -/
theorem Resized.carried {ptr : Nat} (laid : h.Laid (front ++ b :: behind) nodes)
    (used : b.isFree = false) (found : Block.sizeFor request = some size)
    (resized : Resized h front b behind nodes size request ptr h' chain' nodes') :
    ∃ b', b'.bp = ptr ∧ h'.Laid chain' nodes' ∧
      Carried h (usedOf front ++ usedOf behind) b b' size request h' chain' := by
  obtain ⟨legal, room⟩ := Block.sizeFor_eq_some found
  cases resized with
  | trimmed enough edited settled changed =>
    have fits : b.bp + size ≤ b.stop := Nat.add_le_add_left enough _
    exact ⟨kept b.bp b.stop size, rfl, edited.laid laid settled,
      .in_place edited.memory settled changed fits room⟩
  | @grown c after r _ next free small fits alone edited settled changed =>
    subst next
    have meet : c.bp = b.bp + b.tag.size := (laid.settled.gap used).trail.1
    have fits' : b.bp + size ≤ c.stop := by
      simp only [ChainBlock.stop]
      omega
    rw [usedOf_cons_of_free free]
    exact ⟨kept b.bp c.stop size, rfl, edited.laid laid settled,
      .in_place edited.memory settled changed fits' room⟩
  | @slid a before stop r _ prev free small ends fits edited settled changed bytes left =>
    subst prev
    have carried := Carried.down edited.memory free settled changed bytes fits room
    rw [usedOf_cutStart] at carried
    exact ⟨kept a.bp stop size, rfl, edited.laid laid settled, carried⟩
  | @moved t h₁ front' behind' nodes₁ r _ small cramped allocated edited settled changed bytes
      left =>
    exact ⟨t, rfl, edited.laid allocated.laid settled,
      .away edited.memory used allocated settled changed bytes⟩

end Heap

end BoundaryHeap
