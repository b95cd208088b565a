import BoundaryHeap.Proofs.Place

/-!
Writing and moving payloads. A write into an allocated block leaves the region as it is laid out;
a block that grows takes its free neighbours into a gap first, and what it held is carried over
before anything else is written there.
-/

namespace BoundaryHeap.Region

variable {r r' : Region} {nodes front behind chain : List ChainBlock} {a b c : ChainBlock}
  {touched : Nat → Prop} {first stop size bp : Nat}

theorem writeRange_ensures {offset : Nat} {values : List UInt8}
    (inside : offset + values.length ≤ r.memory.size) :
    (onMemory (Memory.writeRange offset values)).Ensures r Action.Total fun _ r' =>
      r'.freeList = r.freeList ∧
        r.memory.ChangedOnly r'.memory (fun i => offset ≤ i ∧ i < offset + values.length) ∧
        ∀ index (_ : index < values.length), r'.memory.byte (offset + index) = values[index] := by
  have run : (onMemory (Memory.writeRange offset values)).run r =
      .ok () ⟨r.memory.setSlice offset values, r.freeList⟩ := by
    rw [onMemory, Action.run_focus, Memory.run_writeRange inside]
  exact .of_run run ⟨rfl, Memory.setSlice_changedOnly _ inside,
    fun index within => Memory.byte_setSlice _ inside within⟩

theorem copy_ensures {source target count : Nat} (readable : source + count ≤ r.memory.size)
    (writable : target + count ≤ r.memory.size) :
    (onMemory (Memory.copy source target count)).Ensures r Action.Total fun _ r' =>
      r'.freeList = r.freeList ∧
        r.memory.ChangedOnly r'.memory (fun i => target ≤ i ∧ i < target + count) ∧
        ∀ index < count, r'.memory.byte (target + index) = r.memory.byte (source + index) := by
  have values : r.memory.readRange source (source + count) = .ok (r.memory.slice source count) := by
    rw [Memory.readRange, if_pos ⟨Nat.le_add_right .., readable⟩, Nat.add_sub_cancel_left]
  have fits : target + (r.memory.slice source count).length ≤ r.memory.size := by
    rwa [Memory.length_slice]
  have run : (onMemory (Memory.copy source target count)).run r =
      .ok () ⟨r.memory.setSlice target (r.memory.slice source count), r.freeList⟩ := by
    rw [onMemory, Action.run_focus, Memory.copy, EStateM.run_bind, Action.run_ask, values]
    simp only [Memory.run_writeRange fits]
  have changed := Memory.setSlice_changedOnly r.memory fits
  rw [Memory.length_slice] at changed
  refine .of_run run ⟨rfl, changed, fun index within => ?_⟩
  have written : index < (r.memory.slice source count).length := by rwa [Memory.length_slice]
  rw [Memory.byte_setSlice r.memory fits written, ← Option.some.injEq, ← List.getElem?_eq_getElem,
    Memory.getElem?_slice r.memory within]

namespace Settled

/-- Writes into the payload of an allocated block leave the layout alone. -/
theorem frame (settled : r.Settled chain nodes) (list : r'.freeList = r.freeList)
    (changed : r.memory.ChangedOnly r'.memory touched) (member : b ∈ chain)
    (used : b.isFree = false) (inside : ∀ i, touched i → b.HasPayload i) :
    r'.Settled chain nodes where
  fenced := settled.fenced.frame changed fun i here => by
    have within := settled.holds.within b member
    have payload := inside i here
    simp only [ChainBlock.HasPayload] at payload
    omega
  holds := by
    refine settled.holds.frame list changed (fun c cMem i tagged here => ?_) fun i linked here => ?_
    · exact settled.not_idle member used (inside i here) ⟨c, cMem, .inl tagged⟩
    · exact settled.not_idle member used (inside i here) (settled.idle_of_link linked)
  tiles := changed.size ▸ settled.tiles
  spaced := settled.spaced
  listed := settled.listed

/-- What is changed outside the payloads of allocated blocks is not changed in any of them. -/
theorem payload_kept (settled : r'.Settled chain nodes)
    (changed : r.memory.ChangedOnly r'.memory (Idle chain)) (member : b ∈ chain)
    (used : b.isFree = false) {i : Nat} (payload : b.HasPayload i) :
    r'.memory.byte i = r.memory.byte i :=
  changed.byte i (settled.not_idle member used payload)

theorem keeps (settled : r'.Settled chain nodes)
    (changed : r.memory.ChangedOnly r'.memory (Idle chain)) :
    Keeps r.memory r'.memory (usedOf chain) := fun b member i payload => by
  obtain ⟨inChain, used⟩ := mem_usedOf.mp member
  exact settled.payload_kept changed inChain used payload

/-- The blocks in use beside one of them are at other offsets. -/
theorem bp_ne {others : List ChainBlock} (settled : r.Settled chain nodes)
    (used : (usedOf chain).Perm (b :: others)) (member : c ∈ others) : c.bp ≠ b.bp := by
  have different : ((b :: others).map (·.bp)).Nodup :=
    (used.map _).nodup_iff.mp (settled.different.sublist (List.filter_sublist.map _))
  rw [List.map_cons, List.nodup_cons] at different
  exact fun same => different.1 (List.mem_map.mpr ⟨c, member, same⟩)

/-- What is changed in one payload and in idle bytes is not changed in the other payloads. -/
theorem keeps_others {others : List ChainBlock} (settled : r'.Settled chain nodes)
    (used : (usedOf chain).Perm (b :: others))
    (changed : r.memory.ChangedOnly r'.memory (fun i => b.HasPayload i ∨ Idle chain i)) :
    Keeps r.memory r'.memory others := fun c member i payload => by
  have different : c ≠ b := fun same => settled.bp_ne used member (same ▸ rfl)
  obtain ⟨bMem, -⟩ := mem_usedOf.mp (used.mem_iff.mpr (List.mem_cons_self ..))
  obtain ⟨cMem, cUsed⟩ := mem_usedOf.mp (used.mem_iff.mpr (List.mem_cons_of_mem _ member))
  refine changed.byte i fun touched => ?_
  rcases touched with other | idle
  · exact (settled.holds.apart c cMem b bMem different).not_covers payload.covers other.covers
  · exact settled.not_idle cMem cUsed payload idle

/-- A client that writes within the payload of an allocated block. -/
theorem write_ensures (settled : r.Settled chain nodes) (member : b ∈ chain)
    (used : b.isFree = false) {offset : Nat} {values : List UInt8}
    (fits : offset + values.length + 16 ≤ b.tag.size) :
    (onMemory (Memory.writeRange (b.bp + offset) values)).Ensures r Action.Total fun _ r' =>
      r'.Settled chain nodes ∧ r.memory.ChangedOnly r'.memory
          (fun i => b.bp + offset ≤ i ∧ i < b.bp + offset + values.length) ∧
        ∀ index (_ : index < values.length),
          r'.memory.byte (b.bp + offset + index) = values[index] := by
  have within := settled.holds.within b member
  simp only [ChainBlock.stop] at within
  apply (writeRange_ensures (by omega)).imp
  rintro _ r' ⟨list, changed, written⟩
  refine ⟨settled.frame list changed member used fun i here => ?_, changed, written⟩
  simp only [ChainBlock.HasPayload, ChainBlock.stop]
  omega

/-- Clearing the payload of an allocated block. -/
theorem clear_ensures (settled : r.Settled chain nodes) (member : b ∈ chain)
    (used : b.isFree = false) :
    (clear b.bp).Ensures r Action.Total fun _ r' =>
      r'.Settled chain nodes ∧ r.memory.ChangedOnly r'.memory b.HasPayload ∧
        ∀ i, b.HasPayload i → r'.memory.byte i = 0 := by
  have large := (settled.holds.legal b member).large
  unfold clear
  apply read_ensures (blockSize_eq (settled.holds.tagged b member).header)
  apply Action.Ensures.lift (Checked.sub_eq_ok (by simp only [Block.overhead]; omega))
  have fits : 0 + (List.replicate (b.tag.size - 16) (0 : UInt8)).length + 16 ≤ b.tag.size := by
    rw [List.length_replicate]
    omega
  apply (settled.write_ensures member used fits).imp
  rintro _ r' ⟨settled', changed, written⟩
  rw [List.length_replicate] at changed
  refine ⟨settled', changed.mono fun i here => ?_, fun i payload => ?_⟩
  · simp only [ChainBlock.HasPayload, ChainBlock.stop]
    omega
  · simp only [ChainBlock.HasPayload, ChainBlock.stop] at payload
    have zero := written (i - b.bp) (by rw [List.length_replicate]; omega)
    rw [List.getElem_replicate] at zero
    rw [← zero]
    congr 1
    omega

end Settled

/-- Growing an allocated block into the free block behind it. -/
theorem growInPlace_ensures (settled : r.Settled (front ++ b :: c :: behind) nodes)
    (used : b.isFree = false) (free : c.isFree = true) (legal : Block.LegalSize size)
    (fits : size ≤ b.tag.size + c.tag.size) :
    (growInPlace b.bp b.tag.size c.tag.size size).Ensures r Action.Total fun _ r' =>
      r'.Settled (front ++ kept b.bp c.stop size :: tailChain b.bp c.stop size behind)
          (tailNodes b.bp c.stop size behind (nodes.erase c)) ∧
        r.memory.ChangedOnly r'.memory
          (Idle (front ++ kept b.bp c.stop size :: tailChain b.bp c.stop size behind)) := by
  have gap := settled.gap used
  have next : b.bp + b.tag.size = c.bp := gap.trail.1.symm
  rw [growInPlace, next]
  apply (gap.absorb_start_ensures free).bind
  rintro _ r₁ ⟨gap₁, -, startUsed, unlinked⟩
  apply (trim_ensures gap₁ (by simp only [ChainBlock.stop]; omega) legal fits).imp
  rintro _ r₂ ⟨settled₂, changed, -⟩
  refine ⟨settled₂, (unlinked.trans changed).mono ?_⟩
  rintro i (⟨d, member, linked⟩ | idle)
  · exact settled₂.idle_of_link ⟨d, mem_tailNodes startUsed member, linked⟩
  · exact idle

/-- The bytes of the free block that a row starts with, none if it starts otherwise. -/
def roomBehind (behind : List ChainBlock) : Nat := ((freeStart behind).map (·.tag.size)).getD 0

/-- Taking the free block behind a gap, if there is one, into the gap. -/
theorem unlinkIfAny_ensures (gap : r.Gap front first stop behind nodes) :
    (unlinkIfAny stop (roomBehind behind)).Ensures r Action.Total fun _ r' =>
      r'.Gap front first (stop + roomBehind behind) (cutStart behind)
          (dropNode nodes (freeStart behind)) ∧
        (firstTag (cutStart behind)).allocated = true ∧
        r.memory.ChangedOnly r'.memory fun i =>
          HasLinkOf (dropNode nodes (freeStart behind)) i := by
  unfold unlinkIfAny
  rcases start_cases behind with ⟨none, same, used⟩ | ⟨c, after, rfl, free⟩
  · have room : roomBehind behind = 0 := by simp [roomBehind, none]
    rw [room, same, none, if_neg (Nat.lt_irrefl 0)]
    exact .pure ⟨gap, used, .refl _⟩
  · obtain ⟨rfl, -⟩ := gap.trail
    have room : roomBehind (c :: after) = c.tag.size := by
      simp [roomBehind, freeStart_of_free free]
    have large := (gap.holds.legal c (by simp)).large
    rw [room, cutStart_of_free free, freeStart_of_free free, if_pos (by omega)]
    apply (gap.absorb_start_ensures free).imp
    rintro _ r' ⟨gap', -, used, changed⟩
    exact ⟨gap', used, changed⟩

/-- Sliding an allocated block down into the free block in front of it, with the free block behind
it if there is one. The start of what it held is carried along. Past the bytes it is carried to, no
more is written in the old block than tags and links. -/
theorem slideDown_ensures (settled : r.Settled (front ++ a :: b :: behind) nodes)
    (free : a.isFree = true) (used : b.isFree = false) (legal : Block.LegalSize size)
    {stop : Nat} (ends : stop = b.stop + roomBehind behind) (fits : a.bp + size ≤ stop) :
    (slideDown b.bp a.tag.size b.tag.size (roomBehind behind) size).Ensures r Action.Total
      fun start r' => start = a.bp ∧
        r'.Settled (front ++ kept a.bp stop size :: tailChain a.bp stop size (cutStart behind))
          (tailNodes a.bp stop size (cutStart behind)
            (dropNode (nodes.erase a) (freeStart behind))) ∧
        r.memory.ChangedOnly r'.memory (fun i => (kept a.bp stop size).HasPayload i ∨
          Idle (front ++ kept a.bp stop size :: tailChain a.bp stop size (cutStart behind)) i) ∧
        (∀ index, index + 16 < b.tag.size → (kept a.bp stop size).HasPayload (a.bp + index) →
          r'.memory.byte (a.bp + index) = r.memory.byte (b.bp + index)) ∧
        Rewired r.memory r'.memory (a.bp + b.tag.size - 8) b.stop
          (front ++ kept a.bp stop size :: tailChain a.bp stop size (cutStart behind))
          (tailNodes a.bp stop size (cutStart behind)
            (dropNode (nodes.erase a) (freeStart behind))) := by
  have same : front ++ a :: b :: behind = (front ++ [a]) ++ b :: behind := by simp
  have gap := (same ▸ settled).gap used
  have meet := gap.lead.stop_eq
  have aLarge := (settled.holds.legal a (by simp)).large
  have bLarge := (settled.holds.legal b (by simp)).large
  simp only [ChainBlock.stop] at meet
  unfold slideDown
  apply Action.Ensures.lift (Checked.sub_eq_ok (by omega))
  have start : b.bp - a.tag.size = a.bp := by omega
  rw [start]
  apply (gap.absorb_end_ensures free).bind
  rintro _ r₁ ⟨gap₁, -, endUsed, unlinked₁⟩
  apply (unlinkIfAny_ensures gap₁).bind
  rintro _ r₂ ⟨gap₂, startUsed, unlinked₂⟩
  apply Action.Ensures.lift (Checked.sub_eq_ok (by simp only [Block.overhead]; omega))
  -- the gap now reaches over all three, and the copy stays in it
  have below := gap₂.stop_le
  simp only [Block.overhead]
  rw [← ends] at gap₂ below
  simp only [ChainBlock.stop] at ends
  apply (copy_ensures (by omega) (by omega)).bind
  rintro _ r₃ ⟨list, copied, carried⟩
  have gap₃ := gap₂.frame list copied fun i here => by omega
  have whole : a.tag.size + b.tag.size + roomBehind behind = stop - a.bp := by omega
  rw [whole]
  apply (trim_ensures gap₃ (by omega) legal (by omega)).bind
  rintro _ r₄ ⟨settled₄, changed, rewired⟩
  refine .pure ⟨rfl, settled₄, ?_, fun index within payload => ?_, ?_⟩
  · apply (((unlinked₁.trans unlinked₂).trans copied).trans changed).mono
    rintro i (((⟨d, member, linked⟩ | linked) | here) | idle)
    · by_cases absorbed : freeStart behind = some d
      · -- a link of the block behind, which is part of the gap by now
        rcases start_cases behind with ⟨none, -⟩ | ⟨c, after, rfl, cFree⟩
        · cases none.symm.trans absorbed
        · obtain rfl : c = d := Option.some.inj ((freeStart_of_free cFree).symm.trans absorbed)
          have covered := linked.covers (gap.holds.legal c (by simp)).large
          have next : c.bp = b.bp + b.tag.size := gap.trail.1
          have room : roomBehind (c :: after) = c.tag.size := by
            simp [roomBehind, freeStart_of_free cFree]
          simp only [ChainBlock.Covers, ChainBlock.stop] at covered
          exact gap₃.payload_or_idle fits (by omega) (by omega)
      · exact .inr (settled₄.idle_of_link
          ⟨d, mem_tailNodes startUsed (mem_dropNode absorbed member), linked⟩)
    · obtain ⟨d, member, linked⟩ := linked
      exact .inr (settled₄.idle_of_link ⟨d, mem_tailNodes startUsed member, linked⟩)
    · exact gap₃.payload_or_idle fits (by omega) (by omega)
    · exact .inr idle
  · rw [settled₄.payload_kept changed (by simp) rfl payload, carried index (by omega),
      unlinked₂.byte _ (gap₂.not_link (by omega) (by omega)),
      unlinked₁.byte _ (gap₁.not_link (by omega) (by simp only [ChainBlock.stop]; omega))]
  · intro i above within unwired
    have inside : i + 8 < stop := by
      simp only [ChainBlock.stop] at within
      omega
    rw [rewired startUsed i (by omega) inside unwired, copied.byte i (by omega),
      unlinked₂.byte i (gap₂.not_link (by omega) inside),
      unlinked₁.byte i (gap₁.not_link (by omega) within)]

/-- Moving what an allocated block holds to another one, and freeing the first. Its old header is
that of a free block then. -/
theorem moveTo_ensures (settled : r.Settled (front ++ b :: behind) nodes) (used : b.isFree = false)
    (target : c ∈ front ++ behind) (targetUsed : c.isFree = false) {request : Nat}
    (fits : request + 16 ≤ c.tag.size) :
    (moveTo b.bp b.tag.size request c.bp).Ensures r Action.Total fun _ r' =>
      r'.Settled (mergedChain front b.bp b.stop behind)
          (FreeList.enter (merged front b.bp b.stop behind) (dropNeighbours front behind nodes)) ∧
        r.memory.ChangedOnly r'.memory (fun i => c.HasPayload i ∨
          Idle (mergedChain front b.bp b.stop behind) i) ∧
        (∀ index < min (b.tag.size - 16) request,
          r'.memory.byte (c.bp + index) = r.memory.byte (b.bp + index)) ∧
        ∃ rest, r'.memory.header b.bp = .ok (Tag.free rest) ∧ b.bp + rest ≤ r'.memory.size := by
  have member : c ∈ front ++ b :: behind := around_sublist.subset target
  have bLarge := (settled.holds.legal b (by simp)).large
  have bWithin := settled.holds.within b (by simp)
  have cWithin := settled.holds.within c member
  simp only [ChainBlock.stop] at bWithin cWithin
  unfold moveTo
  apply Action.Ensures.lift (Checked.sub_eq_ok (by simp only [Block.overhead]; omega))
  simp only [Block.overhead]
  apply (copy_ensures (by omega) (by omega)).bind
  rintro _ r₁ ⟨list, copied, carried⟩
  have settled₁ := settled.frame list copied member targetUsed fun i here => by
    simp only [ChainBlock.HasPayload, ChainBlock.stop]
    omega
  apply (free_ensures settled₁ used).bind
  rintro _ r₂ ⟨-, settled₂, changed, freed⟩
  have staying : c ∈ mergedChain front b.bp b.stop behind := by
    refine (mem_usedOf.mp ?_).1
    rw [usedOf_mergedChain, ← usedOf_append]
    exact mem_usedOf.mpr ⟨target, targetUsed⟩
  have payload : ∀ i, c.bp ≤ i → i < c.bp + min (b.tag.size - 16) request → c.HasPayload i :=
    fun i first last => ⟨first, by simp only [ChainBlock.stop]; omega⟩
  refine .pure ⟨settled₂, (copied.trans changed).mono ?_, fun index within => ?_, freed⟩
  · rintro i (⟨first, last⟩ | idle)
    · exact .inl (payload i first last)
    · exact .inr idle
  · rw [settled₂.payload_kept changed staying targetUsed (payload _ (by omega) (by omega)),
      carried index within]

end BoundaryHeap.Region
