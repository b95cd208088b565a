import BoundaryHeap.Heap.Call
import BoundaryHeap.Proofs.Resize

/-!
The calls a client makes to a heap in service. The scan after a request finds nothing, so each does
what the request alone does; a cleared allocation and a write into a payload stay within one
payload.
-/

namespace BoundaryHeap.Heap

open FreeList (enter)
open Region (roomInFront roomBehind)

variable {h h' : Heap LimitedArena} {front behind chain nodes chain' nodes' : List ChainBlock}
  {b : ChainBlock} {α : Type} {excused : Fault → Prop} {request size : Nat}

theorem AllocateOutcome.laid {answer : Option Nat} (laid : h.Laid chain nodes)
    (outcome : AllocateOutcome h chain nodes request answer h' chain' nodes') :
    h'.Laid chain' nodes' := by
  cases outcome with
  | nothing empty agrees => exact agrees.laid laid
  | refused some agrees lacks => exact agrees.failed_laid laid
  | served some found allocated => exact allocated.laid

theorem ResizeOutcome.laid {answer : Option Nat} (laid : h.Laid (front ++ b :: behind) nodes)
    (used : b.isFree = false)
    (outcome : ResizeOutcome h front b behind nodes request answer h' chain' nodes') :
    h'.Laid chain' nodes' := by
  cases outcome with
  | refused agrees lacks cramped => exact agrees.failed_laid laid
  | resized found way =>
    obtain ⟨_, -, laid', -⟩ := way.carried laid used found
    exact laid'

/-- An allocation leaves nothing for the scan to find. -/
theorem AllocateOutcome.check_eq {answer : Option Nat} (laid : h.Laid chain nodes)
    (outcome : ∃ chain' nodes', AllocateOutcome h chain nodes request answer h' chain' nodes') :
    h'.check = .ok [] := by
  obtain ⟨_, _, outcome⟩ := outcome
  exact (outcome.laid laid).check_eq

/-- A resize leaves nothing for the scan to find. -/
theorem ResizeOutcome.check_eq {answer : Option Nat} (laid : h.Laid (front ++ b :: behind) nodes)
    (used : b.isFree = false)
    (outcome : ∃ chain' nodes',
      ResizeOutcome h front b behind nodes request answer h' chain' nodes') :
    h'.check = .ok [] := by
  obtain ⟨_, _, outcome⟩ := outcome
  exact (outcome.laid laid used).check_eq

/-! ## Requests -/

theorem allocate_ensures (laid : h.Laid chain nodes) (request : Nat) :
    (allocate request).Ensures h (Overgrown (h.AllocateBursts nodes request)) fun answer h' =>
      ∃ chain' nodes', AllocateOutcome h chain nodes request answer h' chain' nodes' :=
  scanned_ensures (allocateAs_ensures laid "allocate" request)
    (fun _ _ => AllocateOutcome.check_eq laid) "allocate"

theorem release_ensures (laid : h.Laid (front ++ b :: behind) nodes) (used : b.isFree = false) :
    (release b.bp).Ensures h excused fun _ h' => Released h front b behind nodes h' := by
  refine (releaseAs_ensures laid used "release").bind fun _ h₁ released => ?_
  exact (afterwards_ensures released.laid.check_eq "release").imp fun _ _ same => same ▸ released

theorem release_null_ensures (laid : h.Laid chain nodes) :
    (release 0).Ensures h excused fun _ h' => Agrees h h' := by
  refine (releaseAs_zero_ensures h "release").bind fun _ h₁ agrees => ?_
  exact (afterwards_ensures (agrees.laid laid).check_eq "release").imp fun _ _ same => same ▸ agrees

theorem resize_ensures (laid : h.Laid (front ++ b :: behind) nodes) (used : b.isFree = false)
    (some : request ≠ 0) :
    (resize b.bp request).Ensures h (Overgrown (h.ResizeBursts front b behind nodes request))
      fun answer h' =>
      ∃ chain' nodes', ResizeOutcome h front b behind nodes request answer h' chain' nodes' :=
  scanned_ensures (resizeAs_ensures laid used "resize" some)
    (fun _ _ => ResizeOutcome.check_eq laid used) "resize"

/-- Resizing no block is an allocation. -/
theorem resize_null_ensures (laid : h.Laid chain nodes) (request : Nat) :
    (resize 0 request).Ensures h (Overgrown (h.AllocateBursts nodes request)) fun answer h' =>
      ∃ chain' nodes', AllocateOutcome h chain nodes request answer h' chain' nodes' := by
  rw [resize, resizeAs_null]
  exact scanned_ensures (allocateAs_ensures laid "resize" request)
    (fun _ _ => AllocateOutcome.check_eq laid) "resize"

/-- Resizing a live block to nothing is a release. -/
theorem resize_zero_ensures (laid : h.Laid (front ++ b :: behind) nodes) (used : b.isFree = false) :
    (resize b.bp 0).Ensures h excused fun answer h' =>
      answer = none ∧ Released h front b behind nodes h' := by
  have within := laid.settled.holds.within b (by simp)
  rw [resize, resizeAs_zero "resize" (by omega : b.bp ≠ 0)]
  refine scanned_ensures ((releaseAs_ensures laid used "resize").bind fun _ h₁ released => ?_)
    (fun _ _ holds => holds.2.laid.check_eq) "resize"
  exact .pure ⟨rfl, released⟩

/-! ## Clearing and writing -/

/-- Clearing the payload of a block that has just been handed out. -/
theorem Allocated.cleared {h₁ : Heap LimitedArena} {r : Region}
    (allocated : Allocated h chain nodes size b h₁ chain' nodes')
    (settled : r.Settled chain' nodes')
    (changed : h₁.memory.ChangedOnly r.memory b.HasPayload) :
    Allocated h chain nodes size b (h₁.withRegion r) chain' nodes' := by
  have edited : h₁.Edited r id (h₁.withRegion r) := .refl _
  exact
    { laid := edited.laid allocated.laid settled
      continues := allocated.continues.trans (edited.continues changed.size rfl rfl)
      used := allocated.used
      enough := allocated.enough
      keeps := allocated.keeps.trans
        (settled.keeps_others (r := h₁.region) allocated.used (changed.mono fun _ => .inl))
      counters := allocated.counters
      served := by
        obtain ⟨source, h₂, front, behind, nodes₁, supplied, bytes, taken⟩ := allocated.served
        exact ⟨source, h₂, front, behind, nodes₁, supplied, changed.size.trans bytes, taken⟩ }

/-- How an allocation that clears the payload changes a heap. -/
def ClearedOutcome (h : Heap LimitedArena) (chain nodes : List ChainBlock) (items size : Nat)
    (answer : Option Nat) (h' : Heap LimitedArena) : Prop :=
  (answer = none ∧ wordLimit ≤ items * size ∧ Agrees h.failed h') ∨
    ∃ chain' nodes', AllocateOutcome h chain nodes (items * size) answer h' chain' nodes' ∧
      ∀ b ∈ chain', answer = some b.bp → ∀ i, b.HasPayload i → h'.memory.byte i = 0

theorem ClearedOutcome.check_eq {items : Nat} {answer : Option Nat} (laid : h.Laid chain nodes)
    (outcome : ClearedOutcome h chain nodes items size answer h') : h'.check = .ok [] := by
  rcases outcome with ⟨-, -, agrees⟩ | ⟨chain', nodes', outcome, -⟩
  · exact (agrees.failed_laid laid).check_eq
  · exact (outcome.laid laid).check_eq

theorem callocAs_ensures (laid : h.Laid chain nodes) (symbol : String) (items size : Nat) :
    (callocAs symbol items size).Ensures h (Overgrown (h.AllocateBursts nodes (items * size)))
      fun answer h' => ClearedOutcome h chain nodes items size answer h' := by
  unfold callocAs
  by_cases huge : wordLimit ≤ items * size
  · rw [if_pos huge]
    exact count_ensures (record_ensures fun h' agrees => .pure (.inl ⟨rfl, huge, agrees⟩))
  rw [if_neg huge]
  apply (allocateAs_ensures laid symbol (items * size)).bind
  rintro _ h₁ ⟨chain', nodes', outcome⟩
  cases outcome with
  | nothing empty agrees =>
    exact .pure (.inr ⟨_, _, .nothing empty agrees, fun _ _ answered => by cases answered⟩)
  | refused some agrees lacks =>
    exact .pure (.inr ⟨_, _, .refused some agrees lacks, fun _ _ answered => by cases answered⟩)
  | @served _ b _ _ _ some found allocated =>
    obtain ⟨member, used⟩ := allocated.isUsed
    apply edit_ensures (allocated.laid.settled.clear_ensures member used)
    rintro _ r ⟨settled, changed, zero⟩
    refine .pure
      (.inr ⟨chain', nodes', .served some found (allocated.cleared settled changed), ?_⟩)
    intro c cMem answered
    obtain rfl : b = c := settled.eq_of_bp member cMem (Option.some.inj answered)
    exact zero

/-- An allocation that clears the payload. -/
theorem calloc_ensures (laid : h.Laid chain nodes) (items size : Nat) :
    (calloc items size).Ensures h (Overgrown (h.AllocateBursts nodes (items * size)))
      fun answer h' => ClearedOutcome h chain nodes items size answer h' :=
  scanned_ensures (callocAs_ensures laid "calloc" items size)
    (fun _ _ outcome => outcome.check_eq laid) "calloc"

/-- A client gets at all of a block but its tags. -/
theorem Laid.usableSize_eq (laid : h.Laid chain nodes) (member : b ∈ chain)
    (used : b.isFree = false) : h.usableSize b.bp = .ok (some (b.tag.size - 16)) := by
  have large := (laid.settled.holds.legal b member).large
  have live : h.memory.liveBlock h.prologue b.bp = .ok (.ok b.tag) := by
    rw [laid.prologue]
    exact laid.settled.liveBlock_eq member used
  have capacity : Block.payloadCapacity b.tag.size = .ok (b.tag.size - 16) :=
    Checked.sub_eq_ok (by simp only [Block.overhead]; omega)
  rw [usableSize, if_pos laid.initialized, Fault.bind_of_ok live]
  simp only []
  rw [Fault.bind_of_ok capacity]
  rfl

theorem Laid.payload_eq (laid : h.Laid chain nodes) (member : b ∈ chain) (used : b.isFree = false) :
    h.payload b.bp = .ok (some (h.memory.slice b.bp (b.tag.size - 16))) := by
  have within : b.stop ≤ h.memory.size := (laid.settled.holds.within b member).2
  have large := (laid.settled.holds.legal b member).large
  simp only [ChainBlock.stop] at within
  have found : h.memory.readRange b.bp (b.bp + (b.tag.size - 16)) =
      .ok (h.memory.slice b.bp (b.tag.size - 16)) := by
    rw [Memory.readRange, if_pos ⟨Nat.le_add_right .., by omega⟩, Nat.add_sub_cancel_left]
  rw [payload, Fault.bind_of_ok (laid.usableSize_eq member used)]
  simp only []
  rw [Fault.bind_of_ok found]
  rfl

/-- A block in use before and after holds what it held, if its payload is one of those kept. -/
theorem Laid.payload_kept {blocks : List ChainBlock} (laid : h.Laid chain nodes)
    (laid' : h'.Laid chain' nodes') (keeps : Keeps h.memory h'.memory blocks) (kept : b ∈ blocks)
    (before : b ∈ usedOf chain) (after : b ∈ usedOf chain') :
    h'.payload b.bp = h.payload b.bp := by
  obtain ⟨member, used⟩ := mem_usedOf.mp before
  obtain ⟨still, -⟩ := mem_usedOf.mp after
  rw [laid'.payload_eq still used, laid.payload_eq member used, keeps.slice kept]

/-- Writing within the payload of a live block. -/
theorem patch_ensures (laid : h.Laid chain nodes) (member : b ∈ chain) (used : b.isFree = false)
    {offset : Nat} {values : List UInt8} (fits : offset + values.length + 16 ≤ b.tag.size) :
    (patch b.bp offset values).Ensures h excused fun answer h' => answer = true ∧
      ∃ r, h' = h.withRegion r ∧ r.Settled chain nodes ∧
        h.memory.ChangedOnly r.memory
          (fun i => b.bp + offset ≤ i ∧ i < b.bp + offset + values.length) ∧
        ∀ index (_ : index < values.length),
          r.memory.byte (b.bp + offset + index) = values[index] := by
  have inside : ¬ b.tag.size - 16 < offset + values.length := by omega
  unfold patch
  refine .ask (laid.usableSize_eq member used) ?_
  simp only []
  rw [if_neg inside]
  apply edit_ensures (laid.settled.write_ensures member used fits)
  rintro _ r ⟨settled, changed, written⟩
  exact .pure ⟨rfl, r, rfl, settled, changed, written⟩

end BoundaryHeap.Heap
