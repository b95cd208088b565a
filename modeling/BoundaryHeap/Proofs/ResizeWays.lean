import BoundaryHeap.Proofs.BestFit
import BoundaryHeap.Proofs.History

/-!
Which way a resize takes. The bytes of the block and of its free neighbours decide: enough in the
block, and it stays as it is but for its tail; enough with the neighbours, and it spreads over them
from the front; otherwise the answer is that of an allocation, and the block is released once its
bytes are in the new one. Whichever way it is, the client finds its bytes at the new place and every
other payload untouched.
-/

namespace BoundaryHeap

/-- Nothing is cut off where there is no room in front. -/
theorem Region.cutEnd_eq_self {front : List ChainBlock} (alone : roomInFront front = 0)
    (legal : ∀ b ∈ front, b.Legal) : cutEnd front = front := by
  rcases end_cases front with ⟨-, same, -⟩ | ⟨before, a, rfl, free⟩
  · exact same
  · have large := (legal a (by simp)).large
    rw [roomInFront_of_free free] at alone
    omega

namespace Heap

open Region (roomInFront roomBehind)

variable {arena : LimitedArena} {config : HeapConfig} {n : Nat} {h h' h₁ : Heap LimitedArena}
  {ledger : Ledger} {chain nodes front behind chain' nodes' : List ChainBlock} {b c : ChainBlock}
  {request size ptr : Nat}

/-! ## The block afterwards -/

/-- The live block `b` has given way to a block at `ptr` that is large enough for `request` bytes,
and whose payload starts with as many of the old ones. Every other live payload is as it was. -/
structure Rehoused (h h' : Heap LimitedArena) (ledger : Ledger) (b : ChainBlock)
    (size request ptr : Nat) (chain' : List ChainBlock) : Prop where
  layout : ∃ nodes', h'.memory.WellFormed 16 h'.freeList chain' nodes'
  block : ∃ c ∈ chain', c.bp = ptr ∧ c.tag.allocated = true ∧
    (c.tag.size = size ∨ c.tag.size = size + 16)
  bytes : ∃ old new, h.payload b.bp = .ok (some old) ∧ h'.payload ptr = .ok (some new) ∧
    old.length = b.tag.size - 16 ∧ request ≤ new.length ∧
    ∀ index < min (b.tag.size - 16) request, new[index]? = old[index]?
  others : ∀ other, other ≠ b.bp → (ledger other).isSome →
    ∃ held, h.payload other = .ok (some held) ∧ h'.payload other = .ok (some held)

/-- The live block `b` has been resized without the arena: the block at `ptr` reaches up to `stop`,
but for a tail that makes a block, which has been joined with a free block behind it. -/
structure Refitted (h h' : Heap LimitedArena) (ledger : Ledger) (b : ChainBlock)
    (size request ptr stop : Nat) (lead trail : List ChainBlock) : Prop where
  bytes : h'.memory.size = h.memory.size
  rehoused : h.Rehoused h' ledger b size request ptr
    (lead ++ kept ptr stop size :: tailChain ptr stop size trail)

theorem Carried.rehoused (backs : h.Backs ledger (front ++ b :: behind) nodes)
    (used : b.isFree = false) (found : Block.sizeFor request = some size)
    (laid' : h'.Laid chain' nodes')
    (carried : Carried h (usedOf front ++ usedOf behind) b c size request h' chain') :
    h.Rehoused h' ledger b size request c.bp chain' := by
  obtain ⟨legal, room⟩ := Block.sizeFor_eq_some found
  obtain ⟨member, taken⟩ := mem_usedOf.mp (carried.used.mem_iff.mpr (List.mem_cons_self ..))
  have whole := (laid'.settled.holds.legal c member).size
  have enough := carried.enough
  refine ⟨⟨_, laid'.settled.wellFormed⟩, ⟨c, member, rfl, ChainBlock.isFree_eq_false.mp taken,
    legal.eq_or_eq_add whole enough carried.close⟩, ?_, ?_⟩
  · refine ⟨_, _, backs.laid.payload_eq (by simp) used, laid'.payload_eq member taken,
      Memory.length_slice .., by rw [Memory.length_slice]; omega, fun index within => ?_⟩
    rw [Memory.getElem?_slice _ (by omega), Memory.getElem?_slice _ (by omega),
      carried.bytes index within]
  · intro other different live
    obtain ⟨before, d, after, split, rfl, dUsed⟩ := backs.live live
    have dMem : d ∈ front ++ b :: behind := split ▸ List.mem_append_right _ List.mem_cons_self
    have kept : d ∈ usedOf front ++ usedOf behind := by
      have inUse := (usedOf_middle used).mem_iff.mp (mem_usedOf.mpr ⟨dMem, dUsed⟩)
      rcases List.mem_cons.mp inUse with rfl | kept
      · exact absurd rfl different
      · exact kept
    have still := carried.used.mem_iff.mpr (List.mem_cons_of_mem c kept)
    have holds := backs.laid.payload_eq dMem dUsed
    have same := backs.laid.payload_kept laid' carried.keeps kept (mem_usedOf.mpr ⟨dMem, dUsed⟩)
      still
    exact ⟨_, holds, same.trans holds⟩

theorem Resized.rehoused (backs : h.Backs ledger (front ++ b :: behind) nodes)
    (used : b.isFree = false) (found : Block.sizeFor request = some size)
    (way : Resized h front b behind nodes size request ptr h' chain' nodes') :
    h.Rehoused h' ledger b size request ptr chain' := by
  obtain ⟨b', rfl, laid', carried⟩ := way.carried backs.laid used found
  exact carried.rehoused backs used found laid'

/-! ## The way taken -/

/-- A block that finds room nowhere around it does not fit into itself and its free neighbours. -/
theorem Room.lt_of_elsewhere {before current after size : Nat}
    (place : Room.of before current after size = .ok .elsewhere) (small : current < size)
    (fits : before + current + after < wordLimit) : before + current + after < size := by
  rcases Room.of_cases size fits with ⟨behind, -⟩ | ⟨around, -⟩ | ⟨-, cramped⟩
  · cases place.symm.trans behind
  · cases place.symm.trans around
  · split at cramped <;> omega

/-- A block and its free neighbours lie in the memory. -/
theorem Laid.room_lt (laid : h.Laid (front ++ b :: behind) nodes) (used : b.isFree = false) :
    roomInFront front + b.tag.size + roomBehind behind < wordLimit := by
  have gap := laid.settled.gap used
  have starts := gap.roomInFront_le
  have ends := gap.roomBehind_le
  have bounded := laid.settled.bounded
  simp only [ChainBlock.stop] at ends
  omega

/-- A resize takes one of its ways, unless it would have to move the block and an allocation of as
many bytes is turned away. -/
theorem Laid.resize_cases (laid : h.Laid (front ++ b :: behind) nodes) (used : b.isFree = false)
    (found : Block.sizeFor request = some size) (some : request ≠ 0) :
    (∃ target h' chain' nodes', (resize b.bp request).run h = .ok (.some target) h' ∧
        Resized h front b behind nodes size request target h' chain' nodes') ∨
      (roomInFront front + b.tag.size + roomBehind behind < size ∧
        ((h.Denies nodes request ∧ ∃ h', (resize b.bp request).run h = .ok none h') ∨
          (h.Overreaches nodes request ∧
            ∃ h', (resize b.bp request).run h = .error .capacity h'))) := by
  have room := laid.room_lt used
  have ensured := Heap.resize_ensures laid used some
  rw [Action.Ensures] at ensured
  cases ran : (resize b.bp request).run h with
  | error fault h' =>
    rw [ran] at ensured
    obtain ⟨rfl, bursts⟩ := ensured
    have overreaches := bursts.overreaches some
    obtain ⟨_, known, small, place, -⟩ := bursts
    obtain rfl := Option.some.inj (found.symm.trans known)
    exact .inr ⟨Room.lt_of_elsewhere place small room, .inr ⟨overreaches, h', rfl⟩⟩
  | ok answer h' =>
    rw [ran] at ensured
    obtain ⟨_, _, outcome⟩ := ensured
    cases outcome with
    | refused agrees lacks cramped =>
      obtain ⟨small, place⟩ := cramped size found
      exact .inr ⟨Room.lt_of_elsewhere place small room, .inl ⟨denies_of_lacks lacks, h', rfl⟩⟩
    | resized known way =>
      obtain rfl := Option.some.inj (found.symm.trans known)
      exact .inl ⟨_, h', _, _, rfl, way⟩

section Ways

variable (backs : h.Backs ledger (front ++ b :: behind) nodes) (used : b.isFree = false)
  (found : Block.sizeFor request = some size) (some : request ≠ 0)

include backs used found some

/-- A block that is large enough stays where it is. -/
theorem resize_within (enough : size ≤ b.tag.size) :
    ∃ h', (resize b.bp request).run h = .ok (.some b.bp) h' ∧
      h.Refitted h' ledger b size request b.bp b.stop front behind := by
  rcases backs.laid.resize_cases used found some with ⟨target, h', _, _, ran, way⟩ | ⟨cramped, -⟩
  · have rehoused := way.rehoused backs used found
    cases way with
    | trimmed _ edited settled changed =>
      exact ⟨h', ran, (congrArg Memory.size edited.memory).trans changed.size, rehoused⟩
    | grown _ _ small => omega
    | slid _ _ small => omega
    | moved small => omega
  · omega

/-- A block that is too small spreads over its free neighbours, from the start of the one in
front. -/
theorem resize_around (small : b.tag.size < size)
    (fits : size ≤ roomInFront front + b.tag.size + roomBehind behind) :
    ∃ h', (resize b.bp request).run h = .ok (.some (b.bp - roomInFront front)) h' ∧
      h.Refitted h' ledger b size request (b.bp - roomInFront front)
        (b.stop + roomBehind behind) (cutEnd front) (cutStart behind) := by
  have room := backs.laid.room_lt used
  rcases backs.laid.resize_cases used found some with ⟨target, h', _, _, ran, way⟩ | ⟨cramped, -⟩
  · have rehoused := way.rehoused backs used found
    cases way with
    | trimmed enough => omega
    | @grown c after r _ next free _ _ alone edited settled changed =>
      subst next
      have legal := backs.laid.settled.holds.legal
      have meet : c.bp = b.stop := (backs.laid.settled.gap used).trail.1
      have ends : b.stop + roomBehind (c :: after) = c.stop := by
        rw [Region.roomBehind_of_free free, ← meet]
        rfl
      rw [alone, ends, cutStart_of_free free, Nat.sub_zero,
        Region.cutEnd_eq_self alone fun a member => legal a (List.mem_append_left _ member)]
      exact ⟨h', ran, (congrArg Memory.size edited.memory).trans changed.size, rehoused⟩
    | @slid a before stop r _ prev free _ ends _ edited settled changed =>
      subst prev ends
      have meet := (backs.laid.settled.gap used).lead.stop_eq
      have starts : b.bp - roomInFront (before ++ [a]) = a.bp := by
        rw [Region.roomInFront_of_free free, ← meet]
        exact Nat.add_sub_cancel ..
      rw [starts, cutEnd_of_free free]
      exact ⟨h', ran, (congrArg Memory.size edited.memory).trans changed.size, rehoused⟩
    | moved _ place =>
      have cramped := Room.lt_of_elsewhere place small room
      omega
  · omega

/-- A block that does not fit there either moves to where an allocation of as many bytes would be,
and what it leaves is joined with its free neighbours. The answer is that of the allocation. -/
theorem resize_elsewhere
    (cramped : roomInFront front + b.tag.size + roomBehind behind < size) :
    ((resize b.bp request).result h).map (·.1) = ((allocate request).result h).map (·.1) ∧
      ∀ target h', (resize b.bp request).run h = .ok (.some target) h' →
        ∃ h₁ front₁ source behind₁ increment front' behind',
          (allocate request).run h = .ok (.some target) h₁ ∧
          h.Carved h₁ (front ++ b :: behind) nodes size target front₁ source behind₁ increment ∧
          placedChain h.config.placement front₁ source size behind₁ = front' ++ b :: behind' ∧
          h'.memory.size = h₁.memory.size ∧
          h.Rehoused h' ledger b size request target (mergedChain front' b.bp b.stop behind') := by
  have laid := backs.laid
  rcases laid.resize_cases used found some with ⟨target, h', _, _, ran, way⟩ |
    ⟨-, ⟨denies, h', ran⟩ | ⟨overreaches, h', ran⟩⟩
  · have rehoused := way.rehoused backs used found
    cases way with
    | trimmed enough => omega
    | grown next free _ fits =>
      subst next
      rw [Region.roomBehind_of_free free] at cramped
      omega
    | @slid a before stop r _ prev free _ ends fits =>
      subst prev ends
      have meet := (laid.settled.gap used).lead.stop_eq
      rw [Region.roomInFront_of_free free] at cramped
      simp only [ChainBlock.stop] at meet fits
      omega
    | @moved t h₂ front' behind' _ r _ _ _ allocated edited settled changed =>
      obtain ⟨h₁, front₁, source, behind₁, increment, served, carved, split, bytes⟩ :=
        laid.allocate_of_allocated some found allocated
      refine ⟨by rw [Action.result, Action.result, ran, served]; rfl, fun _ _ answered => ?_⟩
      cases ran.symm.trans answered
      have kept : h'.memory.size = h₂.memory.size := by rw [edited.memory, changed.size]
      exact ⟨h₁, front₁, source, behind₁, increment, front', behind', served, carved, split.symm,
        kept.trans bytes, rehoused⟩
  · obtain ⟨h₁, denied⟩ := laid.allocate_eq_none_iff.mpr denies
    refine ⟨by rw [Action.result, Action.result, ran, denied]; rfl, fun _ _ answered => ?_⟩
    cases ran.symm.trans answered
  · obtain ⟨h₁, failed⟩ := laid.allocate_eq_error_iff.mpr ⟨rfl, overreaches⟩
    refine ⟨by rw [Action.result, Action.result, ran, failed], fun _ _ answered => ?_⟩
    cases ran.symm.trans answered

end Ways

/-- A live block is resized where it is if it is large enough, over its free neighbours if they make
it so, and otherwise to wherever an allocation would be. -/
theorem Reaches.resizes (reached : Reaches arena config n h ledger) (ptr : Nat)
    (live : (ledger ptr).isSome) (found : Block.sizeFor request = some size) (some : request ≠ 0) :
    ∃ front b behind nodes, b.bp = ptr ∧ b.tag.allocated = true ∧
      h.memory.WellFormed 16 h.freeList (front ++ b :: behind) nodes ∧
      (size ≤ b.tag.size → ∃ h', (resize ptr request).run h = .ok (.some ptr) h' ∧
        h.Refitted h' ledger b size request ptr b.stop front behind) ∧
      (b.tag.size < size → size ≤ roomInFront front + b.tag.size + roomBehind behind →
        ∃ h', (resize ptr request).run h = .ok (.some (ptr - roomInFront front)) h' ∧
          h.Refitted h' ledger b size request (ptr - roomInFront front)
            (b.stop + roomBehind behind) (cutEnd front) (cutStart behind)) ∧
      (roomInFront front + b.tag.size + roomBehind behind < size →
        ((resize ptr request).result h).map (·.1) = ((allocate request).result h).map (·.1) ∧
        ∀ target h', (resize ptr request).run h = .ok (.some target) h' →
          ∃ h₁ front₁ source behind₁ increment front' behind',
            (allocate request).run h = .ok (.some target) h₁ ∧
            h.Carved h₁ (front ++ b :: behind) nodes size target front₁ source behind₁ increment ∧
            placedChain h.config.placement front₁ source size behind₁ = front' ++ b :: behind' ∧
            h'.memory.size = h₁.memory.size ∧
            h.Rehoused h' ledger b size request target
              (mergedChain front' b.bp b.stop behind')) := by
  obtain ⟨_, nodes, sound⟩ := reached.sound
  obtain ⟨front, b, behind, rfl, rfl, used⟩ := sound.backs.live live
  exact ⟨front, b, behind, nodes, rfl, ChainBlock.isFree_eq_false.mp used,
    sound.backs.laid.settled.wellFormed, resize_within sound.backs used found some,
    resize_around sound.backs used found some, resize_elsewhere sound.backs used found some⟩

/-- With a block in use behind it and nothing in front, a block that is too small moves to where an
allocation would be. -/
theorem Reaches.resizes_moved :
    ∃ h h' ledger, Reaches (.withLimit 4096)
        { HeapConfig.standard with chunkSize := 96, placement := .front } 2 h ledger ∧
      (ledger 32).isSome ∧ (resize 32 40).run h = .ok (some 96) h' ∧
      ((resize 32 40).result h).map (·.1) = ((allocate 40).result h).map (·.1) ∧
      ∃ b chain', h.Rehoused h' ledger b 64 40 96 chain' := by
  have ran : ((do
      let laidOut ← init
      let answers ← Heap.run [.allocate 16, .allocate 16]
      let moved ← resize 32 40
      return (laidOut, answers, moved) :
        Action (Heap LimitedArena) (Except HeapError Unit × List Answer × Option Nat)).result
        (new (.withLimit 4096)
          { HeapConfig.standard with chunkSize := 96, placement := .front })).map (·.1) =
      .ok (.ok (), [.block (some 32), .block (some 64)], some 96) := by decide +kernel
  obtain ⟨h', ran⟩ := Action.exists_run_of_result ran
  obtain ⟨laidOut, h₁, first, ran⟩ := Action.run_bind_eq_ok.mp ran
  obtain ⟨answers, h, second, ran⟩ := Action.run_bind_eq_ok.mp ran
  obtain ⟨moved, h₂, third, ran⟩ := Action.run_bind_eq_ok.mp ran
  cases ran
  have served := (Serves.start first).run second ⟨fun _ => trivial, fun _ => trivial, trivial⟩
  have size : Block.sizeFor 40 = some 64 := by decide
  obtain ⟨front, b, behind, nodes, -, -, -, within, around, elsewhere⟩ :=
    Reaches.resizes served.reaches 32 rfl size (by decide)
  -- the answer shows that neither of the first two ways was taken
  have cramped : roomInFront front + b.tag.size + roomBehind behind < 64 := by
    by_contra fits
    by_cases enough : 64 ≤ b.tag.size
    · obtain ⟨_, stayed, -⟩ := within enough
      cases third.symm.trans stayed
    · obtain ⟨_, spread, -⟩ := around (by omega) (by omega)
      have answered := third.symm.trans spread
      simp only [EStateM.Result.ok.injEq, Option.some.injEq] at answered
      omega
  obtain ⟨same, moves⟩ := elsewhere cramped
  obtain ⟨_, _, _, _, _, _, _, -, -, -, -, rehoused⟩ := moves 96 h' third
  exact ⟨h, h', _, served.reaches, rfl, third, same, b, _, rehoused⟩

end Heap

end BoundaryHeap
