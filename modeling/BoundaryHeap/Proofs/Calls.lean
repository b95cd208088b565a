import BoundaryHeap.Proofs.Ledger

/-!
One call of a client. A heap that backs the client's ledger answers every call the ledger permits,
backs the ledger after the call, and counts no more than one of each kind.
-/

namespace BoundaryHeap

/-- The number of bytes that a call asks a block for. -/
def Call.asks : Call → Option Nat
  | .allocate size => some size
  | .calloc count size => some (count * size)
  | .resize _ size => some size
  | _ => none

namespace Heap

open FreeList (enter)

variable {h h' : Heap LimitedArena} {front behind chain nodes chain' nodes' : List ChainBlock}
  {b : ChainBlock} {ledger : Ledger} {answer : Option Nat} {request size ptr : Nat}

/-- The heap is in service, and its allocated blocks are those of the ledger. -/
structure Backs (h : Heap LimitedArena) (ledger : Ledger)
    (chain nodes : List ChainBlock) : Prop where
  laid : h.Laid chain nodes
  backed : ledger.Backed (usedOf chain) h.memory

theorem AllocateOutcome.advances
    (outcome : AllocateOutcome h chain nodes request answer h' chain' nodes') : h.Advances h' := by
  cases outcome with
  | nothing empty agrees => exact agrees.advances
  | refused some agrees lacks => exact agrees.failed_advances
  | served some found allocated => exact allocated.advances

theorem ResizeOutcome.advances
    (outcome : ResizeOutcome h front b behind nodes request answer h' chain' nodes') :
    h.Advances h' := by
  cases outcome with
  | refused agrees lacks cramped => exact agrees.failed_advances
  | resized found way => exact way.advances

/-! ## The ledger after a call -/

/-- A pointer in the ledger is that of an allocated block. -/
theorem Backs.live (backs : h.Backs ledger chain nodes) (live : (ledger ptr).isSome) :
    ∃ front b behind, chain = front ++ b :: behind ∧ b.bp = ptr ∧ b.isFree = false := by
  obtain ⟨holding, found⟩ := Option.isSome_iff_exists.mp live
  obtain ⟨b, member, place, -⟩ := backs.backed.fits ptr holding found
  obtain ⟨inChain, used⟩ := mem_usedOf.mp member
  obtain ⟨front, behind, rfl⟩ := List.append_of_mem inChain
  exact ⟨front, b, behind, rfl, place, used⟩

/-- No block is at the pointer zero. -/
theorem Backs.null (backs : h.Backs ledger chain nodes) : ledger 0 = none :=
  backs.backed.eq_none fun b member => by
    have within := backs.laid.settled.holds.within b (mem_usedOf.mp member).1
    omega

/-- The ledger without the pointer of a block is backed by the others. -/
theorem Backs.others (backs : h.Backs ledger (front ++ b :: behind) nodes)
    (used : b.isFree = false) :
    (ledger.drop b.bp).Backed (usedOf front ++ usedOf behind) h.memory := by
  have same : (usedOf (front ++ b :: behind)).Perm (b :: (usedOf front ++ usedOf behind)) :=
    usedOf_middle used
  exact (backs.backed.perm same).drop fun c member => backs.laid.settled.bp_ne same member

theorem Agrees.backs (agrees : Agrees h h') (backs : h.Backs ledger chain nodes) :
    h'.Backs ledger chain nodes := by
  refine ⟨agrees.laid backs.laid, ?_⟩
  obtain ⟨_, _, rfl⟩ := agrees
  exact backs.backed

theorem Agrees.failed_backs (agrees : Agrees h.failed h') (backs : h.Backs ledger chain nodes) :
    h'.Backs ledger chain nodes := by
  refine ⟨agrees.failed_laid backs.laid, ?_⟩
  obtain ⟨_, _, rfl⟩ := agrees
  exact backs.backed

theorem Released.backs (released : Released h front b behind nodes h')
    (backs : h.Backs ledger (front ++ b :: behind) nodes) (used : b.isFree = false) :
    h'.Backs (ledger.drop b.bp) (mergedChain front b.bp b.stop behind)
      (enter (merged front b.bp b.stop behind) (dropNeighbours front behind nodes)) := by
  refine ⟨released.laid, ?_⟩
  rw [usedOf_mergedChain]
  exact (backs.others used).keeps released.keeps

/-- A block handed out enters the ledger with whatever is true of it. -/
theorem AllocateOutcome.backs (backs : h.Backs ledger chain nodes)
    (outcome : AllocateOutcome h chain nodes request answer h' chain' nodes') {holding : Holding}
    (fits : ∀ b ∈ chain', answer = some b.bp → request + 16 ≤ b.tag.size →
      holding.Fits b h'.memory) :
    h'.Backs (answer.elim ledger (ledger.add · holding)) chain' nodes' := by
  cases outcome with
  | nothing empty agrees => exact agrees.backs backs
  | refused some agrees lacks => exact agrees.failed_backs backs
  | @served size b _ _ _ some found allocated =>
    obtain ⟨-, room⟩ := Block.sizeFor_eq_some found
    have entered := (backs.backed.keeps allocated.keeps).add
      (fits b allocated.isUsed.1 rfl (Nat.le_trans room allocated.enough))
    exact ⟨allocated.laid, entered.perm allocated.used.symm⟩

theorem AllocateOutcome.ne_zero
    (outcome : AllocateOutcome h chain nodes request (some ptr) h' chain' nodes') :
    request ≠ 0 := by
  cases outcome with
  | served some found allocated => exact some

/-- A block is handed out at a pointer that was not live. -/
theorem AllocateOutcome.fresh (backs : h.Backs ledger chain nodes)
    (outcome : AllocateOutcome h chain nodes request (some ptr) h' chain' nodes') :
    ledger ptr = none := by
  cases outcome with
  | served some found allocated =>
    exact backs.backed.eq_none fun c member => allocated.laid.settled.bp_ne allocated.used member

/-- A block that is resized is renamed in the ledger. -/
theorem ResizeOutcome.backs (backs : h.Backs ledger (front ++ b :: behind) nodes)
    (used : b.isFree = false)
    (outcome : ResizeOutcome h front b behind nodes request answer h' chain' nodes') :
    h'.Backs (answer.elim ledger fun target =>
      (ledger.drop b.bp).add target ((ledger b.bp).elim (.fresh request) (·.resized request)))
      chain' nodes' := by
  cases outcome with
  | refused agrees lacks cramped => exact agrees.failed_backs backs
  | resized found way =>
    obtain ⟨-, room⟩ := Block.sizeFor_eq_some found
    obtain ⟨b', rfl, laid', carried⟩ := way.carried backs.laid used found
    obtain ⟨holding, known⟩ := Option.isSome_iff_exists.mp
      (backs.backed.entered b (mem_usedOf.mpr ⟨by simp, used⟩))
    obtain ⟨c, member, place, fits⟩ := backs.backed.fits b.bp holding known
    obtain rfl : c = b :=
      backs.laid.settled.eq_of_bp (mem_usedOf.mp member).1 (by simp) place
    have entered := ((backs.others used).keeps carried.keeps).add
      (fits.resized (Nat.le_trans room carried.enough) carried.bytes)
    simp only [known, Option.elim_some]
    exact ⟨laid', entered.perm carried.used.symm⟩

/-- A resized block is at a pointer that was not live, or stays where it was. -/
theorem ResizeOutcome.fresh (backs : h.Backs ledger (front ++ b :: behind) nodes)
    (used : b.isFree = false)
    (outcome : ResizeOutcome h front b behind nodes request (some ptr) h' chain' nodes') :
    ledger.drop b.bp ptr = none := by
  cases outcome with
  | resized found way =>
    obtain ⟨b', rfl, laid', carried⟩ := way.carried backs.laid used found
    exact (backs.others used).eq_none fun c member => laid'.settled.bp_ne carried.used member

/-- A write into a payload is all that changes. -/
theorem Backs.written (backs : h.Backs ledger (front ++ b :: behind) nodes)
    (used : b.isFree = false)
    {offset : Nat} {values : List UInt8} (inside : offset + values.length + 16 ≤ b.tag.size)
    {r : Region} (settled : r.Settled (front ++ b :: behind) nodes)
    (changed : h.memory.ChangedOnly r.memory
      (fun i => b.bp + offset ≤ i ∧ i < b.bp + offset + values.length))
    (bytes : ∀ index (_ : index < values.length),
      r.memory.byte (b.bp + offset + index) = values[index]) :
    (h.withRegion r).Backs ((ledger b.bp).elim ledger fun holding =>
      ledger.add b.bp (holding.written offset values)) (front ++ b :: behind) nodes := by
  obtain ⟨holding, known⟩ := Option.isSome_iff_exists.mp
    (backs.backed.entered b (mem_usedOf.mpr ⟨by simp, used⟩))
  obtain ⟨c, member, place, fits⟩ := backs.backed.fits b.bp holding known
  obtain rfl : c = b := backs.laid.settled.eq_of_bp (mem_usedOf.mp member).1 (by simp) place
  have same : (usedOf (front ++ c :: behind)).Perm (c :: (usedOf front ++ usedOf behind)) :=
    usedOf_middle used
  have keeps : Keeps h.memory r.memory (usedOf front ++ usedOf behind) := by
    refine settled.keeps_others (r := h.region) same (changed.mono fun i here => .inl ?_)
    simp only [ChainBlock.HasPayload, ChainBlock.stop]
    omega
  have entered := ((backs.others used).keeps keeps).add (fits.written inside changed bytes)
  rw [Ledger.add_drop] at entered
  simp only [known, Option.elim_some]
  exact ⟨⟨settled, backs.laid.prologue, backs.laid.initialized⟩, entered.perm same.symm⟩

/-! ## What a client finds -/

section Finds

variable {holding : Holding}

/-- A holding is true of an allocated block at its pointer. -/
theorem Backs.exists_block (backs : h.Backs ledger chain nodes)
    (found : ledger ptr = some holding) :
    ∃ b ∈ chain, b.isFree = false ∧ b.bp = ptr ∧ holding.Fits b h.memory := by
  obtain ⟨b, member, place, fits⟩ := backs.backed.fits ptr holding found
  obtain ⟨inChain, used⟩ := mem_usedOf.mp member
  exact ⟨b, inChain, used, place, fits⟩

/-- What a client finds at a pointer of its ledger. -/
theorem Backs.payload (backs : h.Backs ledger chain nodes) (found : ledger ptr = some holding) :
    ∃ bytes, h.payload ptr = .ok (some bytes) ∧ h.usableSize ptr = .ok (some bytes.length) ∧
      holding.requested ≤ bytes.length ∧
      ∀ index byte, holding.known index = some byte → bytes[index]? = some byte := by
  obtain ⟨b, member, used, rfl, enough, known⟩ := backs.exists_block found
  refine ⟨_, backs.laid.payload_eq member used, ?_, ?_, ?_⟩
  · rw [Memory.length_slice]
    exact backs.laid.usableSize_eq member used
  · rw [Memory.length_slice]
    omega
  · intro index byte here
    obtain ⟨inside, held⟩ := known index byte here
    rw [Memory.getElem?_slice h.memory (by omega), held]

theorem Backs.aligned (backs : h.Backs ledger chain nodes) (found : ledger ptr = some holding) :
    ptr % 16 = 0 := by
  obtain ⟨b, member, -, rfl, -⟩ := backs.exists_block found
  exact (backs.laid.settled.holds.legal b member).aligned

theorem Backs.inside (backs : h.Backs ledger chain nodes) (found : ledger ptr = some holding) :
    ptr + holding.requested ≤ h.memory.size := by
  obtain ⟨b, member, -, rfl, enough, -⟩ := backs.exists_block found
  have within : b.bp + b.tag.size ≤ h.memory.size := (backs.laid.settled.holds.within b member).2
  omega

/-- The bytes asked for at two pointers do not overlap. -/
theorem Backs.apart (backs : h.Backs ledger chain nodes) {other : Nat} {holding' : Holding}
    (found : ledger ptr = some holding) (found' : ledger other = some holding')
    (different : ptr ≠ other) :
    ptr + holding.requested ≤ other ∨ other + holding'.requested ≤ ptr := by
  obtain ⟨b, bMem, -, rfl, bEnough, -⟩ := backs.exists_block found
  obtain ⟨c, cMem, -, rfl, cEnough, -⟩ := backs.exists_block found'
  have apart := backs.laid.settled.holds.apart b bMem c cMem fun same => different (same ▸ rfl)
  simp only [ChainBlock.Apart, ChainBlock.stop] at apart
  omega

end Finds

/-! ## Calls -/

section Calls

variable {call : Call} {excused : Fault → Prop}

/-- What every call the ledger permits comes to. -/
def Follows (h : Heap LimitedArena) (ledger : Ledger) (call : Call) (answer : Answer)
    (h' : Heap LimitedArena) : Prop :=
  h.Advances h' ∧ ∃ chain' nodes', h'.Backs (ledger.after call answer) chain' nodes'

theorem Backs.allocate_ensures (backs : h.Backs ledger chain nodes) (request : Nat) :
    (allocate request).Ensures h (Overgrown (h.Overreaches nodes request)) fun answer h' =>
      h.Follows ledger (.allocate request) (.block answer) h' ∧
        ∀ target, answer = some target → request ≠ 0 ∧ ledger target = none := by
  apply ((Heap.allocate_ensures backs.laid request).overgrown fun bursts =>
    bursts.overreaches).imp
  rintro answer h' ⟨chain', nodes', outcome⟩
  have backs' := outcome.backs backs fun _ _ _ enough => Holding.fits_fresh enough
  refine ⟨⟨outcome.advances, chain', nodes', ?_⟩, ?_⟩
  · cases answer <;> exact backs'
  · rintro target rfl
    exact ⟨outcome.ne_zero, outcome.fresh backs⟩

theorem Backs.calloc_ensures (backs : h.Backs ledger chain nodes) (items size : Nat) :
    (calloc items size).Ensures h (Overgrown (h.Overreaches nodes (items * size)))
      fun answer h' => h.Follows ledger (.calloc items size) (.block answer) h' := by
  apply ((Heap.calloc_ensures backs.laid items size).overgrown fun bursts =>
    bursts.overreaches).imp
  rintro answer h' (⟨rfl, -, agrees⟩ | ⟨chain', nodes', outcome, zero⟩)
  · exact ⟨agrees.failed_advances, chain, nodes, agrees.failed_backs backs⟩
  · have backs' := outcome.backs backs fun b member answered enough =>
      Holding.fits_cleared enough (zero b member answered)
    refine ⟨outcome.advances, chain', nodes', ?_⟩
    cases answer <;> exact backs'

theorem Backs.release_ensures (backs : h.Backs ledger chain nodes)
    (live : ptr = 0 ∨ (ledger ptr).isSome) :
    (release ptr).Ensures h excused fun _ h' => h.Follows ledger (.release ptr) .released h' := by
  cases live with
  | inl same =>
    subst same
    refine (release_null_ensures backs.laid).imp fun _ h' agrees => ?_
    refine ⟨agrees.advances, chain, nodes, ?_⟩
    simp only [Ledger.after, Ledger.drop_of_none backs.null]
    exact agrees.backs backs
  | inr live =>
    obtain ⟨front, b, behind, rfl, rfl, used⟩ := backs.live live
    refine (Heap.release_ensures backs.laid used).imp fun _ h' released => ?_
    exact ⟨released.advances, _, _, released.backs backs used⟩

theorem Backs.resize_ensures (backs : h.Backs ledger chain nodes) (request : Nat)
    (live : ptr = 0 ∨ (ledger ptr).isSome) :
    (resize ptr request).Ensures h (Overgrown (h.Overreaches nodes request)) fun answer h' =>
      h.Follows ledger (.resize ptr request) (.block answer) h' ∧
        ∀ target, answer = some target → request ≠ 0 ∧ ledger.drop ptr target = none := by
  cases live with
  | inl same =>
    subst same
    apply ((resize_null_ensures backs.laid request).overgrown fun bursts =>
      bursts.overreaches).imp
    rintro answer h' ⟨chain', nodes', outcome⟩
    have backs' := outcome.backs backs fun _ _ _ enough => Holding.fits_fresh enough
    rw [Ledger.drop_of_none backs.null]
    refine ⟨⟨outcome.advances, chain', nodes', ?_⟩, ?_⟩
    · simp only [Ledger.after, Ledger.drop_of_none backs.null, backs.null, Option.elim_none]
      by_cases nothing : request = 0
      · rw [if_pos nothing]
        cases outcome with
        | nothing _ agrees => exact agrees.backs backs
        | refused some => exact absurd nothing some
        | served some => exact absurd nothing some
      · rw [if_neg nothing]
        exact backs'
    · rintro target rfl
      exact ⟨outcome.ne_zero, outcome.fresh backs⟩
  | inr live =>
    obtain ⟨front, b, behind, rfl, rfl, used⟩ := backs.live live
    by_cases nothing : request = 0
    · subst nothing
      apply (resize_zero_ensures backs.laid used).imp
      rintro _ h' ⟨rfl, released⟩
      exact ⟨⟨released.advances, _, _, released.backs backs used⟩,
        fun _ answered => by cases answered⟩
    · refine ((Heap.resize_ensures backs.laid used nothing).overgrown fun bursts =>
        bursts.overreaches nothing).imp ?_
      rintro answer h' ⟨chain', nodes', outcome⟩
      refine ⟨⟨outcome.advances, chain', nodes', ?_⟩, ?_⟩
      · simp only [Ledger.after, if_neg nothing]
        exact outcome.backs backs used
      · rintro target rfl
        exact ⟨nothing, outcome.fresh backs used⟩

/-- A write that a client may make stays in the payload of a block in use. -/
theorem Backs.exists_room (backs : h.Backs ledger chain nodes) (live : (ledger ptr).isSome)
    {offset count length : Nat} (usable : h.usableSize ptr = .ok (some length))
    (fits : offset + count ≤ length) :
    ∃ front b behind, chain = front ++ b :: behind ∧ b.bp = ptr ∧ b.isFree = false ∧
      offset + count + 16 ≤ b.tag.size := by
  obtain ⟨front, b, behind, rfl, rfl, used⟩ := backs.live live
  have member : b ∈ front ++ b :: behind := by simp
  have large := (backs.laid.settled.holds.legal b member).large
  rw [backs.laid.usableSize_eq member used] at usable
  cases usable
  exact ⟨front, b, behind, rfl, rfl, used, by omega⟩

theorem Backs.patch_ensures (backs : h.Backs ledger chain nodes) {holding : Holding}
    (found : ledger ptr = some holding) {offset length : Nat} {values : List UInt8}
    (usable : h.usableSize ptr = .ok (some length)) (fits : offset + values.length ≤ length) :
    (patch ptr offset values).Ensures h excused fun answer h' => answer = true ∧
      h.Follows ledger (.write ptr offset values) (.written answer) h' := by
  have live : (ledger ptr).isSome := by rw [found]; rfl
  obtain ⟨front, b, behind, rfl, rfl, used, inside⟩ := backs.exists_room live usable fits
  have member : b ∈ front ++ b :: behind := by simp
  apply (Heap.patch_ensures backs.laid member used inside).imp
  rintro _ _ ⟨rfl, r, rfl, settled, changed, bytes⟩
  have edited : h.Edited r id (h.withRegion r) := .refl _
  exact ⟨rfl, edited.advances changed.size rfl rfl fun _ within => within.succ, _, _,
    backs.written used inside settled changed bytes⟩

/-- A heap that backs a ledger answers every call the ledger permits, unless what the call asks for
takes the arena past what an address space has. -/
theorem call_ensures (backs : h.Backs ledger chain nodes) (permitted : ledger.Permits h call) :
    (Heap.call call).Ensures h
      (Overgrown (∃ request, call.asks = some request ∧ h.Overreaches nodes request))
      (h.Follows ledger call) := by
  cases call with
  | init => exact permitted.elim
  | allocate request =>
    apply ((backs.allocate_ensures request).overgrown fun overreaches => ⟨_, rfl, overreaches⟩).bind
    exact fun _ _ holds => .pure holds.1
  | calloc items size =>
    apply ((backs.calloc_ensures items size).overgrown fun overreaches =>
      ⟨_, rfl, overreaches⟩).bind
    exact fun _ _ holds => .pure holds
  | release ptr =>
    exact (backs.release_ensures permitted).bind fun _ _ holds => .pure holds
  | resize ptr request =>
    apply ((backs.resize_ensures request permitted).overgrown fun overreaches =>
      ⟨_, rfl, overreaches⟩).bind
    exact fun _ _ holds => .pure holds.1
  | write ptr offset values =>
    obtain ⟨live, length, usable, fits⟩ := permitted
    obtain ⟨holding, found⟩ := Option.isSome_iff_exists.mp live
    exact (backs.patch_ensures found usable fits).bind fun _ _ holds => .pure holds.2

end Calls

end Heap

end BoundaryHeap
