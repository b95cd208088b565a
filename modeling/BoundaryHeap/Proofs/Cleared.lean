import BoundaryHeap.Proofs.History
import BoundaryHeap.Proofs.Lockstep

/-!
An allocation that clears is an allocation whose payload is zero. Up to the clearing the two go on
alike, but for the name their records are made in; the clearing then keeps to the payload of the
block handed out. The size of that payload is read off the block, so nothing of it is left over
where the block is larger than was asked for.
-/

namespace BoundaryHeap

open BoundaryHeap.Action (Matching)

/-- What a payload that is all zero reads as. -/
theorem Memory.slice_of_zero {m : Memory} {b : ChainBlock}
    (zero : ∀ i, b.HasPayload i → m.byte i = 0) :
    m.slice b.bp (b.tag.size - 16) = List.replicate (b.tag.size - 16) 0 := by
  refine List.eq_replicate_iff.mpr ⟨length_slice .., fun byte member => ?_⟩
  obtain ⟨index, within, rfl⟩ := List.mem_map.mp member
  rw [List.mem_range] at within
  exact zero _ ⟨Nat.le_add_right .., by simp only [ChainBlock.stop]; omega⟩

namespace Region

variable {r r' : Region} {chain nodes : List ChainBlock} {b c : ChainBlock} {i : Nat}

/-- Clearing leaves the ends of the list alone. -/
theorem clear_preserves (bp : Nat) : (clear bp).Preserves (·.freeList) :=
  .bind (.ask _) fun _ => .bind (.lift _) fun _ => .focus fun _ _ => rfl

/-- Outside of its own payload no byte of a block lies in the payload of any. -/
theorem Settled.not_hasPayload (settled : r.Settled chain nodes) (bMem : b ∈ chain)
    (cMem : c ∈ chain) (covered : c.Covers i) (outside : c = b → ¬ c.HasPayload i) :
    ¬ b.HasPayload i := by
  intro payload
  by_cases same : c = b
  · exact outside same (same ▸ payload)
  · exact (settled.holds.apart c cMem b bMem same).not_covers covered payload.covers

end Region

namespace Heap

variable {arena : LimitedArena} {config : HeapConfig} {n : Nat} {h h' h₁ h₂ : Heap LimitedArena}
  {ledger : Ledger} {chain nodes : List ChainBlock} {b : ChainBlock} {α : Type}

/-! ## Heaps that agree -/

section Agreement

variable {A : Type} {g g' : Heap A}

theorem Agrees.symm (agrees : Agrees g g') : Agrees g' g := by
  obtain ⟨_, _, rfl⟩ := agrees
  exact ⟨_, _, rfl⟩

/-- Being the same but for the records lasts, in whatever name these are made. -/
theorem parallel_agrees [Arena A] (symbol symbol' : String) :
    Parallel (A := A) Agrees symbol symbol' where
  visible := by
    rintro h _ ⟨_, _, rfl⟩
    rfl
  arena := by
    rintro h _ ⟨_, _, rfl⟩ arena
    exact ⟨_, _, rfl⟩
  freeList := by
    rintro h _ ⟨_, _, rfl⟩ freeList
    exact ⟨_, _, rfl⟩
  prologue := by
    rintro h _ ⟨_, _, rfl⟩ prologue
    exact ⟨_, _, rfl⟩
  initialized := by
    rintro h _ ⟨_, _, rfl⟩ initialized
    exact ⟨_, _, rfl⟩
  counters := by
    rintro h _ ⟨_, _, rfl⟩ change
    exact ⟨_, _, rfl⟩
  records agrees _ _ _ _ _ _ :=
    (agrees_withRecord ..).symm.trans (agrees.trans (agrees_withRecord ..))

end Agreement

/-! ## Clearing -/

/-- The second heap is the first with the payload of the block `b` cleared. Tags, links and the
other payloads are as they were, and besides the memory no more than records are different. -/
structure Clears (h₁ h₂ : Heap LimitedArena) (chain nodes : List ChainBlock) (b : ChainBlock) :
    Prop where
  before : h₁.memory.WellFormed 16 h₁.freeList chain nodes
  after : h₂.memory.WellFormed 16 h₂.freeList chain nodes
  used : b ∈ chain ∧ b.tag.allocated = true
  zero : h₂.payload b.bp = .ok (some (List.replicate (b.tag.size - 16) 0))
  size : h₂.memory.size = h₁.memory.size
  tags : ∀ c ∈ chain, ∀ i, c.HasTag i → h₂.memory.byte i = h₁.memory.byte i
  links : ∀ c ∈ nodes, ∀ i, c.HasLink i → h₂.memory.byte i = h₁.memory.byte i
  payloads : ∀ c ∈ chain, c.tag.allocated = true → c ≠ b → h₂.payload c.bp = h₁.payload c.bp
  freeList : h₂.freeList = h₁.freeList
  rest : Agrees (h₁.withRegion h₂.region) h₂

/-- An allocation beside one of as many bytes that clears: both are refused, or both hand out the
same block, which the second has cleared, or both meet the same fault. -/
inductive Clearing : EStateM.Result Fault (Heap LimitedArena) (Option Nat) →
    EStateM.Result Fault (Heap LimitedArena) (Option Nat) → Prop
  | refused {h₁ h₂ : Heap LimitedArena} (agrees : Agrees h₁ h₂) :
    Clearing (.ok none h₁) (.ok none h₂)
  | served {ptr : Nat} {h₁ h₂ : Heap LimitedArena} {chain nodes : List ChainBlock} {b : ChainBlock}
    (place : b.bp = ptr) (clears : Clears h₁ h₂ chain nodes b) :
    Clearing (.ok (some ptr) h₁) (.ok (some ptr) h₂)
  | fault (fault : Fault) {h₁ h₂ : Heap LimitedArena} (agrees : Agrees h₁ h₂) :
    Clearing (.error fault h₁) (.error fault h₂)

/-- Clearing an allocated block in a heap that agrees with another. -/
theorem Laid.clear_run (laid : h₁.Laid chain nodes) (agrees : Agrees h₁ h) (member : b ∈ chain)
    (used : b.isFree = false) :
    ∃ h₂, (edit (Region.clear b.bp)).run h = .ok () h₂ ∧ h₂.Laid chain nodes ∧
      Clears h₁ h₂ chain nodes b := by
  obtain ⟨next, records, rfl⟩ := agrees
  have settled := laid.settled
  obtain ⟨_, r, cleared, settled', changed, zero⟩ :=
    (settled.clear_ensures member used).exists_run
  have list : r.freeList = h₁.freeList := (Region.clear_preserves b.bp).of_ok cleared
  have laid' : (Heap.withRegion { h₁ with nextRecord := next, records } r).Laid chain nodes :=
    ⟨settled', laid.prologue, laid.initialized⟩
  have large {c : ChainBlock} (known : c ∈ chain) : 32 ≤ c.tag.size :=
    (settled.holds.legal c known).large
  have free {c : ChainBlock} (listed : c ∈ nodes) : c ∈ chain ∧ c ≠ b := by
    obtain ⟨known, free⟩ := settled.mem_nodes.mp listed
    refine ⟨known, ?_⟩
    rintro rfl
    cases free.symm.trans used
  refine ⟨_, edit_run (h := { h₁ with nextRecord := next, records }) cleared, laid', ?_⟩
  constructor
  case before => exact settled.wellFormed
  case after => exact settled'.wellFormed
  case used => exact ⟨member, ChainBlock.isFree_eq_false.mp used⟩
  case zero =>
    rw [← Memory.slice_of_zero zero]
    exact laid'.payload_eq member used
  case size => exact changed.size
  case tags =>
    intro c known i tag
    exact changed.byte i (settled.not_hasPayload member known (tag.covers (large known))
      fun _ payload => payload.not_hasTag tag)
  case links =>
    intro c listed i link
    obtain ⟨known, other⟩ := free listed
    exact changed.byte i (settled.not_hasPayload member known (link.covers (large known))
      fun same => absurd same other)
  case payloads =>
    intro c known allocated other
    have inUse := mem_usedOf.mpr ⟨known, ChainBlock.isFree_eq_false.mpr allocated⟩
    have keeps : Keeps h₁.memory r.memory [c] := by
      intro d only i payload
      obtain rfl := List.mem_singleton.mp only
      exact changed.byte i (settled.not_hasPayload member known payload.covers
        fun same => absurd same other)
    exact laid.payload_kept laid' keeps List.mem_cons_self inUse inUse
  case freeList => exact list
  case rest => exact ⟨next, records, rfl⟩

/-- A product that leaves 64 bits is refused and counted, before anything else is done. -/
theorem Laid.calloc_overflow (laid : h.Laid chain nodes) {items size : Nat}
    (huge : wordLimit ≤ items * size) :
    (calloc items size).Ensures h Action.Total fun answer h' =>
      answer = none ∧ Agrees h.failed h' := by
  refine scanned_ensures ?_ (fun _ _ holds => (holds.2.failed_laid laid).check_eq) "calloc"
  rw [callocAs, if_pos huge]
  exact count_ensures (record_ensures fun h' agrees => .pure ⟨rfl, agrees⟩)

/-- An allocation and one that clears, of the same bytes from the same heap. -/
theorem Laid.calloc_clearing (laid : h.Laid chain nodes) {items size : Nat}
    (small : items * size < wordLimit) :
    Clearing ((allocate (items * size)).run h) ((calloc items size).run h) := by
  have matching : Matching Agrees ((allocateAs "allocate" (items * size)).run h)
      ((allocateAs "calloc" (items * size)).run h) :=
    (parallel_agrees "allocate" "calloc").allocateAs (Agrees.refl h)
  have ensured := allocateAs_ensures laid "allocate" (items * size)
  generalize first : (allocateAs "allocate" (items * size)).run h = outcome at matching
  generalize second : (allocateAs "calloc" (items * size)).run h = outcome' at matching
  have unfolded : callocAs (A := LimitedArena) "calloc" items size = _ :=
    if_neg (Nat.not_le.mpr small)
  cases matching with
  | @error fault h₁ h₂ agrees =>
    have allocated : (allocate (items * size)).run h = .error fault h₁ := by
      rw [allocate, EStateM.run_bind, first]
    have cleared : (calloc items size).run h = .error fault h₂ := by
      rw [calloc, unfolded, EStateM.run_bind, EStateM.run_bind, second]
    rw [allocated, cleared]
    exact .fault fault agrees
  | @ok answer h₁ h₂ agrees =>
    obtain ⟨chain', nodes', outcome⟩ := ensured.holds first
    have laid₁ := outcome.laid laid
    have allocated : (allocate (items * size)).run h = .ok answer h₁ :=
      scanned_run first laid₁.check_eq "allocate"
    rw [allocated]
    cases answer with
    | none =>
      have cleared : (callocAs "calloc" items size).run h = .ok none h₂ := by
        rw [unfolded]
        exact Action.run_bind_eq_ok.mpr ⟨_, _, second, rfl⟩
      rw [calloc, scanned_run cleared (agrees.laid laid₁).check_eq]
      exact .refused agrees
    | some ptr =>
      cases outcome with
      | @served _ b _ _ _ asked found block =>
        obtain ⟨member, used⟩ := block.isUsed
        obtain ⟨h₃, edited, laid₃, clears⟩ := laid₁.clear_run agrees member used
        have cleared : (callocAs "calloc" items size).run h = .ok (some b.bp) h₃ := by
          rw [unfolded]
          exact Action.run_bind_eq_ok.mpr ⟨_, _, second,
            Action.run_bind_eq_ok.mpr ⟨_, _, edited, rfl⟩⟩
        rw [calloc, scanned_run cleared laid₃.check_eq]
        exact .served rfl clears

/-- In every heap that a client can reach, a product that leaves 64 bits is refused with the memory
and the free list as they were, and any other request for cleared items comes to what an allocation
of as many bytes comes to, with the payload cleared. -/
theorem Reaches.calloc_clears (reached : Reaches arena config n h ledger) (items size : Nat) :
    (wordLimit ≤ items * size → ∃ h', (calloc items size).run h = .ok none h' ∧
      h'.arena = h.arena ∧ h'.freeList = h.freeList) ∧
    (items * size < wordLimit →
      Clearing ((allocate (items * size)).run h) ((calloc items size).run h)) := by
  obtain ⟨chain, nodes, sound⟩ := reached.sound
  refine ⟨fun huge => ?_, sound.backs.laid.calloc_clearing⟩
  obtain ⟨_, h', ran, rfl, _, _, rfl⟩ := (sound.backs.laid.calloc_overflow huge).exists_run
  exact ⟨_, ran, rfl, rfl⟩

/-- A client that has left bytes of its own in the block that comes next. -/
theorem Reaches.calloc_clears_dirty :
    ∃ h h₁ h₂ h₃ ledger chain nodes b bytes, Reaches (.withLimit 4096)
        { HeapConfig.standard with chunkSize := 128, placement := .front } 3 h ledger ∧
      (calloc wordLimit 1).run h = .ok none h₃ ∧ h₃.arena = h.arena ∧
      (allocate 24).run h = .ok (some 32) h₁ ∧ (calloc 3 8).run h = .ok (some 32) h₂ ∧
      Clears h₁ h₂ chain nodes b ∧ h₁.payload 32 = .ok (some bytes) ∧ bytes[31]? = some 255 := by
  have ran : ((do
      let laidOut ← init
      let answers ← Heap.run [.allocate 40]
      let room ← Action.ask (·.usableSize 32)
      let written ← Heap.call (.write 32 0 (List.replicate 40 255))
      let released ← Heap.run [.release 32]
      let ptr ← allocate 24
      let held ← Action.ask (·.payload 32)
      return (laidOut, [answers, [written], released], [room, ptr], held.bind (·[31]?)) :
        Action (Heap LimitedArena) (Except HeapError Unit × List (List Answer) ×
          List (Option Nat) × Option UInt8)).result
        (new (.withLimit 4096)
          { HeapConfig.standard with chunkSize := 128, placement := .front })).map (·.1) =
      .ok (.ok (), [[.block (some 32)], [.written true], [.released]], [some 48, some 32],
        some 255) := by decide +kernel
  obtain ⟨h₁, ran⟩ := Action.exists_run_of_result ran
  obtain ⟨laidOut, h₀, first, ran⟩ := Action.run_bind_eq_ok.mp ran
  obtain ⟨answers, _, second, ran⟩ := Action.run_bind_eq_ok.mp ran
  obtain ⟨room, _, asked, ran⟩ := Action.run_bind_eq_ok.mp ran
  obtain ⟨usable, rfl⟩ := Action.run_ask_eq_ok.mp asked
  obtain ⟨written, _, third, ran⟩ := Action.run_bind_eq_ok.mp ran
  obtain ⟨released, h, fourth, ran⟩ := Action.run_bind_eq_ok.mp ran
  obtain ⟨ptr, _, fifth, ran⟩ := Action.run_bind_eq_ok.mp ran
  obtain ⟨held, _, asked, ran⟩ := Action.run_bind_eq_ok.mp ran
  obtain ⟨payload, rfl⟩ := Action.run_ask_eq_ok.mp asked
  injection ran with shown same
  simp only [Prod.mk.injEq, List.cons.injEq, and_true] at shown
  obtain ⟨rfl, ⟨rfl, rfl, rfl⟩, ⟨rfl, rfl⟩, last⟩ := shown
  subst same
  obtain ⟨bytes, rfl, dirty⟩ := Option.bind_eq_some_iff.mp last
  have held := (Serves.start first).run second ⟨fun _ => trivial, trivial⟩
  have filled := held.step (by exact ⟨rfl, 48, usable, by decide⟩) third
  have reached := (filled.run fourth ⟨fun _ => .inr rfl, trivial⟩).reaches
  obtain ⟨h₃, refused, arena, -⟩ := (reached.calloc_clears wordLimit 1).1 (by decide)
  have clearing := (reached.calloc_clears 3 8).2 (by decide)
  have same : (allocate (3 * 8)).run h = .ok (some 32) _ := fifth
  rw [same] at clearing
  generalize cleared : (calloc 3 8).run h = outcome at clearing
  cases clearing with
  | @served _ _ h₂ chain nodes b place clears =>
    exact ⟨h, _, h₂, h₃, _, chain, nodes, b, bytes, reached, refused, arena, fifth, cleared, clears,
      payload, dirty⟩

end Heap

end BoundaryHeap
