import BoundaryHeap.Proofs.Calls

/-!
Whole runs of a client against one heap: a layout that succeeds, and then any calls the client's
ledger permits. Every heap such a run comes to is well formed and holds what the client wrote.
-/

namespace BoundaryHeap

deriving instance DecidableEq for Answer

namespace Heap

variable {arena : LimitedArena} {config : HeapConfig} {n : Nat} {h h' : Heap LimitedArena}
  {ledger : Ledger} {chain nodes : List ChainBlock}

/-- A heap over `arena` that a client has laid out and made `n` calls to, and the ledger of the
client. -/
inductive Reaches (arena : LimitedArena) (config : HeapConfig) :
    Nat → Heap LimitedArena → Ledger → Prop
  | start {h : Heap LimitedArena} (laidOut : init.run (new arena config) = .ok (.ok ()) h) :
    Reaches arena config 0 h .empty
  | step {n : Nat} {h h' : Heap LimitedArena} {ledger : Ledger} {call : Call} {answer : Answer}
    (before : Reaches arena config n h ledger) (permitted : ledger.Permits h call)
    (ran : (Heap.call call).run h = .ok answer h') :
    Reaches arena config (n + 1) h' (ledger.after call answer)

/-- What holds between any two calls of a run. -/
structure Sound (arena : LimitedArena) (n : Nat) (h : Heap LimitedArena) (ledger : Ledger)
    (chain nodes : List ChainBlock) : Prop where
  backs : h.Backs ledger chain nodes
  limit : h.arena.limit = arena.limit
  within : h.counters.Within n
  growBytes : h.counters.growBytes = h.memory.size
  growCalls : h.counters.growCalls = h.arena.growCalls
  paid : h.arena.growCalls ≤ h.memory.size
  room : 32 < h.memory.size
  capped : h.memory.size < capacityLimit

/-- A layout leaves one free block, and an empty ledger. -/
theorem Sound.start (laidOut : init.run (new arena config) = .ok (.ok ()) h) :
    ∃ chain nodes, Sound arena 0 h .empty chain nodes := by
  rcases (init_ensures (new arena config)).holds laidOut with ⟨_, failed, -⟩ |
    ⟨size, -, fresh, laid⟩
  · cases failed
  · have enough := Block.le_of_roundUp fresh.rounded
    have bytes := fresh.bytes
    have nothing : usedOf [whole size] = [] := rfl
    have backed : Ledger.Backed .empty (usedOf [whole size]) h.memory := by
      rw [nothing]
      exact ⟨fun _ member => absurd member List.not_mem_nil, fun _ _ found => by cases found⟩
    refine ⟨_, _,
      { backs := ⟨laid, backed⟩
        limit := fresh.limit
        within := ?_
        growBytes := ?_
        growCalls := ?_
        paid := ?_
        room := by omega
        capped := fresh.capped }⟩
    · rw [fresh.counters]
      constructor <;> exact Nat.le_refl 0
    · rw [fresh.counters, bytes]
      exact Nat.zero_add _
    · rw [fresh.counters, fresh.growCalls]
      rfl
    · rw [fresh.growCalls]
      omega

theorem Sound.step {call : Call} {answer : Answer} (sound : Sound arena n h ledger chain nodes)
    (permitted : ledger.Permits h call) (ran : (Heap.call call).run h = .ok answer h') :
    ∃ chain' nodes', Sound arena (n + 1) h' (ledger.after call answer) chain' nodes' := by
  obtain ⟨⟨continues, within⟩, chain', nodes', backs⟩ :=
    (call_ensures sound.backs permitted).holds ran
  have larger := continues.larger
  have bytes := continues.growBytes
  have calls := continues.growCalls
  have paid := continues.paid
  have := sound.growBytes
  have := sound.growCalls
  have := sound.paid
  have := sound.room
  exact ⟨chain', nodes',
    { backs
      limit := continues.limit.trans sound.limit
      within := within n sound.within
      growBytes := by omega
      growCalls := by omega
      paid := by omega
      room := by omega
      capped := continues.capped sound.capped }⟩

theorem Reaches.sound (reached : Reaches arena config n h ledger) :
    ∃ chain nodes, Sound arena n h ledger chain nodes := by
  induction reached with
  | start laidOut => exact Sound.start laidOut
  | step _ permitted ran ih =>
    obtain ⟨_, _, sound⟩ := ih
    exact sound.step permitted ran

/-- The settings are those the heap was made with. -/
theorem Reaches.config_eq (reached : Reaches arena config n h ledger) : h.config = config := by
  induction reached with
  | start laidOut =>
    rcases (init_ensures (new arena config)).holds laidOut with ⟨_, failed, -⟩ | ⟨_, -, fresh, -⟩
    · cases failed
    · exact fresh.config
  | step before permitted ran ih =>
    obtain ⟨_, _, sound⟩ := before.sound
    obtain ⟨⟨continues, -⟩, -⟩ := (call_ensures sound.backs permitted).holds ran
    exact continues.config.trans ih

theorem Sound.chain_ne_nil (sound : Sound arena n h ledger chain nodes) : chain ≠ [] := by
  rintro rfl
  have tiles : 32 = h.memory.size := sound.backs.laid.settled.tiles
  have room := sound.room
  omega

/-- A call that the ledger permits is answered, unless what it asks for takes the arena past what an
address space has. -/
theorem Sound.answers {call : Call} (sound : Sound arena n h ledger chain nodes)
    (permitted : ledger.Permits h call) :
    (∃ answer h', (Heap.call call).run h = .ok answer h') ∨
      (∃ request, call.asks = some request ∧ h.Overreaches nodes request) ∧
        ∃ h', (Heap.call call).run h = .error .capacity h' := by
  have ensured := call_ensures sound.backs permitted
  rw [Action.Ensures] at ensured
  cases ran : (Heap.call call).run h with
  | ok answer h' => exact .inl ⟨answer, h', rfl⟩
  | error fault h' =>
    rw [ran] at ensured
    obtain ⟨rfl, overreaches⟩ := ensured
    exact .inr ⟨overreaches, h', rfl⟩

/-- The live pointers are the payload offsets of the allocated blocks. -/
theorem Backs.isSome_iff (backs : h.Backs ledger chain nodes) (ptr : Nat) :
    (ledger ptr).isSome ↔ ∃ b ∈ chain, b.tag.allocated = true ∧ b.bp = ptr := by
  constructor
  · intro live
    obtain ⟨front, b, behind, rfl, place, used⟩ := backs.live live
    exact ⟨b, by simp, ChainBlock.isFree_eq_false.mp used, place⟩
  · rintro ⟨b, member, used, rfl⟩
    exact backs.backed.entered b (mem_usedOf.mpr ⟨member, ChainBlock.isFree_eq_false.mpr used⟩)

/-- What four calls come to: an allocation splits the only free block, the arena grows for the next
one, whose payload is cleared, a third one takes what is left, and the first block is released. -/
theorem exists_reaches_grown :
    ∃ h ledger, Reaches (.withLimit 4096)
        { HeapConfig.standard with chunkSize := 64, placement := .front } 4 h ledger ∧
      ledger = (((Ledger.empty.add 32 (.fresh 16)).add 64 (.cleared 24)).add 112
        (.fresh 20)).drop 32 ∧
      h.memory.chainFrom 32 =
        .ok [⟨32, Tag.free 32⟩, ⟨64, Tag.used 48⟩, ⟨112, Tag.used 48⟩] := by
  have ran : ((do
      let laidOut ← init
      let split ← Heap.call (.allocate 16)
      let grown ← Heap.call (.calloc 3 8)
      let fitted ← Heap.call (.allocate 20)
      let dropped ← Heap.call (.release 32)
      let chain ← Action.ask (·.memory.chainFrom 32)
      return (laidOut, [split, grown, fitted, dropped], chain) :
        Action (Heap LimitedArena)
          (Except HeapError Unit × List Answer × List ChainBlock)).result
        (new (.withLimit 4096)
          { HeapConfig.standard with chunkSize := 64, placement := .front })).map (·.1) =
      .ok (.ok (), [.block (some 32), .block (some 64), .block (some 112), .released],
        [⟨32, Tag.free 32⟩, ⟨64, Tag.used 48⟩, ⟨112, Tag.used 48⟩]) := by
    decide +kernel
  obtain ⟨_, ran⟩ := Action.exists_run_of_result ran
  obtain ⟨laidOut, h₁, start, ran⟩ := Action.run_bind_eq_ok.mp ran
  obtain ⟨split, h₂, first, ran⟩ := Action.run_bind_eq_ok.mp ran
  obtain ⟨grown, h₃, second, ran⟩ := Action.run_bind_eq_ok.mp ran
  obtain ⟨fitted, h₄, third, ran⟩ := Action.run_bind_eq_ok.mp ran
  obtain ⟨dropped, h₅, fourth, ran⟩ := Action.run_bind_eq_ok.mp ran
  obtain ⟨chain, _, asked, ran⟩ := Action.run_bind_eq_ok.mp ran
  cases ran
  obtain ⟨walk, rfl⟩ := Action.run_ask_eq_ok.mp asked
  have one := (Reaches.start start).step (by exact trivial) first
  have two := one.step (by exact trivial) second
  have three := two.step (by exact trivial) third
  have four := three.step (by exact Or.inr rfl) fourth
  exact ⟨_, _, four, rfl, walk⟩

/-- After every call the heap is well formed and no total has left 64 bits. Whatever call comes next
is answered, unless there is no free block for what it asks for and the arena, being allowed to, is
taken past what an address space has. -/
theorem Reaches.well_formed (reached : Reaches arena config n h ledger) (short : n < wordLimit) :
    ∃ chain nodes,
      (h.initialized = true ∧ h.prologue = 16 ∧ h.memory.size < wordLimit ∧
        h.memory.readWord 0 = .ok 0 ∧ chain ≠ [] ∧
        h.memory.WellFormed 16 h.freeList chain nodes) ∧
      (h.counters.Within (wordLimit - 1) ∧ h.counters.growCalls < wordLimit ∧
        h.counters.growBytes < wordLimit ∧ h.arena.growCalls < wordLimit) ∧
      ∀ call, ledger.Permits h call → (∃ answer h', (Heap.call call).run h = .ok answer h') ∨
        capacityLimit ≤ arena.limit ∧
          (∃ request, call.asks = some request ∧ h.Overreaches nodes request) ∧
          ∃ h', (Heap.call call).run h = .error .capacity h' := by
  obtain ⟨chain, nodes, sound⟩ := reached.sound
  have settled := sound.backs.laid.settled
  have bounded : h.memory.size < wordLimit := settled.bounded
  have bytes := sound.growBytes
  have calls := sound.growCalls
  have paid := sound.paid
  refine ⟨chain, nodes, ⟨sound.backs.laid.initialized, sound.backs.laid.prologue, bounded,
    settled.fenced.pad, sound.chain_ne_nil, settled.wellFormed⟩,
    ⟨sound.within.mono (by omega), by omega, by omega, by omega⟩, fun call permitted => ?_⟩
  refine (sound.answers permitted).imp_right ?_
  rintro ⟨⟨request, asks, overreaches⟩, failed⟩
  exact ⟨sound.limit ▸ overreaches.le_limit, ⟨request, asks, overreaches⟩, failed⟩

theorem Reaches.well_formed_grown :
    ∃ h ledger, Reaches (.withLimit 4096)
        { HeapConfig.standard with chunkSize := 64, placement := .front } 4 h ledger ∧
      h.memory.chainFrom 32 =
        .ok [⟨32, Tag.free 32⟩, ⟨64, Tag.used 48⟩, ⟨112, Tag.used 48⟩] ∧
      (∃ chain nodes, chain ≠ [] ∧ h.memory.WellFormed 16 h.freeList chain nodes) ∧
      ∃ answer h', (Heap.call (.resize 112 1000)).run h = .ok answer h' := by
  obtain ⟨h, _, reached, rfl, walk⟩ := exists_reaches_grown
  obtain ⟨chain, nodes, ⟨-, -, -, -, some, formed⟩, -, answers⟩ := reached.well_formed (by decide)
  have small : ¬ capacityLimit ≤ (LimitedArena.withLimit 4096).limit := by decide
  exact ⟨h, _, reached, walk, ⟨chain, nodes, some, formed⟩,
    (answers (.resize 112 1000) (by exact Or.inr rfl)).resolve_right fun failed => small failed.1⟩

/-- The heap refines the ledger: its allocated blocks are those of the live pointers, apart from
each other and inside the memory, and each holds what is known of it. -/
theorem Reaches.refines (reached : Reaches arena config n h ledger) :
    ∃ chain nodes, h.memory.WellFormed 16 h.freeList chain nodes ∧
      (∀ ptr, (ledger ptr).isSome ↔ ∃ b ∈ chain, b.tag.allocated = true ∧ b.bp = ptr) ∧
      (∀ b ∈ chain, b.tag.allocated = true →
        b.bp % 16 = 0 ∧ 32 ≤ b.bp ∧ b.bp - 8 + b.tag.size ≤ h.memory.size) ∧
      chain.Pairwise (fun b c => b.bp - 8 + b.tag.size ≤ c.bp - 8) ∧
      ∀ ptr holding, ledger ptr = some holding →
        ∃ bytes, h.payload ptr = .ok (some bytes) ∧ h.usableSize ptr = .ok (some bytes.length) ∧
          holding.requested ≤ bytes.length ∧
          ∀ index byte, holding.known index = some byte → bytes[index]? = some byte := by
  obtain ⟨chain, nodes, sound⟩ := reached.sound
  have settled := sound.backs.laid.settled
  refine ⟨chain, nodes, settled.wellFormed, sound.backs.isSome_iff, fun b member _ => ?_, ?_,
    fun ptr holding found => sound.backs.payload found⟩
  · have within := settled.holds.within b member
    have ends : b.bp + b.tag.size ≤ h.memory.size := within.2
    exact ⟨(settled.holds.legal b member).aligned, within.1, by omega⟩
  · refine settled.tiles.separated.imp_of_mem fun {b c} member _ separated => ?_
    have above := (settled.holds.within b member).1
    simp only [ChainBlock.stop] at separated
    omega

theorem Reaches.refines_grown :
    ∃ h ledger, Reaches (.withLimit 4096)
        { HeapConfig.standard with chunkSize := 64, placement := .front } 4 h ledger ∧
      ledger 32 = none ∧
      (∃ bytes, h.payload 64 = .ok (some bytes) ∧ 24 ≤ bytes.length ∧
        ∀ index < 24, bytes[index]? = some 0) ∧
      ∃ bytes, h.payload 112 = .ok (some bytes) ∧ 20 ≤ bytes.length := by
  obtain ⟨h, _, reached, rfl, -⟩ := exists_reaches_grown
  obtain ⟨_, _, -, -, -, -, held⟩ := reached.refines
  obtain ⟨cleared, payload, -, enough, known⟩ := held 64 (.cleared 24) rfl
  obtain ⟨fitted, payload', -, enough', -⟩ := held 112 (.fresh 20) rfl
  exact ⟨h, _, reached, rfl,
    ⟨cleared, payload, enough, fun index below => known index 0 (if_pos below)⟩,
    fitted, payload', enough'⟩

end Heap

end BoundaryHeap
