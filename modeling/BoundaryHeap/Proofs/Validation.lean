import BoundaryHeap.Proofs.History
import BoundaryHeap.Proofs.Pointer

/-!
Any pointer at all, passed to a heap that tests it. The test has an answer unless one of its sums
leaves 64 bits. Pointers out of place, those of free blocks and the one that has just been released
are rejected.
-/

namespace BoundaryHeap.Heap

variable {h h' : Heap LimitedArena} {chain nodes : List ChainBlock} {ptr : Nat} {fault : Fault}

/-! ## Where the test has no answer -/

theorem Laid.tested (laid : h.Laid chain nodes) (ptr : Nat) :
    h.memory.Tested ptr (h.memory.liveBlock h.prologue ptr) := by
  rw [laid.prologue]
  exact Memory.liveBlock_tested h.memory ptr

theorem Laid.usableSize_eq_error_iff (laid : h.Laid chain nodes) :
    h.usableSize ptr = .error fault ↔ h.memory.liveBlock h.prologue ptr = .error fault := by
  have tested := laid.tested ptr
  rw [usableSize, if_pos laid.initialized]
  generalize h.memory.liveBlock h.prologue ptr = outcome at tested ⊢
  cases tested with
  | overflows =>
    constructor <;> (intro met; cases met; rfl)
  | misplaced => constructor <;> (intro met; cases met)
  | refused => constructor <;> (intro met; cases met)
  | @live tag _ _ passes =>
    have capacity : Block.payloadCapacity tag.size = .ok (tag.size - 16) :=
      Checked.sub_eq_ok (Nat.le_trans (by decide) passes.1.2)
    rw [Fault.bind_of_ok rfl]
    simp only []
    rw [Fault.bind_of_ok capacity]
    constructor <;> (intro met; cases met)

/-- Looking at the payload asks for nothing more than its size. -/
theorem payload_eq_error_iff :
    h.payload ptr = .error fault ↔ h.usableSize ptr = .error fault := by
  rw [payload]
  cases usable : h.usableSize ptr with
  | error met => constructor <;> (intro same; cases same; rfl)
  | ok found =>
    cases found with
    | none => constructor <;> (intro met; cases met)
    | some length =>
      have inside := usable_inside usable
      have bytes : h.memory.readRange ptr (ptr + length) = .ok _ :=
        if_pos ⟨Nat.le_add_right .., inside⟩
      rw [Fault.bind_of_ok rfl]
      simp only []
      rw [Fault.bind_of_ok bytes]
      constructor <;> (intro met; cases met)

/-- A request that tests its pointer stops where the test has no answer, and as it was. -/
theorem Laid.readyFor_run_of_error (laid : h.Laid chain nodes)
    (tests : h.config.check.testsPointers = true)
    (met : h.memory.liveBlock h.prologue ptr = .error fault) (symbol : String) :
    (readyFor symbol ptr).run h = .error fault h := by
  simp [readyFor, ready, accepts, view, EStateM.run_bind, laid.initialized, tests, met]

/-- The test is all that can stop a request before it is under way. -/
theorem Laid.readyFor_eq_error_iff (laid : h.Laid chain nodes)
    (tests : h.config.check.testsPointers = true) (symbol : String) :
    (∃ h', (readyFor symbol ptr).run h = .error fault h') ↔
      h.memory.liveBlock h.prologue ptr = .error fault := by
  cases outcome : h.memory.liveBlock h.prologue ptr with
  | error met =>
    rw [laid.readyFor_run_of_error tests outcome]
    constructor
    · rintro ⟨_, same⟩
      cases same
      rfl
    · intro same
      cases same
      exact ⟨h, rfl⟩
  | ok judged =>
    have goes : (readyFor symbol ptr).Ensures h Action.Total fun _ _ => True := by
      cases judged with
      | error violation => exact (readyFor_refuses laid tests outcome).imp fun _ _ _ => trivial
      | ok tag =>
        unfold readyFor
        apply ready_ensures laid
        rw [if_pos rfl, accepts]
        apply view_ensures tests
        rw [if_pos rfl]
        exact .ask outcome (.pure trivial)
    obtain ⟨_, _, ran, -⟩ := goes.exists_run
    rw [ran]
    constructor
    · rintro ⟨_, same⟩
      cases same
    · intro same
      cases same

theorem Laid.release_run_of_error (laid : h.Laid chain nodes)
    (tests : h.config.check.testsPointers = true)
    (met : h.memory.liveBlock h.prologue ptr = .error fault) (some : ptr ≠ 0) :
    (release ptr).run h = .error fault h := by
  have stops := laid.readyFor_run_of_error tests met "release"
  rw [release, EStateM.run_bind, releaseAs, if_neg some, EStateM.run_bind, stops]

theorem Laid.resize_run_of_error (laid : h.Laid chain nodes)
    (tests : h.config.check.testsPointers = true)
    (met : h.memory.liveBlock h.prologue ptr = .error fault) (some : ptr ≠ 0) (request : Nat) :
    (resize ptr request).run h = .error fault h := by
  have stops := laid.readyFor_run_of_error tests met "resize"
  rw [resize, EStateM.run_bind]
  by_cases nothing : request = 0
  · rw [nothing, resizeAs_zero "resize" some, EStateM.run_bind, releaseAs, if_neg some,
      EStateM.run_bind, stops]
  · rw [resizeAs, if_neg some, if_neg nothing, EStateM.run_bind, stops]

theorem Laid.liveBlock_eq_error_iff (laid : h.Laid chain nodes) :
    h.memory.liveBlock h.prologue ptr = .error fault ↔
      fault = .overflow ∧ h.memory.Overruns ptr := by
  have bounded : h.memory.size < wordLimit := laid.settled.bounded
  rw [laid.prologue]
  exact Memory.liveBlock_eq_error_iff bounded

/-- Where a sum of the test leaves 64 bits, a release and a resize stop before they change
anything. -/
theorem Laid.stops_of_overruns (laid : h.Laid chain nodes)
    (tests : h.config.check.testsPointers = true) (overruns : h.memory.Overruns ptr) :
    (release ptr).run h = .error .overflow h ∧
      ∀ request, (resize ptr request).run h = .error .overflow h := by
  have met := laid.liveBlock_eq_error_iff.mpr ⟨rfl, overruns⟩
  have some : ptr ≠ 0 := overruns.ne_zero
  exact ⟨laid.release_run_of_error tests met some,
    fun request => laid.resize_run_of_error tests met some request⟩

variable {arena : LimitedArena} {config : HeapConfig} {n : Nat} {ledger : Ledger}

theorem Reaches.tests (reached : Reaches arena config n h ledger) (checked : config.check ≠ .off) :
    h.config.check.testsPointers = true := by
  rw [reached.config_eq]
  exact decide_eq_true checked

/-- A checking heap meets no fault in the test of a pointer but a sum beyond 64 bits, and meets that
exactly where one of the two sums of the test leaves them, whichever call the test is for. A release
or a resize that is stopped so leaves the heap as it was. -/
theorem Reaches.test_faults_iff (reached : Reaches arena config n h ledger)
    (checked : config.check ≠ .off) (ptr : Nat) :
    (∀ fault,
      (h.memory.liveBlock h.prologue ptr = .error fault ↔
        fault = .overflow ∧ h.memory.Overruns ptr) ∧
      (h.usableSize ptr = .error fault ↔ fault = .overflow ∧ h.memory.Overruns ptr) ∧
      (h.payload ptr = .error fault ↔ fault = .overflow ∧ h.memory.Overruns ptr) ∧
      ∀ symbol, (∃ h', (readyFor symbol ptr).run h = .error fault h') ↔
        fault = .overflow ∧ h.memory.Overruns ptr) ∧
    (h.memory.Overruns ptr → (release ptr).run h = .error .overflow h ∧
      ∀ request, (resize ptr request).run h = .error .overflow h) := by
  obtain ⟨_, _, sound⟩ := reached.sound
  have laid := sound.backs.laid
  have tests := reached.tests checked
  refine ⟨fun fault => ?_, laid.stops_of_overruns tests⟩
  have exactly : h.memory.liveBlock h.prologue ptr = .error fault ↔
      fault = .overflow ∧ h.memory.Overruns ptr := laid.liveBlock_eq_error_iff
  have usable := laid.usableSize_eq_error_iff.trans exactly
  refine ⟨exactly, usable, payload_eq_error_iff.trans usable, fun symbol => ?_⟩
  exact (laid.readyFor_eq_error_iff tests symbol).trans exactly

/-- A client whose bytes look like the header of a block that would end beyond 64 bits. -/
theorem Reaches.test_faults_iff_written :
    ∃ h ledger, Reaches (.withLimit 4096)
        { HeapConfig.standard with chunkSize := 96, placement := .front, check := .validate } 2 h
        ledger ∧
      h.usableSize 64 = .error .overflow ∧ (release 64).run h = .error .overflow h ∧
      h.usableSize 18446744073709551608 = .error .overflow := by
  have ran : ((do
      let laidOut ← init
      let allocated ← Heap.call (.allocate 64)
      let usable ← Action.ask (·.usableSize 32)
      let written ← Heap.call (.write 32 24 [0xf1, 0xff, 0xff, 0xff, 0xff, 0xff, 0xff, 0xff])
      let header ← Action.ask (·.memory.header 64)
      let size ← view (·.memory.size)
      return (laidOut, allocated, usable, written, header, size) :
        Action (Heap LimitedArena)
          (Except HeapError Unit × Answer × Option Nat × Answer × Tag × Nat)).result
        (new (.withLimit 4096)
          { HeapConfig.standard with
            chunkSize := 96, placement := .front, check := .validate })).map (·.1) =
      .ok (.ok (), .block (some 32), some 80, .written true, ⟨18446744073709551600, true⟩,
        128) := by decide +kernel
  obtain ⟨h', ran⟩ := Action.exists_run_of_result ran
  obtain ⟨laidOut, h₁, first, ran⟩ := Action.run_bind_eq_ok.mp ran
  obtain ⟨allocated, h₂, second, ran⟩ := Action.run_bind_eq_ok.mp ran
  obtain ⟨usable, h₃, asked, ran⟩ := Action.run_bind_eq_ok.mp ran
  obtain ⟨written, h₄, third, ran⟩ := Action.run_bind_eq_ok.mp ran
  obtain ⟨header, h₅, found, ran⟩ := Action.run_bind_eq_ok.mp ran
  obtain ⟨size, h₆, sized, ran⟩ := Action.run_bind_eq_ok.mp ran
  cases ran
  obtain ⟨usable, rfl⟩ := Action.run_ask_eq_ok.mp asked
  obtain ⟨header, rfl⟩ := Action.run_ask_eq_ok.mp found
  obtain ⟨size, rfl⟩ := run_view_eq_ok.mp sized
  have permitted : Ledger.empty.Permits h₁ (.allocate 64) := trivial
  have allocated := (Reaches.start first).step permitted second
  have permitted : (Ledger.empty.after (.allocate 64) (.block (some 32))).Permits h₂
      (.write 32 24 [0xf1, 0xff, 0xff, 0xff, 0xff, 0xff, 0xff, 0xff]) :=
    ⟨rfl, 80, usable, by decide⟩
  have reached := allocated.step permitted third
  have inside : h₄.memory.Overruns 64 :=
    .block ⟨by decide, by omega, by decide⟩ header (by decide) (by decide)
  have beyond : h₄.memory.Overruns 18446744073709551608 := .word (by decide)
  obtain ⟨faults, stops⟩ := Reaches.test_faults_iff reached (by decide) 64
  obtain ⟨faults', -⟩ := Reaches.test_faults_iff reached (by decide) 18446744073709551608
  exact ⟨h₄, _, reached, (faults .overflow).2.1.mpr ⟨rfl, inside⟩, (stops inside).1,
    (faults' .overflow).2.1.mpr ⟨rfl, beyond⟩⟩

/-! ## Pointers that are rejected -/

section Releases

variable {front behind : List ChainBlock} {b : ChainBlock}

/-- Either of the two calls that release a block does. -/
theorem Laid.released_of_call {call : Call} {answer : Answer}
    (laid : h.Laid (front ++ b :: behind) nodes) (used : b.isFree = false)
    (way : call = .release b.bp ∨ call = .resize b.bp 0)
    (ran : (Heap.call call).run h = .ok answer h') : Released h front b behind nodes h' := by
  rcases way with rfl | rfl
  · obtain ⟨_, _, called, same⟩ := Action.run_bind_eq_ok.mp ran
    cases same
    have ensured : (release b.bp).Ensures h Action.Total _ := release_ensures laid used
    exact ensured.holds called
  · obtain ⟨_, _, called, same⟩ := Action.run_bind_eq_ok.mp ran
    cases same
    have ensured : (resize b.bp 0).Ensures h Action.Total _ := resize_zero_ensures laid used
    exact (ensured.holds called).2

theorem Released.placed (released : Released h front b behind nodes h')
    (laid : h.Laid (front ++ b :: behind) nodes) : h'.memory.Placed b.bp :=
  laid.settled.wellFormed.placed (by simp) released.advances.continues.larger

theorem Released.rejects (released : Released h front b behind nodes h')
    (laid : h.Laid (front ++ b :: behind) nodes)
    (tests : h.config.check.testsPointers = true) : h'.Rejects b.bp := by
  have continues := released.advances.continues
  obtain ⟨rest, header, ends⟩ := released.left
  exact released.laid.rejects_of_free (continues.config ▸ tests) (released.placed laid) header ends

end Releases

/-- The free blocks of a well-formed heap are rejected. -/
theorem Laid.rejects_of_mem {l : FreeList} {blocks listed : List ChainBlock} {b : ChainBlock}
    (laid : h.Laid chain nodes) (tests : h.config.check.testsPointers = true)
    (formed : h.memory.WellFormed 16 l blocks listed) (member : b ∈ blocks)
    (free : b.tag.allocated = false) : h.Rejects b.bp := by
  have header := (formed.tagged b member).header
  have ends : b.bp + b.tag.size ≤ h.memory.size := (formed.tiles.within member).2
  have same : b.tag = Tag.free b.tag.size := by rw [Tag.free, ← free]
  rw [same] at header
  exact laid.rejects_of_free tests (formed.placed member (Nat.le_refl _)) header ends

/-- Pointers that cannot be those of blocks in use, and show it. -/
inductive Forfeit (arena : LimitedArena) (config : HeapConfig) (h : Heap LimitedArena)
    (ptr : Nat) : Prop
  /-- The last call has released the block there, whichever of its neighbours were free. -/
  | released {n : Nat} {before : Heap LimitedArena} {ledger : Ledger} {call : Call}
    {answer : Answer} (reached : Reaches arena config n before ledger)
    (live : (ledger ptr).isSome) (way : call = .release ptr ∨ call = .resize ptr 0)
    (ran : (Heap.call call).run before = .ok answer h) : Forfeit arena config h ptr
  /-- A free block of the chain is there. -/
  | free {chain nodes : List ChainBlock} {b : ChainBlock}
    (formed : h.memory.WellFormed 16 h.freeList chain nodes) (member : b ∈ chain)
    (free : b.tag.allocated = false) (place : b.bp = ptr) : Forfeit arena config h ptr
  /-- No block can be there: the pointer is not aligned, or lies in front of the first block, or the
  word at it, whose end is below the limit of 64 bits, ends behind the arena. -/
  | misplaced (place : ptr % 16 ≠ 0 ∨ ptr < 32 ∨
      ptr + 8 < wordLimit ∧ h.memory.size < ptr + 8) : Forfeit arena config h ptr

/-- A forfeit pointer either is that of a block that was there, which is rejected, or is out of
place. -/
theorem Forfeit.rejects_or_misplaced (forfeit : Forfeit arena config h ptr)
    (reached : Reaches arena config n h ledger) (checked : config.check ≠ .off) :
    h.memory.Placed ptr ∧ h.Rejects ptr ∨
      (ptr % 16 ≠ 0 ∨ ptr < 32 ∨ ptr + 8 < wordLimit ∧ h.memory.size < ptr + 8) := by
  cases forfeit with
  | released earlier live way ran =>
    obtain ⟨_, _, before⟩ := earlier.sound
    have laid := before.backs.laid
    obtain ⟨front, b, behind, rfl, rfl, used⟩ := before.backs.live live
    have released := laid.released_of_call used way ran
    exact .inl ⟨released.placed laid, released.rejects laid (earlier.tests checked)⟩
  | free formed member free place =>
    subst place
    obtain ⟨_, _, sound⟩ := reached.sound
    exact .inl ⟨formed.placed member (Nat.le_refl _),
      sound.backs.laid.rejects_of_mem (reached.tests checked) formed member free⟩
  | misplaced place => exact .inr place

/-- A checking heap rejects every pointer that is forfeit: a release or a resize of it comes to one
more refused pointer, and nothing else is any different. The last eight pointers of 64 bits are left
out, none of which is aligned: the end of the word at the pointer is summed up before its alignment
is looked at, and that sum stops both calls. -/
theorem Reaches.rejects_forfeit (reached : Reaches arena config n h ledger)
    (checked : config.check ≠ .off) (some : ptr ≠ 0) (forfeit : Forfeit arena config h ptr) :
    (ptr + 8 < wordLimit → h.Rejects ptr) ∧
    (wordLimit ≤ ptr + 8 → ptr % 16 ≠ 0 ∧ (release ptr).run h = .error .overflow h ∧
      ∀ request, (resize ptr request).run h = .error .overflow h) := by
  obtain ⟨_, _, sound⟩ := reached.sound
  have laid := sound.backs.laid
  have tests := reached.tests checked
  have bounded : h.memory.size < wordLimit := laid.settled.bounded
  have judged := forfeit.rejects_or_misplaced reached checked
  constructor
  · intro near
    rcases judged with ⟨-, rejects⟩ | place
    · exact rejects
    · rw [laid.rejects_iff tests some, laid.prologue]
      apply Memory.liveBlock_misplaced near
      rintro ⟨above, inside, aligned⟩
      omega
  · intro far
    refine ⟨?_, laid.stops_of_overruns tests (.word far)⟩
    rcases judged with ⟨placed, -⟩ | place
    · have inside := placed.inside
      omega
    · have short : 40 < wordLimit := by decide
      omega

/-- A block released a second time after the free block in front of it has swallowed it, and a
pointer that is so close to the end of 64 bits that the test of it has no answer. -/
theorem Reaches.rejects_forfeit_swallowed :
    ∃ h ledger, Reaches (.withLimit 4096)
        { HeapConfig.standard with chunkSize := 96, placement := .front, check := .validate } 4 h
        ledger ∧ h.memory.chainFrom 32 = .ok [⟨32, Tag.free 96⟩] ∧ h.Rejects 64 ∧
      (release 18446744073709551609).run h = .error .overflow h := by
  have ran : ((do
      let laidOut ← init
      let answers ← Heap.run [.allocate 16, .allocate 16, .release 32]
      let last ← Heap.call (.release 64)
      let chain ← Action.ask (·.memory.chainFrom 32)
      return (laidOut, answers, last, chain) :
        Action (Heap LimitedArena)
          (Except HeapError Unit × List Answer × Answer × List ChainBlock)).result
        (new (.withLimit 4096)
          { HeapConfig.standard with
            chunkSize := 96, placement := .front, check := .validate })).map (·.1) =
      .ok (.ok (), [.block (some 32), .block (some 64), .released], .released,
        [⟨32, Tag.free 96⟩]) := by decide +kernel
  obtain ⟨h', ran⟩ := Action.exists_run_of_result ran
  obtain ⟨laidOut, h₁, first, ran⟩ := Action.run_bind_eq_ok.mp ran
  obtain ⟨answers, h₂, second, ran⟩ := Action.run_bind_eq_ok.mp ran
  obtain ⟨last, h₃, third, ran⟩ := Action.run_bind_eq_ok.mp ran
  obtain ⟨chain, h₄, asked, ran⟩ := Action.run_bind_eq_ok.mp ran
  cases ran
  obtain ⟨walk, rfl⟩ := Action.run_ask_eq_ok.mp asked
  have served := (Serves.start first).run second ⟨fun _ => trivial, fun _ => trivial,
    fun _ => .inr rfl, trivial⟩
  have earlier := served.reaches
  have reached := earlier.step (by exact Or.inr rfl) third
  have swallowed := Forfeit.released earlier rfl (.inl rfl) third
  have unaligned : 18446744073709551609 % 16 ≠ 0 := by decide
  obtain ⟨rejected, -⟩ := Reaches.rejects_forfeit reached (by decide) (by decide) swallowed
  obtain ⟨-, stops⟩ :=
    Reaches.rejects_forfeit reached (by decide) (by decide) (.misplaced (.inl unaligned))
  exact ⟨h₃, _, reached, walk, rejected (by decide), (stops (by decide)).2.1⟩

end BoundaryHeap.Heap
