import BoundaryHeap.Proofs.History
import BoundaryHeap.Proofs.Stats

/-!
The totals of a heap as accounts of its history. Each block handed out is still in use, has been
released or was left behind by a move; each resize that was served took one of three ways; each
request for some bytes that came to nothing was counted once, at whatever depth it failed.
-/

namespace BoundaryHeap

/-- Whether a request for some bytes was answered with no block. -/
def refused (request : Nat) (answer : Option Nat) : Bool := request ≠ 0 && answer.isNone

/-- Whether a call asked for some bytes, and got no block. -/
def failedRequest : Call × Answer → Bool
  | (.allocate size, .block answer) => refused size answer
  | (.calloc count size, .block answer) => refused (count * size) answer
  | (.resize _ size, .block answer) => refused size answer
  | _ => false

/-- Whether a call asked to resize a block to some bytes, and got one. -/
def servedResize : Call × Answer → Bool
  | (.resize ptr size, .block answer) => ptr ≠ 0 && size ≠ 0 && answer.isSome
  | _ => false

namespace Heap

variable {h h' : Heap LimitedArena} {front behind chain nodes chain' nodes' : List ChainBlock}
  {b : ChainBlock} {request size ptr resizes failures : Nat} {answer : Option Nat}

/-- The totals of a heap account for the blocks in use on its chain, for `resizes` resizes that were
served and for `failures` requests that were not. -/
structure Accounts (h : Heap LimitedArena) (chain : List ChainBlock) (resizes failures : Nat) :
    Prop where
  blocks : (usedOf chain).length + h.counters.frees + h.counters.reallocsMoved = h.counters.allocs
  resizes : h.counters.reallocsInPlace + h.counters.reallocsAbsorbedPrev +
    h.counters.reallocsMoved = resizes
  failures : h.counters.failedAllocs = failures

namespace Accounts

theorem agrees (accounts : h.Accounts chain resizes failures) (agrees : Agrees h h') :
    h'.Accounts chain resizes failures := by
  obtain ⟨_, _, rfl⟩ := agrees
  exact ⟨accounts.blocks, accounts.resizes, accounts.failures⟩

theorem failed (accounts : h.Accounts chain resizes failures) (agrees : Agrees h.failed h') :
    h'.Accounts chain resizes (failures + 1) := by
  obtain ⟨_, _, rfl⟩ := agrees
  exact ⟨accounts.blocks, accounts.resizes, congrArg (· + 1) accounts.failures⟩

theorem allocated {b : ChainBlock} (accounts : h.Accounts chain resizes failures)
    (allocated : Allocated h chain nodes size b h' chain' nodes') :
    h'.Accounts chain' resizes failures := by
  have moved := allocated.counters
  simp only [Counters.served, Counters.mk.injEq] at moved
  obtain ⟨allocs, frees, inPlace, absorbed, movedAway, -, -, missed, -⟩ := moved
  have more := allocated.used.length_eq
  rw [List.length_cons] at more
  have blocks := accounts.blocks
  constructor
  · omega
  · rw [inPlace, absorbed, movedAway, accounts.resizes]
  · rw [missed, accounts.failures]

/-- A request that is refused is counted once, whatever it failed for. -/
theorem allocateOutcome (accounts : h.Accounts chain resizes failures)
    (outcome : AllocateOutcome h chain nodes request answer h' chain' nodes') :
    h'.Accounts chain' resizes (failures + (refused request answer).toNat) := by
  cases outcome with
  | nothing empty agrees =>
    subst empty
    exact accounts.agrees agrees
  | refused some agrees lacks =>
    have counted : refused request none = true := by simp [refused, some]
    rw [counted]
    exact accounts.failed agrees
  | @served _ b _ _ _ some found allocated =>
    have served : refused request (.some b.bp) = false := Bool.and_false _
    rw [served]
    exact accounts.allocated allocated

theorem released (accounts : h.Accounts (front ++ b :: behind) resizes failures)
    (used : b.isFree = false) (released : Released h front b behind nodes h') :
    h'.Accounts (mergedChain front b.bp b.stop behind) resizes failures := by
  have blocks := accounts.blocks
  rw [usedOf_append, usedOf_cons_of_used used, List.length_append, List.length_cons] at blocks
  constructor
  · rw [released.counters, usedOf_mergedChain, List.length_append]
    simp only []
    omega
  · rw [released.counters]
    exact accounts.resizes
  · rw [released.counters]
    exact accounts.failures

/-- A resize is counted as one of its three ways. A block that moves is counted as handed out and
as left behind, and not as released. -/
theorem resized {chain' nodes' : List ChainBlock}
    (accounts : h.Accounts (front ++ b :: behind) resizes failures)
    (laid : h.Laid (front ++ b :: behind) nodes) (used : b.isFree = false)
    (found : Block.sizeFor request = some size)
    (resized : Resized h front b behind nodes size request ptr h' chain' nodes') :
    h'.Accounts chain' (resizes + 1) failures := by
  obtain ⟨_, -, -, carried⟩ := resized.carried laid used found
  have same : (usedOf chain').length = (usedOf (front ++ b :: behind)).length :=
    carried.used.length_eq.trans (usedOf_middle used).length_eq.symm
  have blocks := accounts.blocks
  have ways := accounts.resizes
  have missed := accounts.failures
  cases resized with
  | trimmed enough edited => constructor <;> rw [edited.counters] <;> simp only [] <;> omega
  | grown next free small fits alone edited =>
    constructor <;> rw [edited.counters] <;> simp only [] <;> omega
  | slid prev free small ends fits edited =>
    constructor <;> rw [edited.counters] <;> simp only [] <;> omega
  | moved small cramped allocated edited =>
    have first := allocated.counters
    simp only [Counters.served, Counters.mk.injEq] at first
    constructor <;> rw [edited.counters] <;> simp only [] <;> omega

theorem resizeOutcome (accounts : h.Accounts (front ++ b :: behind) resizes failures)
    (laid : h.Laid (front ++ b :: behind) nodes) (used : b.isFree = false)
    (outcome : ResizeOutcome h front b behind nodes request answer h' chain' nodes') :
    h'.Accounts chain' (resizes + answer.isSome.toNat) (failures + answer.isNone.toNat) := by
  cases outcome with
  | refused agrees lacks cramped => exact accounts.failed agrees
  | resized found way => exact accounts.resized laid used found way

end Accounts

variable {ledger : Ledger} {call : Call}

/-- A call carries the accounts on. -/
theorem Backs.call_accounts (backs : h.Backs ledger chain nodes)
    (accounts : h.Accounts chain resizes failures) (permitted : ledger.Permits h call) :
    (Heap.call call).Ensures h (Overgrown (capacityLimit ≤ h.arena.limit)) fun answer h' =>
      ∃ chain' nodes', h'.Laid chain' nodes' ∧
        h'.Accounts chain' (resizes + (servedResize (call, answer)).toNat)
          (failures + (failedRequest (call, answer)).toNat) := by
  have laid := backs.laid
  cases call with
  | init => exact permitted.elim
  | allocate request =>
    apply ((Heap.allocate_ensures laid request).overgrown fun bursts =>
      bursts.overreaches.le_limit).bind
    rintro answer h' ⟨chain', nodes', outcome⟩
    exact .pure ⟨chain', nodes', outcome.laid laid, accounts.allocateOutcome outcome⟩
  | calloc items size =>
    apply ((Heap.calloc_ensures laid items size).overgrown fun bursts =>
      bursts.overreaches.le_limit).bind
    rintro answer h' (⟨rfl, huge, agrees⟩ | ⟨chain', nodes', outcome, -⟩)
    · have some : items * size ≠ 0 := fun none => absurd (none ▸ huge) (by decide)
      have counted : failedRequest (.calloc items size, .block none) = true := by
        simp [failedRequest, refused, some]
      refine .pure ⟨chain, nodes, agrees.failed_laid laid, ?_⟩
      rw [counted]
      exact accounts.failed agrees
    · exact .pure ⟨chain', nodes', outcome.laid laid, accounts.allocateOutcome outcome⟩
  | release ptr =>
    rcases permitted with rfl | live
    · apply (release_null_ensures laid).bind
      exact fun _ h' agrees => .pure ⟨chain, nodes, agrees.laid laid, accounts.agrees agrees⟩
    · obtain ⟨front, b, behind, rfl, rfl, used⟩ := backs.live live
      apply (Heap.release_ensures laid used).bind
      exact fun _ h' released => .pure ⟨_, _, released.laid, accounts.released used released⟩
  | resize ptr request =>
    rcases permitted with rfl | live
    · apply ((resize_null_ensures laid request).overgrown fun bursts =>
        bursts.overreaches.le_limit).bind
      rintro answer h' ⟨chain', nodes', outcome⟩
      exact .pure ⟨chain', nodes', outcome.laid laid, accounts.allocateOutcome outcome⟩
    · obtain ⟨front, b, behind, rfl, rfl, used⟩ := backs.live live
      have within := laid.settled.holds.within b (by simp)
      have place : b.bp ≠ 0 := by omega
      by_cases nothing : request = 0
      · subst nothing
        apply (resize_zero_ensures laid used).bind
        rintro _ h' ⟨rfl, released⟩
        have uncounted : servedResize (.resize b.bp 0, .block none) = false := Bool.and_false _
        refine .pure ⟨_, _, released.laid, ?_⟩
        rw [uncounted]
        exact accounts.released used released
      · apply ((Heap.resize_ensures laid used nothing).overgrown fun bursts =>
          (bursts.overreaches nothing).le_limit).bind
        rintro answer h' ⟨chain', nodes', outcome⟩
        have served : servedResize (.resize b.bp request, .block answer) = answer.isSome := by
          simp [servedResize, place, nothing]
        have failed : failedRequest (.resize b.bp request, .block answer) = answer.isNone := by
          simp [failedRequest, refused, nothing]
        refine .pure ⟨chain', nodes', outcome.laid laid used, ?_⟩
        rw [served, failed]
        exact accounts.resizeOutcome laid used outcome
  | write ptr offset values =>
    obtain ⟨live, length, usable, fits⟩ := permitted
    obtain ⟨front, b, behind, rfl, rfl, used, inside⟩ := backs.exists_room live usable fits
    apply (Heap.patch_ensures laid (by simp) used inside).bind
    rintro _ _ ⟨rfl, r, rfl, settled, -⟩
    refine .pure ⟨_, nodes, ⟨settled, laid.prologue, laid.initialized⟩, ?_⟩
    exact ⟨accounts.blocks, accounts.resizes, accounts.failures⟩

variable {arena : LimitedArena} {config : HeapConfig} {history : List (Call × Answer)}

/-- A layout that succeeds opens the accounts at nothing. -/
theorem Accounts.start (laidOut : init.run (new arena config) = .ok (.ok ()) h) :
    ∃ chain nodes, h.Laid chain nodes ∧ h.Accounts chain 0 0 := by
  rcases (init_ensures (new arena config)).holds laidOut with ⟨_, failed, -⟩ |
    ⟨size, -, fresh, laid⟩
  · cases failed
  · have counters := fresh.counters
    refine ⟨_, _, laid, ?_⟩
    constructor <;> rw [counters] <;> rfl

/-- The accounts of a whole run. -/
theorem Serves.accounts (served : Serves arena config history h ledger) :
    ∃ chain nodes, h.Laid chain nodes ∧
      h.Accounts chain (history.countP servedResize) (history.countP failedRequest) := by
  induction served with
  | start laidOut => exact Accounts.start laidOut
  | @step history _ _ _ call answer before permitted ran ih =>
    obtain ⟨chain, nodes, laid, accounts⟩ := ih
    obtain ⟨_, _, sound⟩ := before.reaches.sound
    -- the accounts so far are of the chain that backs the ledger, as there is only one
    obtain rfl := laid.chain_unique sound.backs.laid
    obtain ⟨chain', nodes', laid', accounts'⟩ :=
      (sound.backs.call_accounts accounts permitted).holds ran
    have counted (kind : Call × Answer → Bool) : (history ++ [(call, answer)]).countP kind =
        history.countP kind + (kind (call, answer)).toNat := by
      rw [List.countP_append, List.countP_singleton]
      cases kind (call, answer) <;> rfl
    refine ⟨chain', nodes', laid', ?_⟩
    rw [counted, counted]
    exact accounts'

/-- After every call the totals account for all blocks and all failures: what was handed out is in
use, was released or was left behind by a move; the resizes of blocks that were served are those in
place, down and to a fresh block; the failures are the requests for some bytes that got no block;
and the growth is that of the arena. -/
theorem Serves.totals (served : Serves arena config history h ledger) :
    (∃ chain nodes, h.memory.WellFormed 16 h.freeList chain nodes ∧
      chain.countP (·.tag.allocated) + h.counters.frees + h.counters.reallocsMoved =
        h.counters.allocs) ∧
    h.counters.reallocsInPlace + h.counters.reallocsAbsorbedPrev + h.counters.reallocsMoved =
      history.countP servedResize ∧
    h.counters.failedAllocs = history.countP failedRequest ∧
    h.counters.growBytes = h.memory.size ∧ h.counters.growCalls = h.arena.growCalls := by
  obtain ⟨chain, nodes, laid, accounts⟩ := served.accounts
  obtain ⟨_, _, sound⟩ := served.reaches.sound
  refine ⟨⟨chain, nodes, laid.settled.wellFormed, ?_⟩, accounts.resizes, accounts.failures,
    sound.growBytes, sound.growCalls⟩
  rw [List.countP_eq_length_filter]
  exact accounts.blocks

/-- A run with a request beyond 64 bits and a move. -/
theorem Serves.totals_moved :
    ∃ h ledger, Serves (.withLimit 4096) { HeapConfig.standard with chunkSize := 64 }
        [(.allocate 18446744073709551615, .block none), (.allocate 40, .block (some 32)),
          (.resize 32 60, .block (some 96))] h ledger ∧
      h.counters.reallocsInPlace + h.counters.reallocsAbsorbedPrev + h.counters.reallocsMoved = 1 ∧
      h.counters.failedAllocs = 1 ∧
      ∃ chain nodes, h.memory.WellFormed 16 h.freeList chain nodes ∧
        chain.countP (·.tag.allocated) + h.counters.frees + h.counters.reallocsMoved =
          h.counters.allocs := by
  have ran : ((do
      let laidOut ← init
      let answers ← Heap.run [.allocate 18446744073709551615, .allocate 40, .resize 32 60]
      return (laidOut, answers) :
        Action (Heap LimitedArena) (Except HeapError Unit × List Answer)).result
        (new (.withLimit 4096) { HeapConfig.standard with chunkSize := 64 })).map (·.1) =
      .ok (.ok (), [.block none, .block (some 32), .block (some 96)]) := by decide +kernel
  obtain ⟨h, ran⟩ := Action.exists_run_of_result ran
  obtain ⟨laidOut, h₁, first, ran⟩ := Action.run_bind_eq_ok.mp ran
  obtain ⟨answers, h₂, second, ran⟩ := Action.run_bind_eq_ok.mp ran
  cases ran
  have served := (Serves.start first).run second ⟨fun _ => trivial, fun _ => trivial,
    fun _ => .inr rfl, trivial⟩
  obtain ⟨balanced, resizes, failures, -⟩ := Serves.totals served
  exact ⟨h, _, served, resizes, failures, balanced⟩

end Heap

end BoundaryHeap
