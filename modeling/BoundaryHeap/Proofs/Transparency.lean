import BoundaryHeap.Proofs.Bare
import BoundaryHeap.Proofs.History
import BoundaryHeap.Proofs.Stats

/-!
Checks and records do not show. A client that keeps to its ledger gives live pointers only, which
pass every test, and never makes the scan find anything; so two heaps whose settings differ in how
much they check and record answer it alike and hold the same after every call.
-/

namespace BoundaryHeap.Heap

variable {h h' : Heap LimitedArena} {front behind chain nodes : List ChainBlock} {b : ChainBlock}
  {ledger : Ledger} {call : Call} {α : Type} {ptr : Nat}

theorem Laid.bare (laid : h.Laid chain nodes) : h.bare.Laid chain nodes :=
  ⟨laid.settled, laid.prologue, laid.initialized⟩

theorem readyFor_transparent (laid : h.Laid chain nodes) (member : b ∈ chain)
    (used : b.isFree = false) (symbol : String) : Transparent (readyFor symbol b.bp) h :=
  .of_run (readyFor_run laid member used symbol) (readyFor_run laid.bare member used symbol) id

/-! ## Requests -/

theorem allocate_transparent (laid : h.Laid chain nodes) (request : Nat) :
    Transparent (allocate request) h :=
  .scanned (allocateAs_transparent h "allocate" request)
    (allocateAs_ensures laid "allocate" request) (fun _ _ => AllocateOutcome.check_eq laid)
    "allocate"

theorem calloc_transparent (laid : h.Laid chain nodes) (items size : Nat) :
    Transparent (calloc items size) h :=
  .scanned (callocAs_transparent h "calloc" items size) (callocAs_ensures laid "calloc" items size)
    (fun _ _ outcome => outcome.check_eq laid) "calloc"

theorem release_transparent (laid : h.Laid (front ++ b :: behind) nodes) (used : b.isFree = false) :
    Transparent (release b.bp) h := by
  have accepted := readyFor_transparent laid (by simp) used "release"
  refine .bind (releaseAs_transparent accepted) fun _ h₁ ran => ?_
  have released : (releaseAs "release" b.bp).Ensures h Action.Total fun _ h' =>
      Released h front b behind nodes h' := releaseAs_ensures laid used "release"
  exact afterwards_transparent (released.holds ran).laid.check_eq "release"

theorem release_null_transparent (laid : h.Laid chain nodes) : Transparent (release 0) h := by
  have noop : Transparent (releaseAs "release" 0) h := by
    rw [releaseAs, if_pos rfl]
    exact record_transparent h
  refine .bind noop fun _ h₁ ran => ?_
  have agrees : (releaseAs "release" 0).Ensures h Action.Total fun _ h' => Agrees h h' :=
    releaseAs_zero_ensures h "release"
  exact afterwards_transparent ((agrees.holds ran).laid laid).check_eq "release"

theorem resize_null_transparent (laid : h.Laid chain nodes) (request : Nat) :
    Transparent (resize 0 request) h := by
  rw [resize, resizeAs_null]
  exact .scanned (allocateAs_transparent h "resize" request)
    (allocateAs_ensures laid "resize" request) (fun _ _ => AllocateOutcome.check_eq laid) "resize"

theorem resize_transparent (laid : h.Laid (front ++ b :: behind) nodes) (used : b.isFree = false)
    (request : Nat) : Transparent (resize b.bp request) h := by
  have accepted := readyFor_transparent laid (by simp) used "resize"
  by_cases some : request = 0
  · subst some
    have within := laid.settled.holds.within b (by simp)
    have ensured : (do releaseAs "resize" b.bp; return none :
        Action (Heap LimitedArena) (Option Nat)).Ensures h Action.Total fun _ h' =>
          Released h front b behind nodes h' :=
      (releaseAs_ensures laid used "resize").bind fun _ _ released => .pure released
    rw [resize, resizeAs_zero "resize" (by omega : b.bp ≠ 0)]
    exact .scanned (.bind (releaseAs_transparent accepted) fun _ _ _ => .pure) ensured
      (fun _ _ released => released.laid.check_eq) "resize"
  · exact .scanned (resizeAs_transparent accepted) (resizeAs_ensures laid used "resize" some)
      (fun _ _ => ResizeOutcome.check_eq laid used) "resize"

/-! ## Calls -/

/-- Every call that the ledger of a client permits comes to the same with checks and records and
without, and reports no damage. -/
theorem Backs.call_transparent (backs : h.Backs ledger chain nodes)
    (permitted : ledger.Permits h call) : Transparent (Heap.call call) h := by
  cases call with
  | init => exact permitted.elim
  | allocate request => exact .bind (allocate_transparent backs.laid request) fun _ _ _ => .pure
  | calloc items size => exact .bind (calloc_transparent backs.laid items size) fun _ _ _ => .pure
  | release ptr =>
    rcases permitted with rfl | live
    · exact .bind (release_null_transparent backs.laid) fun _ _ _ => .pure
    · obtain ⟨front, b, behind, rfl, rfl, used⟩ := backs.live live
      exact .bind (release_transparent backs.laid used) fun _ _ _ => .pure
  | resize ptr request =>
    rcases permitted with rfl | live
    · exact .bind (resize_null_transparent backs.laid request) fun _ _ _ => .pure
    · obtain ⟨front, b, behind, rfl, rfl, used⟩ := backs.live live
      exact .bind (resize_transparent backs.laid used request) fun _ _ _ => .pure
  | write ptr offset values =>
    exact .bind (patch_transparent h ptr offset values) fun _ _ _ => .pure

/-- A layout leaves nothing for the scan to find, whether it succeeds or not. -/
theorem init_transparent (h : Heap LimitedArena) : Transparent init h := by
  unfold init
  refine .bind (.modify rfl fun quiet => ⟨quiet.accepted, quiet.undamaged⟩) fun _ h₀ emptied => ?_
  obtain rfl : h.emptied = h₀ := by
    cases emptied
    rfl
  refine .bind (layOut_transparent h.emptied) fun result h₁ laidOut => ?_
  refine .bind (conclude_transparent h₁ result) fun _ h₂ concluded => ?_
  have clean : h₂.check = .ok [] := by
    rcases (layOut_ensures h).holds laidOut with ⟨error, rfl, idle⟩ | ⟨size, rfl, fresh⟩
    · have agrees : (conclude (.error error)).Ensures h₁ Action.Total fun _ h' => Agrees h₁ h' :=
        conclude_error_ensures h₁ error
      obtain ⟨_, _, rfl⟩ := agrees.holds concluded
      exact check_eq_of_not_initialized idle
    · have agrees : (conclude (.ok ())).Ensures h₁ Action.Total fun _ h' =>
          Agrees { h₁ with initialized := true } h' := conclude_ok_ensures h₁
      have laid : Laid { h₁ with initialized := true } [whole size] [whole size] :=
        ⟨fresh.settled, fresh.prologue, rfl⟩
      exact ((agrees.holds concluded).laid laid).check_eq
  exact .bind (afterwards_transparent clean "init") fun _ _ _ => .pure

/-! ## Runs -/

variable {arena : LimitedArena} {config : HeapConfig} {history : List (Call × Answer)}

theorem Reaches.call_transparent {n : Nat} (reached : Reaches arena config n h ledger)
    (permitted : ledger.Permits h call) : Transparent (Heap.call call) h := by
  obtain ⟨_, _, sound⟩ := reached.sound
  exact sound.backs.call_transparent permitted

theorem Serves.quiet (served : Serves arena config history h ledger) : h.Quiet := by
  induction served with
  | start laidOut =>
    exact (init_transparent _).quiet_of_run laidOut ⟨rfl, fun _ kept => absurd kept (by simp [new])⟩
  | step before permitted ran ih =>
    exact (before.reaches.call_transparent permitted).quiet_of_run ran ih

/-- What a ledger permits does not depend on checks and records. -/
theorem permits_of_bare_eq (same : h'.bare = h.bare) (permitted : ledger.Permits h call) :
    ledger.Permits h' call := by
  cases call with
  | write ptr offset values =>
    have usable : h'.bare.usableSize ptr = h.bare.usableSize ptr := by rw [same]
    obtain ⟨live, length, found, fits⟩ := permitted
    exact ⟨live, length, usable.trans found, fits⟩
  | _ => exact permitted

/-- With other checks and records the same calls are answered alike. -/
theorem Serves.exists_twin (served : Serves arena config history h ledger) (check : CheckLevel)
    (logLevel : Level) :
    ∃ h', Serves arena { config with check, logLevel } history h' ledger ∧ h'.bare = h.bare := by
  induction served with
  | start laidOut =>
    obtain ⟨h', laidOut', same⟩ :=
      (init_transparent (new arena config)).exists_run
        (init_transparent (new arena { config with check, logLevel })) rfl laidOut
    exact ⟨h', .start laidOut', same⟩
  | step before permitted ran ih =>
    obtain ⟨h₁, served, same⟩ := ih
    have permitted' := permits_of_bare_eq same permitted
    obtain ⟨h', ran', same'⟩ := (before.reaches.call_transparent permitted).exists_run
      (served.reaches.call_transparent permitted') same ran
    exact ⟨h', served.step permitted' ran', same'⟩

/-- Whatever a client that keeps to its ledger does, a heap with other checks and records, but
otherwise the same settings, answers it alike: after every call both hold the same bytes and the
same free list and have counted the same, and they go on alike. Neither has refused a pointer or
reported damage. -/
theorem Serves.transparent (served : Serves arena config history h ledger) (check : CheckLevel)
    (logLevel : Level) :
    ∃ h', Serves arena { config with check, logLevel } history h' ledger ∧
      h'.arena = h.arena ∧ h'.freeList = h.freeList ∧ h'.counters = h.counters ∧
      (∃ totals, h.stats = .ok totals ∧ h'.stats = .ok totals) ∧
      (∀ call, ledger.Permits h call → ledger.Permits h' call ∧
        ((Heap.call call).result h').map (·.1) = ((Heap.call call).result h).map (·.1)) ∧
      h.Quiet ∧ h'.Quiet := by
  obtain ⟨h', served', same⟩ := served.exists_twin check logLevel
  obtain ⟨_, _, sound⟩ := served.reaches.sound
  have totals := sound.backs.laid.stats_eq
  have arenas : h'.bare.arena = h.bare.arena := by rw [same]
  have freeLists : h'.bare.freeList = h.bare.freeList := by rw [same]
  have counters : h'.bare.counters = h.bare.counters := by rw [same]
  have stats : h'.bare.stats = h.bare.stats := by rw [same]
  refine ⟨h', served', arenas, freeLists, counters, ⟨_, totals, stats.trans totals⟩,
    fun call permitted => ?_, served.quiet, served'.quiet⟩
  have permitted' := permits_of_bare_eq same permitted
  exact ⟨permitted', (served.reaches.call_transparent permitted).answer_eq
    (served'.reaches.call_transparent permitted') same⟩

/-- A block that moves when it is made larger and is then released, as a heap that checks everything
and keeps every record sees it. -/
theorem Serves.transparent_moved :
    ∃ h ledger, Serves (.withLimit 4096)
        { HeapConfig.standard with chunkSize := 64, check := .off, logLevel := .error }
        [(.allocate 24, .block (some 32)), (.resize 32 100, .block (some 96)),
          (.release 96, .released)] h ledger ∧
      ∃ h', Serves (.withLimit 4096)
          { HeapConfig.standard with chunkSize := 64, check := .paranoid, logLevel := .trace }
          [(.allocate 24, .block (some 32)), (.resize 32 100, .block (some 96)),
            (.release 96, .released)] h' ledger ∧
        h'.arena = h.arena ∧ h'.freeList = h.freeList ∧ h.Quiet ∧ h'.Quiet := by
  have ran : ((do
      let laidOut ← init
      let answers ← Heap.run [.allocate 24, .resize 32 100, .release 96]
      return (laidOut, answers) :
        Action (Heap LimitedArena) (Except HeapError Unit × List Answer)).result
        (new (.withLimit 4096)
          { HeapConfig.standard with
            chunkSize := 64, check := .off, logLevel := .error })).map (·.1) =
      .ok (.ok (), [.block (some 32), .block (some 96), .released]) := by
    decide +kernel
  obtain ⟨h, ran⟩ := Action.exists_run_of_result ran
  obtain ⟨laidOut, h₁, first, ran⟩ := Action.run_bind_eq_ok.mp ran
  obtain ⟨answers, h₂, second, ran⟩ := Action.run_bind_eq_ok.mp ran
  cases ran
  have served := (Serves.start first).run second
    ⟨fun _ => trivial, fun _ => .inr rfl, fun _ => .inr rfl, trivial⟩
  obtain ⟨h', served', arena, freeList, -, -, -, quiet, quiet'⟩ :=
    Serves.transparent served .paranoid .trace
  exact ⟨h, _, served, h', served', arena, freeList, quiet, quiet'⟩

end BoundaryHeap.Heap
