import BoundaryHeap.Proofs.Calls
import BoundaryHeap.Proofs.LiveTable
import Mathlib.Data.Finset.Basic

/-!
One operation of a replay. Between two operations the blocks of the table are live in the heap and
filled with their patterns, so every test that an operation makes of a block succeeds; an operation
stops the replay for one of three reasons only.
-/

namespace BoundaryHeap

namespace Action.Ensures

variable {σ α : Type} {act : Action σ α} {s : σ} {excused : Fault → Prop} {post : α → σ → Prop}

/-- What an action ensures, together with how it ran. -/
theorem ran (ensured : act.Ensures s excused post) :
    act.Ensures s (fun fault => excused fault ∧ ∃ s', act.run s = .error fault s')
      fun answer s' => post answer s' ∧ act.run s = .ok answer s' := by
  unfold Ensures at *
  split <;> rename_i run <;> rw [run] at ensured
  · exact ⟨ensured, run⟩
  · exact ⟨ensured, _, run⟩

end Action.Ensures

namespace Replay

/-! ## Parts of a replay -/

namespace Step

variable {α β : Type} {next : α → Step β} {s : State}

theorem run_ask_bind {question : State → Except Fault α} {answer : α}
    (known : question s = .ok answer) :
    (Replay.ask question >>= next).run.run s = (next answer).run.run s := by
  have asked : (Action.ask question).run s = .ok answer s := by rw [Action.run_ask, known]
  rw [Replay.ask, ExceptT.run_bind, ExceptT.run_lift, map_eq_pure_bind, EStateM.run_bind,
    EStateM.run_bind, asked]
  rfl

theorem run_look_bind {question : State → α} {answer : α} (known : question s = answer) :
    (Replay.ask (fun s => .ok (question s)) >>= next).run.run s = (next answer).run.run s :=
  run_ask_bind (congrArg Except.ok known)

theorem require_bind {condition : Bool} {error : ReplayError} {next : Unit → Step β}
    (known : condition = true) : (Replay.require condition error >>= next) = next () := by
  rw [Replay.require, if_pos known, pure_bind]

end Step

/-- Run in `s`, a part of a replay ends as `post` asks, stops the replay as `stopped` asks, or meets
a fault that is excused. -/
def Step.Meets {α : Type} (act : Step α) (s : State) (excused : Fault → Prop)
    (stopped : ReplayError → Prop) (post : α → State → Prop) : Prop :=
  act.run.Ensures s excused fun result s' =>
    match result with
    | .ok answer => post answer s'
    | .error error => stopped error

namespace Step.Meets

variable {α β : Type} {act : Step α} {next : α → Step β} {s : State} {excused : Fault → Prop}
  {stopped : ReplayError → Prop} {post : α → State → Prop} {last : β → State → Prop} {answer : α}

theorem imp {post' : α → State → Prop} (done : act.Meets s excused stopped post)
    (weaker : ∀ answer s', post answer s' → post' answer s') :
    act.Meets s excused stopped post' := by
  apply Action.Ensures.imp done
  intro result s' holds
  cases result with
  | ok answer => exact weaker answer s' holds
  | error error => exact holds

theorem pure (holds : post answer s) : (Pure.pure answer : Step α).Meets s excused stopped post :=
  Action.Ensures.pure holds

theorem throw {error : ReplayError} (holds : stopped error) :
    (MonadExcept.throw error : Step α).Meets s excused stopped post :=
  Action.Ensures.pure holds

theorem bind (first : act.Meets s excused stopped post)
    (rest : ∀ answer s', post answer s' → (next answer).Meets s' excused stopped last) :
    (act >>= next).Meets s excused stopped last := by
  apply Action.Ensures.bind first
  intro result s' holds
  cases result with
  | ok answer => exact rest answer s' holds
  | error error => exact Action.Ensures.pure holds

theorem lift {act : Action State α} (ensured : act.Ensures s excused post) :
    Step.Meets (ExceptT.lift act) s excused stopped post := by
  rw [Step.Meets, ExceptT.run_lift, map_eq_pure_bind]
  exact ensured.bind fun _ _ holds => .pure holds

theorem ask {question : State → Except Fault α} (known : question s = .ok answer)
    (rest : (next answer).Meets s excused stopped last) :
    (Replay.ask question >>= next).Meets s excused stopped last := by
  rw [Step.Meets, Action.Ensures, Step.run_ask_bind known]
  exact rest

/-- A question that meets a fault. -/
theorem ask_error {question : State → Except Fault α} {fault : Fault}
    (known : question s = .error fault) (holds : excused fault) :
    (Replay.ask question >>= next).Meets s excused stopped last := by
  have asked : (Action.ask question).Ensures s excused fun _ _ => False := by
    rw [Action.Ensures, Action.run_ask, known]
    exact holds
  exact (lift asked).bind fun _ _ never => never.elim

/-- A question that always has an answer. -/
theorem look {question : State → α} (known : question s = answer)
    (rest : (next answer).Meets s excused stopped last) :
    (Replay.ask (fun s => .ok (question s)) >>= next).Meets s excused stopped last :=
  ask (congrArg Except.ok known) rest

theorem update {change : State → State} {next : Unit → Step β}
    (rest : (next ()).Meets (change s) excused stopped last) :
    (Replay.update change >>= next).Meets s excused stopped last := by
  have updated : (modify change : Action State Unit).Ensures s excused fun _ s' => s' = change s :=
    .of_run rfl rfl
  apply (lift updated).bind
  rintro _ _ rfl
  exact rest

theorem onHeap {act : Action (Heap LimitedArena) α} {found : α → Heap LimitedArena → Prop}
    (ensured : act.Ensures s.heap excused found) :
    (Replay.onHeap act).Meets s excused stopped fun answer s' =>
      ∃ heap, found answer heap ∧ s' = { s with heap } :=
  lift (.focus (ensured.imp fun _ heap holds => ⟨heap, holds, rfl⟩))

theorem discard (done : act.Meets s excused stopped post) :
    Step.Meets (discard act) s excused stopped fun _ s' => ∃ answer, post answer s' := by
  apply Action.Ensures.bind done
  intro result s' holds
  cases result with
  | ok answer => exact Action.Ensures.pure ⟨answer, holds⟩
  | error error => exact Action.Ensures.pure holds

theorem require {condition : Bool} {error : ReplayError} {next : Unit → Step β}
    (known : condition = true) (rest : (next ()).Meets s excused stopped last) :
    (Replay.require condition error >>= next).Meets s excused stopped last := by
  rw [Step.require_bind known]
  exact rest

theorem require_false {condition : Bool} {error : ReplayError} {next : Unit → Step β}
    (known : condition = false) (holds : stopped error) :
    (Replay.require condition error >>= next).Meets s excused stopped last := by
  rw [Replay.require, if_neg (by simp [known])]
  exact bind (throw holds : Step.Meets _ s _ _ fun _ _ => False) fun _ _ never => never.elim

theorem excuse {excused' : Fault → Prop} {stopped' : ReplayError → Prop}
    (done : act.Meets s excused stopped post) (milder : ∀ fault, excused fault → excused' fault)
    (wider : ∀ error, stopped error → stopped' error) : act.Meets s excused' stopped' post := by
  refine (Action.Ensures.imp done ?_).excuse milder
  intro result s' holds
  cases result with
  | ok answer => exact holds
  | error error => exact wider error holds

/-- What a part of a replay meets, together with how it ran. -/
theorem ran (done : act.Meets s excused stopped post) :
    act.Meets s excused stopped fun answer s' =>
      post answer s' ∧ act.run.run s = .ok (.ok answer) s' := by
  refine (Action.Ensures.ran done).imp ?_ |>.excuse fun _ broken => broken.1
  rintro result s' ⟨holds, ran⟩
  cases result with
  | ok answer => exact ⟨holds, ran⟩
  | error error => exact holds

/-- A requirement at the end of a part. -/
theorem require_last {condition : Prop} [Decidable condition] {error : ReplayError}
    {post : Unit → State → Prop} (holds : condition → post () s)
    (stops : ¬ condition → stopped error) :
    (Replay.require condition error).Meets s excused stopped post := by
  unfold Replay.require
  by_cases known : condition
  · rw [if_pos (decide_eq_true known)]
    exact pure (holds known)
  · rw [if_neg (by simpa using known)]
    exact throw (stops known)

end Step.Meets

/-! ## A replay under way -/

/-- A block filled with the pattern of a number, as far as it was asked for. -/
def patterned (id size : Nat) : Holding :=
  ⟨size, fun index => if index < size then some (patternByte id index) else none⟩

/-- Nothing is known of the payload beyond what was asked for. -/
def Bare (holding : Holding) : Prop :=
  ∀ index, holding.requested ≤ index → holding.known index = none

theorem bare_fresh (request : Nat) : Bare (.fresh request) := fun _ _ => rfl

theorem bare_resized (holding : Holding) (request : Nat) : Bare (holding.resized request) :=
  fun _ beyond => if_neg (Nat.not_lt_of_le beyond)

theorem written_patterned {holding : Holding} (bare : Bare holding) (id : Nat) :
    holding.written 0 (patternFrom id 0 holding.requested) = patterned id holding.requested := by
  simp only [Holding.written, patterned, length_patternFrom, Nat.zero_le, true_and, Nat.zero_add,
    Nat.sub_zero, Holding.mk.injEq]
  funext index
  by_cases within : index < holding.requested
  · rw [if_pos within, if_pos within, getElem?_patternFrom within, Nat.zero_add]
  · rw [if_neg within, if_neg within]
    exact bare index (Nat.le_of_not_lt within)

/-- The blocks of the table are live in the heap and hold their patterns, and `ids` are their
numbers. -/
structure Running (limit : Nat) (s : State) (ids : Finset Nat) (ledger : Ledger)
    (chain nodes : List ChainBlock) : Prop where
  backs : s.heap.Backs ledger chain nodes
  limit : s.heap.arena.limit = limit
  shown : ∀ block ∈ s.live, ledger block.start = some (patterned block.id block.size)
  sound : s.live.Sound s.heap.memory.size
  liveBytes : s.liveBytes = (s.live.map (·.size)).sum
  listed : ∀ id, id ∈ ids ↔ ∃ block ∈ s.live, block.id = id

/-- Every pointer of the ledger is that of a block in the table, but for one that may be spare. -/
def Covers (table : LiveTable) (spare : Option Nat) (ledger : Ledger) : Prop :=
  ∀ ptr, (ledger ptr).isSome → spare = some ptr ∨ ∃ block ∈ table, block.start = ptr

namespace Covers

variable {table : LiveTable} {spare : Option Nat} {ledger : Ledger} {ptr : Nat} {holding : Holding}

/-- A pointer that enters the ledger is spare until its block enters the table. -/
theorem add (covers : Covers table none ledger) :
    Covers table (some ptr) (ledger.add ptr holding) := by
  intro other found
  by_cases same : other = ptr
  · exact .inl (congrArg some same.symm)
  · rw [Ledger.add_of_ne same] at found
    exact .inr ((covers other found).resolve_left fun never => by cases never)

/-- Another holding for the spare pointer. -/
theorem hold (covers : Covers table (some ptr) ledger) :
    Covers table (some ptr) (ledger.add ptr holding) := by
  intro other found
  by_cases same : other = ptr
  · exact .inl (congrArg some same.symm)
  · rw [Ledger.add_of_ne same] at found
    exact covers other found

/-- The spare pointer leaves the ledger. -/
theorem drop {old : Option LiveBlock} (covers : Covers table (old.map (·.start)) ledger) :
    Covers table none (ledger.drop (startOf old)) := by
  intro other found
  by_cases same : other = startOf old
  · rw [same, Ledger.drop_self] at found
    cases found
  rw [Ledger.drop_of_ne same] at found
  refine .inr ((covers other found).resolve_left fun spare => same ?_)
  rw [startOf, spare, Option.getD_some]

/-- The block at the spare pointer enters the table. -/
theorem insert {block : LiveBlock} (covers : Covers table (some block.start) ledger) :
    Covers (table.insert block) none ledger := by
  intro other found
  rcases covers other found with same | ⟨entered, member, place⟩
  · exact .inr ⟨block, LiveTable.mem_insert.mpr (.inl rfl), Option.some.inj same⟩
  · exact .inr ⟨entered, LiveTable.mem_insert.mpr (.inr member), place⟩

/-- A block leaves the table, and its pointer is spare. -/
theorem erase (covers : Covers table none ledger) {bound id : Nat} (sound : table.Sound bound) :
    Covers (table.erase id) ((table.find? id).map (·.start)) ledger := by
  intro other found
  obtain ⟨block, member, place⟩ := (covers other found).resolve_left fun never => by cases never
  by_cases same : block.id = id
  · refine .inl ?_
    cases known : table.find? id with
    | none => exact absurd same (LiveTable.find?_eq_none.mp known block member)
    | some named =>
      obtain ⟨namedMem, same'⟩ := LiveTable.mem_of_find? known
      have one : named = block :=
        List.inj_on_of_nodup_map sound.numbered namedMem member (same'.trans same.symm)
      rw [Option.map_some, one, place]
  · exact .inr ⟨block, LiveTable.mem_erase.mpr ⟨member, same⟩, place⟩

end Covers

section Operations

variable {limit : Nat} {s : State} {ids : Finset Nat} {ledger ledger' : Ledger}
  {chain nodes : List ChainBlock} {excused : Fault → Prop} {stopped : ReplayError → Prop}
  {index id ptr size count : Nat} {holding : Holding}

namespace Running

/-- A call that leaves the holdings of the table alone. -/
theorem follows (running : Running limit s ids ledger chain nodes) {call : Call} {answer : Answer}
    {heap : Heap LimitedArena} (follows : s.heap.Follows ledger call answer heap)
    (same : ∀ block ∈ s.live, ledger.after call answer block.start = ledger block.start) :
    ∃ chain' nodes',
      Running limit { s with heap } ids (ledger.after call answer) chain' nodes' := by
  obtain ⟨advances, chain', nodes', backs⟩ := follows
  exact ⟨chain', nodes',
    { backs
      limit := advances.continues.limit.trans running.limit
      shown := fun block member => (same block member).trans (running.shown block member)
      sound := running.sound.mono advances.continues.larger
      liveBytes := running.liveBytes
      listed := running.listed }⟩

/-- A number is live exactly if a block of the table has it. -/
theorem find?_eq_none_iff (running : Running limit s ids ledger chain nodes) :
    s.live.find? id = none ↔ id ∉ ids := by
  rw [LiveTable.find?_eq_none, running.listed]
  simp

/-- A block of the heap that is not in the table can be entered in it. -/
theorem entered (running : Running limit s ids ledger chain nodes)
    (found : ledger ptr = some (patterned id size)) (bytes : 0 < size) (new : id ∉ ids)
    (fresh : ∀ block ∈ s.live, block.start ≠ ptr) (peak : Nat) :
    Running limit
      { s with
        live := s.live.insert ⟨id, ptr, size⟩
        liveBytes := s.liveBytes + size
        peakLiveBytes := peak }
      (insert id ids) ledger chain nodes := by
  have others : ∀ block ∈ s.live, block.id ≠ id := by
    intro block member same
    exact new ((running.listed id).mpr ⟨block, member, same⟩)
  have apart : ∀ block ∈ s.live, block.stop ≤ ptr ∨ ptr + size ≤ block.start := by
    intro block member
    exact running.backs.apart (running.shown block member) found (fresh block member)
  constructor
  · exact running.backs
  · exact running.limit
  · intro block member
    rcases LiveTable.mem_insert.mp member with rfl | member
    · exact found
    · exact running.shown block member
  · exact running.sound.insert (running.backs.inside found) bytes others apart
  · rw [LiveTable.sum_insert, running.liveBytes]
  · intro other
    rw [Finset.mem_insert, running.listed]
    simp only [LiveTable.mem_insert]
    constructor
    · rintro (rfl | ⟨block, member, same⟩)
      · exact ⟨_, .inl rfl, rfl⟩
      · exact ⟨block, .inr member, same⟩
    · rintro ⟨block, rfl | member, same⟩
      · exact .inl same.symm
      · exact .inr ⟨block, member, same⟩

/-- The bytes that are live number no more than the memory has. -/
theorem liveBytes_le (running : Running limit s ids ledger chain nodes) :
    s.liveBytes ≤ s.heap.memory.size := by
  rw [running.liveBytes]
  exact running.sound.sum_le

/-- A block can be taken out of the table, whatever becomes of it in the heap. -/
theorem erased (running : Running limit s ids ledger chain nodes) {block : LiveBlock}
    (member : block ∈ s.live) :
    Running limit
      { s with live := s.live.erase block.id, liveBytes := s.liveBytes - block.size }
      (ids.erase block.id) ledger chain nodes := by
  constructor
  · exact running.backs
  · exact running.limit
  · intro other otherMem
    exact running.shown other (LiveTable.mem_erase.mp otherMem).1
  · exact running.sound.erase block.id
  · rw [running.liveBytes, running.sound.sum_erase member, Nat.add_sub_cancel_left]
  · intro other
    rw [Finset.mem_erase, running.listed]
    simp only [LiveTable.mem_erase]
    constructor
    · rintro ⟨different, c, here, rfl⟩
      exact ⟨c, ⟨here, different⟩, rfl⟩
    · rintro ⟨c, ⟨here, different⟩, rfl⟩
      exact ⟨different, c, here, rfl⟩

end Running

/-- Testing a block that is known to hold a pattern. -/
theorem verify_meets {β : Type} {next : Unit → Step β} {last : β → State → Prop}
    (running : Running limit s ids ledger chain nodes) (found : ledger ptr = some holding)
    (known : ∀ offset < count, holding.known offset = some (patternByte id offset))
    (rest : (next ()).Meets s excused stopped last) :
    (verify index id ptr count >>= next).Meets s excused stopped last := by
  obtain ⟨bytes, payload, -, -, held⟩ := running.backs.payload found
  have clean : mismatchFrom id 0 count ((some bytes).getD []) = none := by
    apply mismatchFrom_eq_none
    intro offset within
    rw [Nat.zero_add]
    exact held offset _ (known offset within)
  have tested : (verify index id ptr count).Meets s excused stopped fun _ s' => s' = s := by
    unfold verify
    apply Step.Meets.ask payload
    rw [clean]
    exact .pure rfl
  apply tested.bind
  rintro _ _ rfl
  exact rest

/-- Entering a block in the table. -/
theorem enter_meets (running : Running limit s ids ledger chain nodes)
    (found : ledger ptr = some (patterned id size)) (bytes : 0 < size) (new : id ∉ ids)
    (fresh : ∀ block ∈ s.live, block.start ≠ ptr) :
    (enter ⟨id, ptr, size⟩).Meets s excused stopped fun _ s' =>
      Running limit s' (insert id ids) ledger chain nodes ∧
        s' = { s with
          live := s.live.insert ⟨id, ptr, size⟩
          liveBytes := s.liveBytes + size
          peakLiveBytes := max s.peakLiveBytes (s.liveBytes + size) } := by
  have running' := fun peak => running.entered found bytes new fresh peak
  have fits : s.liveBytes + size < wordLimit :=
    Nat.lt_of_le_of_lt (running' 0).liveBytes_le running.backs.laid.settled.bounded
  unfold enter
  apply Step.Meets.update
  apply Step.Meets.ask (Checked.add_eq_ok fits)
  exact Action.Ensures.of_run rfl ⟨running' _, rfl⟩

/-- Taking in a block that is live in the heap and not yet in the table. -/
theorem takeIn_meets (running : Running limit s ids ledger chain nodes)
    (found : ledger ptr = some holding) (requested : holding.requested = size) (bare : Bare holding)
    (asks : 0 < size)
    (new : id ∉ ids) (fresh : ∀ block ∈ s.live, block.start ≠ ptr) :
    (takeIn index id ptr size).Meets s excused stopped fun _ s' =>
      (∃ chain' nodes', Running limit s' (insert id ids) (ledger.add ptr (patterned id size))
        chain' nodes') ∧
      ∃ heap, s' = { s with
        heap
        live := s.live.insert ⟨id, ptr, size⟩
        liveBytes := s.liveBytes + size
        peakLiveBytes := max s.peakLiveBytes (s.liveBytes + size) } ∧
        s.heap.memory.size ≤ heap.memory.size := by
  subst requested
  obtain ⟨bytes, -, usable, enough, -⟩ := running.backs.payload found
  have apart : ∀ block ∈ s.live, block.stop ≤ ptr ∨ ptr + holding.requested ≤ block.start := by
    intro block member
    exact running.backs.apart (running.shown block member) found (fresh block member)
  have clear : s.live.clash? ptr (ptr + holding.requested) = none :=
    running.sound.clash?_eq_none (Nat.lt_add_of_pos_right asks) apart
  have fits : 0 + (patternFrom id 0 holding.requested).length ≤ bytes.length := by
    rw [length_patternFrom, Nat.zero_add]
    exact enough
  have after : ledger.after (.write ptr 0 (patternFrom id 0 holding.requested)) (.written true) =
      ledger.add ptr (patterned id holding.requested) := by
    rw [← written_patterned bare]
    simp only [Ledger.after, found, Option.elim_some]
  unfold takeIn
  apply Step.Meets.require (by simpa using running.backs.aligned found)
  apply Step.Meets.ask usable
  apply Step.Meets.require (by simpa using enough)
  apply Step.Meets.look clear
  apply Step.Meets.bind
    (Step.Meets.onHeap (running.backs.patch_ensures found usable fits)).discard
  rintro - _ ⟨_, heap, ⟨rfl, follows⟩, rfl⟩
  obtain ⟨chain', nodes', running'⟩ := running.follows follows fun block member => by
    rw [after, Ledger.add_of_ne (fresh block member)]
  rw [after] at running'
  apply (enter_meets running' Ledger.add_self asks new fresh).imp
  rintro _ _ ⟨running'', rfl⟩
  exact ⟨⟨chain', nodes', running''⟩, heap, rfl, follows.1.continues.larger⟩

/-- A block has been taken out of the table, if one had the number. The heap still holds it. -/
structure TakenOut (s : State) (id : Nat) (ledger : Ledger) (old : Option LiveBlock) (s' : State) :
    Prop where
  found : old = s.live.find? id
  state : ∃ bytes ≤ s.liveBytes, s' = { s with live := s.live.erase id, liveBytes := bytes }
  shown : ∀ block, old = some block → ledger block.start = some (patterned id block.size)
  gone : ∀ block ∈ s'.live, block.start ≠ startOf old

theorem TakenOut.heap {old : Option LiveBlock} {s' : State} (taken : TakenOut s id ledger old s') :
    s'.heap = s.heap := by
  obtain ⟨_, -, rfl⟩ := taken.state
  rfl

theorem TakenOut.covers {old : Option LiveBlock} {s' : State} (taken : TakenOut s id ledger old s')
    (running : Running limit s ids ledger chain nodes) (covers : Covers s.live none ledger) :
    Covers s'.live (old.map (·.start)) ledger := by
  obtain ⟨_, -, rfl⟩ := taken.state
  rw [taken.found]
  exact covers.erase running.sound

/-- A pointer taken out of the table can be passed to the heap. -/
theorem TakenOut.live {old : Option LiveBlock} {s' : State} (taken : TakenOut s id ledger old s') :
    startOf old = 0 ∨ (ledger (startOf old)).isSome := by
  cases old with
  | none => exact .inl rfl
  | some block =>
    have shown : ledger (startOf (some block)) = _ := taken.shown block rfl
    rw [shown]
    exact .inr rfl

/-- Once it is resized, a block taken out still begins with its pattern. -/
theorem TakenOut.resized {old : Option LiveBlock} {s' : State} (taken : TakenOut s id ledger old s')
    (null : ledger 0 = none) (request : Nat) :
    ∃ holding, (ledger (startOf old)).elim (.fresh request) (·.resized request) = holding ∧
      holding.requested = request ∧ Bare holding ∧
      ∀ offset < (old.map fun block => min block.size request).getD 0,
        holding.known offset = some (patternByte id offset) := by
  cases old with
  | none =>
    refine ⟨.fresh request, ?_, rfl, bare_fresh request,
      fun _ below => absurd below (Nat.not_lt_zero _)⟩
    rw [startOf, Option.map_none, Option.getD_none, null, Option.elim_none]
  | some block =>
    have shown : ledger (startOf (some block)) = _ := taken.shown block rfl
    rw [shown, Option.elim_some]
    refine ⟨_, rfl, rfl, bare_resized _ request, ?_⟩
    intro offset below
    obtain ⟨old, new⟩ := Nat.lt_min.mp below
    exact (if_pos new).trans (if_pos old)

theorem Running.takenOut_none (running : Running limit s ids ledger chain nodes)
    (found : s.live.find? id = none) : TakenOut s id ledger none s where
  found := found.symm
  state := by
    refine ⟨s.liveBytes, Nat.le_refl _, ?_⟩
    rw [LiveTable.erase_eq_self (LiveTable.find?_eq_none.mp found)]
  shown := by
    intro _ none
    cases none
  gone := by
    intro block member null
    have shown := running.shown block member
    rw [null, startOf, Option.map_none, Option.getD_none, running.backs.null] at shown
    cases shown

theorem Running.takenOut_some (running : Running limit s ids ledger chain nodes)
    {block : LiveBlock} (found : s.live.find? id = some block) {bytes : Nat}
    (fewer : bytes ≤ s.liveBytes) :
    TakenOut s id ledger (some block) { s with live := s.live.erase id, liveBytes := bytes } := by
  obtain ⟨member, rfl⟩ := LiveTable.mem_of_find? found
  constructor
  · exact found.symm
  · exact ⟨bytes, fewer, rfl⟩
  · rintro _ ⟨⟩
    exact running.shown block member
  · intro other otherMem same
    obtain ⟨here, different⟩ := LiveTable.mem_erase.mp otherMem
    exact different (congrArg LiveBlock.id (running.sound.eq_of_start here member same))

theorem takeOut_meets (running : Running limit s ids ledger chain nodes) (index id : Nat) :
    (takeOut index id).Meets s excused stopped fun old s' =>
      Running limit s' (ids.erase id) ledger chain nodes ∧ TakenOut s id ledger old s' := by
  unfold takeOut
  apply Step.Meets.look rfl
  cases found : s.live.find? id with
  | none =>
    have unknown : id ∉ ids := running.find?_eq_none_iff.mp found
    apply Step.Meets.pure
    rw [Finset.erase_eq_of_notMem unknown]
    exact ⟨running, running.takenOut_none found⟩
  | some block =>
    have taken {bytes : Nat} (fewer : bytes ≤ s.liveBytes) :
        TakenOut s id ledger (some block) { s with live := s.live.erase id, liveBytes := bytes } :=
      running.takenOut_some found fewer
    obtain ⟨member, rfl⟩ := LiveTable.mem_of_find? found
    have counted : block.size ≤ s.liveBytes := by
      rw [running.liveBytes, running.sound.sum_erase member]
      exact Nat.le_add_right ..
    apply verify_meets running (running.shown block member)
    · intro offset within
      exact if_pos within
    apply Step.Meets.update
    apply Step.Meets.ask (Checked.sub_eq_ok counted)
    apply Step.Meets.update
    exact Step.Meets.pure ⟨running.erased member, taken (Nat.sub_le ..)⟩

end Operations

end Replay

end BoundaryHeap
