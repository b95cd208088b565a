import BoundaryHeap.Proofs.Lockstep
import Mathlib.Data.List.Basic

/-!
The level of a heap as a filter on its records. Of two heaps that start alike but for the level, one
keeping every record and the other those from some level on, the second keeps what the filter leaves
of the records of the first, and does all else alike. Each numbers its own records, so the numbers
of the two part ways; in both they run on without a gap, also where records are taken away.
-/

namespace BoundaryHeap

/-! ## Rows of records -/

namespace Record

variable {level : Level} {first first' : Nat} {entry entry' : Record}
  {entries entries' later later' : List Record}

/-- A record but for its number and the name that is made of it. -/
def unnumbered (entry : Record) : Record := { entry with id := 0, traceId := "" }

/-- A record that a level keeps. -/
def AtLeast (level : Level) (entry : Record) : Prop := level.severity ≤ entry.level.severity

instance : Decidable (entry.AtLeast level) := inferInstanceAs (Decidable (_ ≤ _))

/-- The records are numbered from `first` on, and each is named after its operation and its
number. -/
structure Numbered (first : Nat) (entries : List Record) : Prop where
  ids : entries.map (·.id) = List.range' first entries.length
  names : ∀ entry ∈ entries, entry.traceId = traceIdOf entry.symbol entry.id

namespace Numbered

theorem nil : Numbered first [] := ⟨rfl, fun _ member => absurd member List.not_mem_nil⟩

theorem append (front : Numbered first entries)
    (behind : Numbered (first + entries.length) later) : Numbered first (entries ++ later) := by
  constructor
  · rw [List.map_append, front.ids, behind.ids, List.length_append, List.range'_append_1]
  · intro entry member
    cases List.mem_append.mp member with
    | inl member => exact front.names entry member
    | inr member => exact behind.names entry member

theorem singleton (id : entry.id = first) (name : entry.traceId = traceIdOf entry.symbol entry.id) :
    Numbered first [entry] :=
  ⟨congrArg (fun id => [id]) id, fun _ member => List.mem_singleton.mp member ▸ name⟩

end Numbered

/-- Of all records, numbered from `first` on, a level leaves those in `kept`, which have numbers of
their own from `first'` on and are otherwise the same. -/
structure Sieves (level : Level) (first first' : Nat) (all kept : List Record) : Prop where
  same : kept.map unnumbered = (all.filter (AtLeast level ·)).map unnumbered
  numbered : Numbered first all
  renumbered : Numbered first' kept

namespace Sieves

theorem nil : Sieves level first first' [] [] := ⟨rfl, .nil, .nil⟩

theorem append (front : Sieves level first first' entries entries')
    (behind : Sieves level (first + entries.length) (first' + entries'.length) later later') :
    Sieves level first first' (entries ++ later) (entries' ++ later') where
  same := by
    rw [List.map_append, front.same, behind.same, List.filter_append, List.map_append]
  numbered := front.numbered.append behind.numbered
  renumbered := front.renumbered.append behind.renumbered

/-- One record more, of a level that is kept. -/
theorem push (sieves : Sieves level first first' entries entries')
    (numbered : Numbered (first + entries.length) [entry])
    (renumbered : Numbered (first' + entries'.length) [entry']) (reaches : entry.AtLeast level)
    (same : entry'.unnumbered = entry.unnumbered) :
    Sieves level first first' (entries ++ [entry]) (entries' ++ [entry']) :=
  sieves.append ⟨by simp [reaches, same], numbered, renumbered⟩

/-- One record more, of a level that is not kept. -/
theorem skip (sieves : Sieves level first first' entries entries')
    (numbered : Numbered (first + entries.length) [entry]) (low : ¬ entry.AtLeast level) :
    Sieves level first first' (entries ++ [entry]) entries' := by
  have more : Sieves level (first + entries.length) (first' + entries'.length) [entry] [] :=
    ⟨by simp [low], numbered, .nil⟩
  have sieved := sieves.append more
  rwa [List.append_nil] at sieved

end Sieves

end Record

open Record (Sieves)

/-! ## Two heaps -/

namespace Heap

variable {A : Type} {level : Level} {first first' : Nat} {h h' : Heap A}

/-- The first heap keeps every record and the second those from `level` on, and otherwise they are
alike. When records were last taken away, the next numbers were `first` and `first'`. -/
structure Filters (level : Level) (first first' : Nat) (h h' : Heap A) : Prop where
  visible : h.visible = h'.visible
  talkative : h.config.logLevel = .trace
  reserved : h'.config.logLevel = level
  next : h.nextRecord = first + h.records.toList.length
  next' : h'.nextRecord = first' + h'.records.toList.length
  sieves : Sieves level first first' h.records.toList h'.records.toList

/-- Taking the records away from two heaps at once leaves them as they are but for these. -/
theorem Filters.drain (filters : Filters level first first' h h') :
    Filters level h.nextRecord h'.nextRecord h.drain.2 h'.drain.2 where
  visible := filters.visible
  talkative := filters.talkative
  reserved := filters.reserved
  next := rfl
  next' := rfl
  sieves := .nil

variable [Arena A]

section Records

variable {own : Level} {symbol event : String} {ptr size : Option Nat} {outcome details : String}

/-- The record that a heap makes next. -/
def entry (h : Heap A) (level : Level) (symbol event : String) (ptr size : Option Nat)
    (outcome details : String) : Record :=
  { id := h.nextRecord
    traceId := Record.traceIdOf symbol h.nextRecord
    level, symbol, event, ptr, size, outcome, details
    arenaBytes := h.memory.size
    freeBlocks := h.freeList.length }

theorem withRecord_of_reaches (kept : h.config.logLevel.severity ≤ own.severity) :
    h.withRecord own symbol event ptr size outcome details =
      { h with
        nextRecord := h.nextRecord + 1
        records := h.records.push (h.entry own symbol event ptr size outcome details) } :=
  if_neg (Nat.not_lt.mpr kept)

theorem withRecord_of_low (low : own.severity < h.config.logLevel.severity) :
    h.withRecord own symbol event ptr size outcome details = h := if_pos low

/-- Heaps that are alike make the same record but for its number. -/
theorem entry_unnumbered (same : h.visible = h'.visible) :
    (h'.entry own symbol event ptr size outcome details).unnumbered =
      (h.entry own symbol event ptr size outcome details).unnumbered := by
  have shown := congrArg
    (fun h : Heap A => (h.entry own symbol event ptr size outcome details).unnumbered) same
  exact shown.symm

/-- Each heap numbers its next record where its last one left off. -/
theorem entry_numbered (next : h.nextRecord = first) :
    Record.Numbered first [h.entry own symbol event ptr size outcome details] :=
  .singleton next rfl

theorem Filters.withRecord (filters : Filters level first first' h h') :
    Filters level first first' (h.withRecord own symbol event ptr size outcome details)
      (h'.withRecord own symbol event ptr size outcome details) := by
  have all : h.config.logLevel.severity ≤ own.severity := by
    rw [filters.talkative]
    exact Nat.zero_le _
  have next := filters.next
  have next' := filters.next'
  rw [withRecord_of_reaches all]
  by_cases low : own.severity < level.severity
  · rw [withRecord_of_low (filters.reserved ▸ low)]
    refine ⟨filters.visible, filters.talkative, filters.reserved, ?_, next', ?_⟩
    · simp [next, Nat.add_assoc]
    · rw [Array.toList_push]
      exact filters.sieves.skip (entry_numbered next) (Nat.not_le.mpr low)
  · have reaches := Nat.not_lt.mp low
    rw [withRecord_of_reaches (filters.reserved ▸ reaches)]
    refine ⟨filters.visible, filters.talkative, filters.reserved, ?_, ?_, ?_⟩
    · simp [next, Nat.add_assoc]
    · simp [next', Nat.add_assoc]
    · rw [Array.toList_push, Array.toList_push]
      exact filters.sieves.push (entry_numbered next) (entry_numbered next') reaches
        (entry_unnumbered filters.visible)

end Records

theorem Filters.parallel (symbol : String) :
    Parallel (A := A) (Filters level first first') symbol symbol where
  visible := Filters.visible
  arena filters arena := { filters with visible := congrArg ({ · with arena }) filters.visible }
  freeList filters freeList :=
    { filters with visible := congrArg ({ · with freeList }) filters.visible }
  prologue filters prologue :=
    { filters with visible := congrArg ({ · with prologue }) filters.visible }
  initialized filters initialized :=
    { filters with visible := congrArg ({ · with initialized }) filters.visible }
  counters filters _ := { filters with visible := filters.visible }
  records filters _ _ _ _ _ _ := filters.withRecord

/-! ## Runs in which records are taken away -/

/-- What a client does who also reads the records: make a call, or take the records away. -/
inductive Move where
  | call (call : Call)
  | drain

/-- Makes moves one after the other and collects the records that are taken away. -/
def follow : List Move → Action (Heap A) (List Record)
  | [] => return []
  | .call call :: rest => do
    let _ ← Heap.call call
    follow rest
  | .drain :: rest => do
    let taken ← modifyGet drain
    return taken ++ (← follow rest)

/-- Records that are taken away come before those that are taken away later. -/
theorem follow_drain (rest : List Move) (h : Heap A) :
    (follow (.drain :: rest)).run h =
      match (follow rest).run h.drain.2 with
      | .ok later s => .ok (h.records.toList ++ later) s
      | .error fault s => .error fault s := by
  have taken : (modifyGet drain : Action (Heap A) (List Record)).run h =
      .ok h.records.toList h.drain.2 := rfl
  rw [follow, EStateM.run_bind, taken]
  simp only [EStateM.run_bind]
  cases (follow rest).run h.drain.2 <;> rfl

/-- Of two runs of the same moves both meet the same fault, or the records of the second, those
taken away and those left, are what a level leaves of the records of the first. -/
inductive Filtered (level : Level) (first first' : Nat) :
    EStateM.Result Fault (Heap A) (List Record) → EStateM.Result Fault (Heap A) (List Record) → Prop
  | ok {taken taken' : List Record} {h h' : Heap A}
    (sieves : Sieves level first first' (taken ++ h.records.toList)
      (taken' ++ h'.records.toList)) : Filtered level first first' (.ok taken h) (.ok taken' h')
  | error (fault : Fault) (h h' : Heap A) :
    Filtered level first first' (.error fault h) (.error fault h')

theorem Filters.follow (filters : Filters level first first' h h') (moves : List Move) :
    Filtered level first first' ((follow moves).run h) ((follow moves).run h') := by
  induction moves generalizing first first' h h' with
  | nil => exact .ok filters.sieves
  | cons move rest ih =>
    cases move with
    | call call =>
      have matching := Parallel.call (fun symbol => Filters.parallel symbol) call filters
      rw [Heap.follow, EStateM.run_bind, EStateM.run_bind]
      generalize (Heap.call call).run h = outcome at matching ⊢
      generalize (Heap.call call).run h' = outcome' at matching ⊢
      cases matching with
      | ok answer related => exact ih related
      | error fault => exact .error fault _ _
    | drain =>
      have later := ih filters.drain
      rw [follow_drain, follow_drain]
      generalize (Heap.follow rest).run h.drain.2 = outcome at later ⊢
      generalize (Heap.follow rest).run h'.drain.2 = outcome' at later ⊢
      cases later with
      | ok sieves =>
        rw [filters.next, filters.next'] at sieves
        have joined := filters.sieves.append sieves
        rw [← List.append_assoc, ← List.append_assoc] at joined
        exact .ok joined
      | error fault => exact .error fault _ _

/-- Whatever the arena does and whatever moves a client makes, the records of a run at a level are
those records of the same run at the most talkative level that reach the level, the same but for
their numbers, and both runs number theirs from one on. -/
theorem follow_filtered (arena : A) (config : HeapConfig) (level : Level) (moves : List Move) :
    Filtered level 1 1 ((follow moves).run (new arena { config with logLevel := .trace }))
      ((follow moves).run (new arena { config with logLevel := level })) := by
  have filters : Filters level 1 1 (new arena { config with logLevel := .trace })
      (new arena { config with logLevel := level }) := ⟨rfl, rfl, rfl, rfl, rfl, .nil⟩
  exact filters.follow moves

/-- Moves that leave records of three levels, some of which are taken away on the way. -/
def recordedMoves : List Move :=
  [.call .init, .call (.release 0), .drain, .call (.allocate (wordLimit - 1))]

/-- A heap that leaves out the lowest two levels numbers what it keeps without a gap. -/
theorem follow_filtered_drained :
    ∃ taken taken' h h',
      (follow recordedMoves).run (new (LimitedArena.withLimit 128)
        { HeapConfig.standard with chunkSize := 32, logLevel := .trace }) = .ok taken h ∧
      (follow recordedMoves).run (new (LimitedArena.withLimit 128)
        { HeapConfig.standard with chunkSize := 32, logLevel := .info }) = .ok taken' h' ∧
      taken.map (fun entry => (entry.id, entry.event)) =
        [(1, "arena_grow"), (2, "init"), (3, "free_null")] ∧
      h.records.toList.map (fun entry => (entry.id, entry.event)) = [(4, "oom")] ∧
      Sieves .info 1 1 (taken ++ h.records.toList) (taken' ++ h'.records.toList) := by
  have ran : ((do
      let taken ← follow recordedMoves
      let left ← view (·.records.toList)
      return (taken.map fun entry => (entry.id, entry.event),
        left.map fun entry => (entry.id, entry.event)) :
        Action (Heap LimitedArena) (List (Nat × String) × List (Nat × String))).result
        (new (.withLimit 128)
          { HeapConfig.standard with chunkSize := 32, logLevel := .trace })).map (·.1) =
      .ok ([(1, "arena_grow"), (2, "init"), (3, "free_null")], [(4, "oom")]) := by decide +kernel
  obtain ⟨_, ran⟩ := Action.exists_run_of_result ran
  obtain ⟨taken, h, followed, ran⟩ := Action.run_bind_eq_ok.mp ran
  obtain ⟨left, _, viewed, ran⟩ := Action.run_bind_eq_ok.mp ran
  obtain ⟨rfl, rfl⟩ := run_view_eq_ok.mp viewed
  have filtered := follow_filtered (LimitedArena.withLimit 128)
    { HeapConfig.standard with chunkSize := 32 } .info recordedMoves
  rw [followed] at filtered
  generalize (follow recordedMoves).run (new (LimitedArena.withLimit 128)
    { HeapConfig.standard with chunkSize := 32, logLevel := .info }) = outcome at filtered
  cases filtered with
  | @ok _ taken' _ h' sieves =>
    injection ran with shown
    exact ⟨taken, taken', h, h', followed, rfl, congrArg Prod.fst shown, congrArg Prod.snd shown,
      sieves⟩

end Heap

end BoundaryHeap
