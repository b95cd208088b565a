import BoundaryHeap.EventLog.Emitter
import BoundaryHeap.Proofs.EntryRoundTrip
import BoundaryHeap.Proofs.JsonGrammar
import Mathlib.Data.List.Forall2
import Mathlib.Data.List.Nodup

/-!
An event log line by line. Each call adds the line of its entry and nothing else: a JSON text from
which the entry can be read back, and which no text in the entry divides. The entries that come
without a name are numbered in the order of the calls, and since a name ends in its number no two of
these have the same one.
-/

namespace BoundaryHeap.EventLog.Emitter

/-- What is asked of a writer: to write a bare entry, or one that is given. -/
inductive Call where
  | bare (timestamp : String) (level : Level) (event : String)
  | given (entry : Entry)

namespace Call

/-- A call that leaves it to the writer to name the entry. -/
def Unnamed : Call → Prop
  | bare .. => True
  | given entry => entry.traceId = ""

instance : (call : Call) → Decidable call.Unnamed
  | bare .. => isTrue trivial
  | given entry => inferInstanceAs (Decidable (entry.traceId = ""))

theorem unnamed_bare {timestamp : String} {level : Level} {event : String} :
    (bare timestamp level event).Unnamed := trivial

theorem unnamed_given {entry : Entry} : (given entry).Unnamed ↔ entry.traceId = "" := .rfl

/-- The entry written for a call in a run. All that the call gives is kept, and a run that it does
not give is filled in. This does not tell how an entry is named that comes without a name. -/
def Wrote (runId : String) : Call → Entry → Prop
  | bare timestamp level event, written =>
    written = { Entry.new timestamp written.traceId level event with runId := some runId }
  | given entry, written =>
    written = { entry with
        traceId := written.traceId
        runId := some (entry.runId.getD runId) } ∧
      (entry.traceId ≠ "" → written.traceId = entry.traceId)

/-- A call whose entry has numbers and details such as a line holds exactly. -/
def Exact : Call → Prop
  | bare .. => True
  | given entry => entry.Exact

/-- What is filled in does not matter to whether a line holds an entry exactly. -/
theorem Wrote.exact {runId : String} {call : Call} {written : Entry}
    (wrote : call.Wrote runId written) (exact : call.Exact) : written.Exact := by
  cases call with
  | bare timestamp level event =>
    have same : written = { Entry.new timestamp written.traceId level event with
        runId := some runId } := wrote
    rw [same]
    exact ⟨nofun, nofun, nofun, nofun⟩
  | given entry =>
    rw [wrote.1]
    exact { exact with }

end Call

/-- Makes a call; the answer is the entry that is written. -/
def make (e : Emitter) : Call → Entry × Emitter
  | .bare timestamp level event => e.emit timestamp level event
  | .given entry => ((e.complete entry).1, e.emitEntry entry)

/-- The log of a run after some calls. -/
def log (runId : String) (calls : List Call) : Emitter :=
  calls.foldl (fun e call => (e.make call).2) (new runId)

/-- The names of those entries that came without one. -/
def newNames (calls : List Call) (entries : List Entry) : List String :=
  ((calls.zip entries).filter fun pair => pair.1.Unnamed).map fun pair => pair.2.traceId

/-! ## Names -/

/-- A number is read off its digits, also behind zeros. -/
theorem ofDigitChars_padded (width number : Nat) :
    Nat.ofDigitChars 10 (Text.padded 10 width number) 0 = number := by
  have zeros : ∀ count, Nat.ofDigitChars 10 (List.replicate count '0') 0 = 0 := by
    intro count
    induction count with
    | zero => rfl
    | succ count ih =>
      rw [List.replicate_succ, Nat.ofDigitChars_cons]
      exact ih
  rw [Text.padded, List.leftpad, Nat.ofDigitChars_append, zeros, Nat.ofDigitChars_ten_toDigits]

theorem toList_traceIdOf (runId : String) (number : Nat) :
    (traceIdOf runId number).toList =
      ("harness::" ++ runId ++ "::").toList ++ Text.padded 10 3 number := by
  simp [traceIdOf, toString]

example : traceIdOf "r" 7 = "harness::r::007" ∧ traceIdOf "r" 1000 = "harness::r::1000" := by
  decide

/-- Different numbers give different names. -/
theorem traceIdOf_injective (runId : String) : Function.Injective (traceIdOf runId) := by
  intro a b same
  have lists := congrArg String.toList same
  rw [toList_traceIdOf, toList_traceIdOf] at lists
  have digits := List.append_cancel_left lists
  have values := congrArg (Nat.ofDigitChars 10 · 0) digits
  simpa only [ofDigitChars_padded] using values

/-! ## Calls -/

variable {runId : String} {calls : List Call} {entries : List Entry} {e : Emitter}

/-- What a call does to a log. -/
theorem make_eq (e : Emitter) (call : Call) :
    call.Wrote e.runId (e.make call).1 ∧
      (call.Unnamed → (e.make call).1.traceId = traceIdOf e.runId (e.named + 1)) ∧
      (e.make call).2 =
        { runId := e.runId
          named := if call.Unnamed then e.named + 1 else e.named
          lines := e.lines.push (e.make call).1.line } := by
  cases call with
  | bare timestamp level event => exact ⟨rfl, fun _ => rfl, rfl⟩
  | given entry =>
    by_cases empty : entry.traceId = ""
    · simp [make, complete, emitEntry, empty, Call.Wrote, Call.Unnamed, nextTraceId, writeLine]
    · simp [make, complete, emitEntry, empty, Call.Wrote, Call.Unnamed, writeLine]

/-- The log after some calls holds the lines of the entries written for them, and has numbered those
that came without a name from one on. -/
structure Holds (runId : String) (calls : List Call) (entries : List Entry) (e : Emitter) :
    Prop where
  sameRun : e.runId = runId
  wrote : List.Forall₂ (Call.Wrote runId) calls entries
  lines : e.lines.toList = entries.map Entry.line
  named : e.named = calls.countP (·.Unnamed)
  names : newNames calls entries = (List.range' 1 e.named).map (traceIdOf runId)

theorem Holds.step (holds : Holds runId calls entries e) (call : Call) :
    Holds runId (calls ++ [call]) (entries ++ [(e.make call).1]) (e.make call).2 := by
  obtain ⟨rfl, wrote, lines, named, names⟩ := holds
  obtain ⟨here, name, after⟩ := make_eq e call
  generalize (e.make call).1 = written at here name after ⊢
  rw [after]
  have split : newNames (calls ++ [call]) (entries ++ [written]) =
      newNames calls entries ++ newNames [call] [written] := by
    rw [newNames, List.zip_append wrote.length_eq, List.filter_append, List.map_append]
    rfl
  refine ⟨rfl, List.rel_append wrote (.cons here .nil), by simp [lines], ?_, ?_⟩
  · by_cases unnamed : call.Unnamed <;> simp [unnamed, named]
  · rw [split, names]
    by_cases unnamed : call.Unnamed
    · simp [newNames, unnamed, name unnamed, List.range'_1_concat, Nat.add_comm]
    · simp [newNames, unnamed]

theorem Holds.run (holds : Holds runId calls entries e) (later : List Call) :
    ∃ more, Holds runId (calls ++ later) (entries ++ more)
      (later.foldl (fun e call => (e.make call).2) e) := by
  induction later generalizing calls entries e with
  | nil => exact ⟨[], by simpa using holds⟩
  | cons call later ih =>
    obtain ⟨more, after⟩ := ih (holds.step call)
    exact ⟨(e.make call).1 :: more, by simpa using after⟩

theorem exists_holds_log (runId : String) (calls : List Call) :
    ∃ entries, Holds runId calls entries (log runId calls) := by
  have start : Holds runId [] [] (new runId) := ⟨rfl, .nil, rfl, rfl, rfl⟩
  exact start.run calls

/-! ## Lines -/

/-- Lines put one after the other, each with a break behind it, are found again at the breaks. -/
theorem splitOn_lines {lines : List (List Char)} (unbroken : ∀ line ∈ lines, '\n' ∉ line) :
    (lines.flatMap (· ++ ['\n'])).splitOn '\n' = lines ++ [[]] := by
  have joined : lines.flatMap (· ++ ['\n']) = ['\n'].intercalate (lines ++ [[]]) := by
    clear unbroken
    induction lines with
    | nil => rfl
    | cons line lines ih =>
      obtain ⟨next, rest, shape⟩ : ∃ next rest, lines ++ [[]] = next :: rest :=
        List.exists_cons_of_ne_nil (by simp)
      rw [List.flatMap_cons, ih, List.cons_append, shape, List.intercalate_cons_cons]
  have parts : ∀ line ∈ lines ++ [[]], '\n' ∉ line := by
    rw [List.forall_mem_append]
    exact ⟨unbroken, by simp⟩
  rw [joined]
  exact List.splitOn_intercalate _ parts (by simp)

theorem toList_text (e : Emitter) :
    e.text.toList = (e.lines.toList.map String.toList).flatMap (· ++ ['\n']) := by
  simp [text, List.flatMap_map]

/-- The log of a run, for calls in any order. Its text is the line of one entry for each call, and
a break after each of them is all that divides it. The line is a JSON text for the entry, and the
entry is read back from it unless a number or the details do not survive any line. As many calls are
counted as leave the name to the writer; their entries get the names of the numbers from one on, and
no name twice. -/
theorem text_log (runId : String) (calls : List Call) :
    ∃ entries,
      List.Forall₂ (Call.Wrote runId) calls entries ∧
      (log runId calls).text = String.join (entries.map (·.line ++ "\n")) ∧
      (∀ entry ∈ entries, Json.Written entry.toJson entry.line.toList) ∧
      List.Forall₂ (fun call entry => call.Exact →
        Entry.ofLine? entry.line = some { entry with details := Entry.told entry.details })
        calls entries ∧
      (∀ entry ∈ entries, '\n' ∉ entry.line.toList ∧ '\r' ∉ entry.line.toList) ∧
      (log runId calls).text.toList.splitOn '\n' = entries.map (·.line.toList) ++ [[]] ∧
      (log runId calls).named = calls.countP (·.Unnamed) ∧
      newNames calls entries = (List.range' 1 (log runId calls).named).map (traceIdOf runId) ∧
      (newNames calls entries).Nodup := by
  obtain ⟨entries, holds⟩ := exists_holds_log runId calls
  have unbroken (entry : Entry) : Json.Unbroken entry.line.toList := entry.toJson.unbroken_compact
  have lines : (log runId calls).lines.toList.map String.toList = entries.map (·.line.toList) := by
    rw [holds.lines, List.map_map]
    rfl
  have distinct : (newNames calls entries).Nodup := by
    rw [holds.names]
    exact List.Nodup.map (traceIdOf_injective runId) List.nodup_range'
  refine ⟨entries, holds.wrote, ?_, ?_, ?_, ?_, ?_, holds.named, holds.names, distinct⟩
  · rw [text, holds.lines, List.map_map]
    rfl
  · exact fun entry _ => entry.toJson.written_compact
  · exact holds.wrote.imp fun _ _ wrote exact => (wrote.exact exact).ofLine?_line
  · intro entry _
    exact ⟨(unbroken entry).newline_notMem,
      fun member => absurd (unbroken entry _ member) (by decide)⟩
  · rw [toList_text, lines]
    refine splitOn_lines fun line member => ?_
    obtain ⟨entry, -, rfl⟩ := List.mem_map.mp member
    exact (unbroken entry).newline_notMem

/-- Calls with and without a name for the entry, one with a run of its own, and with quotes and line
breaks in what is given. -/
def mixed : List Call :=
  [.bare "T" .info "start",
    .given { Entry.crowded with traceId := "" },
    .given { Entry.crowded with runId := some "other" },
    .bare "T" .info "done"]

theorem text_log_mixed :
    ∃ entries : List Entry,
      (log "run" mixed).text = String.join (entries.map (·.line ++ "\n")) ∧
      entries.map (·.traceId) =
        ["harness::run::001", "harness::run::002", "a\n", "harness::run::003"] ∧
      entries.map (·.runId) = [some "run", some "run", some "other", some "run"] ∧
      ∀ entry ∈ entries, Entry.ofLine? entry.line = some entry := by
  obtain ⟨entries, wrote, text, -, back, -, -, named, names, -⟩ := text_log "run" mixed
  refine ⟨entries, text, ?_⟩
  have three : (log "run" mixed).named = 3 := named.trans (by decide)
  rw [three] at names
  obtain _ | ⟨first, _ | ⟨second, _ | ⟨third, _ | ⟨fourth, none⟩⟩⟩⟩ := wrote
  cases none
  rename_i a b c d
  have unnamed : newNames mixed [a, b, c, d] = [a.traceId, b.traceId, d.traceId] := by
    simp [newNames, mixed, Call.unnamed_bare, Call.unnamed_given, Entry.crowded, Entry.new]
  have numbers : (List.range' 1 3).map (traceIdOf "run") =
      ["harness::run::001", "harness::run::002", "harness::run::003"] := by decide
  rw [unnamed, numbers] at names
  simp only [List.cons.injEq, and_true] at names
  obtain ⟨nameA, nameB, nameD⟩ := names
  have nameC : c.traceId = "a\n" := third.2 (by decide)
  refine ⟨by simp [nameA, nameB, nameC, nameD], ?_, ?_⟩
  · rw [first, second.1, third.1, fourth]
    rfl
  have exact : Entry.crowded.Exact := Entry.crowded_exact
  have whole {entry : Entry} (shown : Entry.told entry.details = entry.details)
      (back : Entry.ofLine? entry.line =
        some { entry with details := Entry.told entry.details }) :
      Entry.ofLine? entry.line = some entry := by
    rw [shown] at back
    exact back
  obtain _ | ⟨backA, _ | ⟨backB, _ | ⟨backC, _ | ⟨backD, _⟩⟩⟩⟩ := back
  have readA := whole (by rw [first]; rfl) (backA trivial)
  have readB := whole (by rw [second.1]; rfl) (backB { exact with })
  have readC := whole (by rw [third.1]; rfl) (backC { exact with })
  have readD := whole (by rw [fourth]; rfl) (backD trivial)
  simp only [List.forall_mem_cons]
  exact ⟨readA, readB, readC, readD, fun _ member => absurd member List.not_mem_nil⟩

end BoundaryHeap.EventLog.Emitter
