import BoundaryHeap.EventLog.Entry
import BoundaryHeap.Proofs.JsonRoundTrip

/-!
Entries of an event log read back from their lines. A field that is set is a member of the line and
one that is not set is left out, so a reader can tell the two apart; but details that are null are
taken for no details, and only these are lost.
-/

namespace BoundaryHeap.EventLog

open Json (Value Fields member?)

namespace Entry

/-- The numbers of an entry fit in 64 bits, and its details are such as text holds exactly, with
room for the entry itself around them. -/
structure Exact (e : Entry) : Prop where
  ptr : ∀ ptr ∈ e.ptr, ptr < wordLimit
  size : ∀ size ∈ e.size, size < wordLimit
  duration : ∀ duration ∈ e.duration, duration < wordLimit
  details : ∀ details ∈ e.details, details.Exact (Json.Reader.maxDepth - 1)

/-- Details that tell something, which null does not. -/
def told : Option Value → Option Value
  | some .null => none
  | details => details

section Optional

variable {α : Type} {key : String} {write : α → Value} {field : Option α}

theorem forall_mem_optional {P : String × Value → Prop} :
    (∀ member ∈ optional key write field, P member) ↔ ∀ value ∈ field, P (key, write value) := by
  cases field <;> simp [optional]

theorem filter_optional (wanted : String) :
    (optional key write field).filter (fun member => member.1 == wanted) =
      if key = wanted then optional key write field else [] := by
  cases field <;> simp [optional, List.filter_cons]

/-- The member of a field that is set is found under its key. -/
theorem member?_of_filter {members : List (String × Value)}
    (found : members.filter (fun member => member.1 == key) = optional key write field) :
    member? key members = some (field.map write) := by
  rw [member?, found]
  cases field <;> rfl

/-- A field is read back if each of its values is and none is written as null. -/
theorem optionalOf?_map {read : Value → Option α} (back : ∀ value, read (write value) = some value)
    (shown : ∀ value, write value ≠ .null) :
    optionalOf? read (field.map write) = some field := by
  cases field with
  | none => rfl
  | some value =>
    rw [Option.map_some, optionalOf?]
    · rw [back, Option.map_some]
    · exact shown value

end Optional

theorem variantName?_string (name : String) : variantName? (.string name) = some name := rfl

theorem levelOfName?_name (level : Level) : levelOfName? level.name = some level := by
  cases level <;> decide

theorem ofName?_name (outcome : Outcome) : Outcome.ofName? outcome.name = some outcome := by
  cases outcome <;> rfl

variable {e : Entry}

theorem keys_known : ∀ member ∈ e.members, fieldNames.contains member.1 := by
  simp only [members, List.forall_mem_append, List.forall_mem_cons, forall_mem_optional]
  simp [fieldNames]

theorem Exact.members (exact : e.Exact) :
    ∀ member ∈ e.members, member.2.Exact (Json.Reader.maxDepth - 1) := by
  have numbers {field : Option Nat} (fit : ∀ number ∈ field, number < wordLimit) :
      ∀ number ∈ field, Value.Exact (Json.Reader.maxDepth - 1) (.natural number) :=
    fun number member => .natural (fit number member)
  have ptr := numbers exact.ptr
  have size := numbers exact.size
  have duration := numbers exact.duration
  simp only [Entry.members, List.forall_mem_append, List.forall_mem_cons, forall_mem_optional,
    Value.Exact.string, id]
  exact ⟨by simpa using ⟨⟨ptr, size⟩, duration⟩, exact.details⟩

/-- The members of an entry hold the values of its fields. -/
theorem ofMembers?_members : ofMembers? e.members =
    ofValues? (.string e.timestamp) (.string e.traceId) (.string e.level.name) (.string e.event)
      (e.runId.map .string) (e.symbol.map .string) (e.ptr.map .natural) (e.size.map .natural)
      (e.outcome.map fun outcome => .string outcome.name) (e.duration.map .natural)
      (e.details.map id) := by
  have timestamp : member? "timestamp" e.members = some (some (.string e.timestamp)) := by
    simp [member?, members, filter_optional]
  have traceId : member? "trace_id" e.members = some (some (.string e.traceId)) := by
    simp [member?, members, filter_optional]
  have level : member? "level" e.members = some (some (.string e.level.name)) := by
    simp [member?, members, filter_optional]
  have event : member? "event" e.members = some (some (.string e.event)) := by
    simp [member?, members, filter_optional]
  have runId : member? "run_id" e.members = some (e.runId.map .string) :=
    member?_of_filter (by simp [members, filter_optional])
  have symbol : member? "symbol" e.members = some (e.symbol.map .string) :=
    member?_of_filter (by simp [members, filter_optional])
  have ptr : member? "ptr" e.members = some (e.ptr.map .natural) :=
    member?_of_filter (by simp [members, filter_optional])
  have size : member? "size" e.members = some (e.size.map .natural) :=
    member?_of_filter (by simp [members, filter_optional])
  have outcome : member? "outcome" e.members =
      some (e.outcome.map fun outcome => .string outcome.name) :=
    member?_of_filter (by simp [members, filter_optional])
  have duration : member? "duration_ms" e.members = some (e.duration.map .natural) :=
    member?_of_filter (by simp [members, filter_optional])
  have details : member? "details" e.members = some (e.details.map id) :=
    member?_of_filter (by simp [members, filter_optional])
  rw [ofMembers?, timestamp, traceId, level, event, runId, symbol, ptr, size, outcome, duration,
    details]
  rfl

/-- Details are read back but for null, which is taken for none. -/
theorem optionalOf?_details {details : Option Value}
    (exact : ∀ value ∈ details, value.Exact (Json.Reader.maxDepth - 1)) :
    optionalOf? (fun value => some value.normalize) (details.map id) = some (told details) := by
  cases details with
  | none => rfl
  | some value =>
    have same := (exact value rfl).normalize_eq
    cases value <;> simp_all [optionalOf?, told]

/-- An entry is read back from its line, but for details that are null. -/
theorem Exact.ofLine?_line (exact : e.Exact) :
    ofLine? e.line = some { e with details := told e.details } := by
  have texts (field : Option String) : optionalOf? Value.string? (field.map .string) = some field :=
    optionalOf?_map (fun _ => rfl) (fun _ => Value.noConfusion)
  have numbers (field : Option Nat) :
      optionalOf? Value.natural? (field.map .natural) = some field :=
    optionalOf?_map (fun _ => rfl) (fun _ => Value.noConfusion)
  have outcome : optionalOf? (fun value => (variantName? value).bind Outcome.ofName?)
      (e.outcome.map fun outcome => .string outcome.name) = some e.outcome :=
    optionalOf?_map ofName?_name (fun _ => Value.noConfusion)
  have values : ofMembers? e.members = some { e with details := told e.details } := by
    rw [ofMembers?_members]
    simp only [ofValues?, Value.string?, variantName?_string, levelOfName?_name, texts, numbers,
      outcome, optionalOf?_details exact.details, Option.bind_eq_bind, Option.bind_some]
    rfl
  rw [ofLine?, line, toJson, Fields.ofText?_compact keys_known exact.members]
  exact values

/-- An entry survives its line in every field, except that details that are null become none. So
unless they are, the entry that is read back is the same and has the same line. -/
theorem line_reads_back (exact : e.Exact) :
    ofLine? e.line = some { e with details := told e.details } ∧
      (e.details ≠ some .null →
        ofLine? e.line = some e ∧ (ofLine? e.line).map line = some e.line) := by
  have read := exact.ofLine?_line
  refine ⟨read, fun shown => ?_⟩
  have same : told e.details = e.details := by
    cases details : e.details with
    | none => rfl
    | some value =>
      cases value with
      | null => exact absurd details shown
      | _ => rfl
  rw [read, same]
  exact ⟨rfl, rfl⟩

/-- An entry with quotes and line breaks in its texts, the largest of numbers, and null inside its
details. -/
def crowded : Entry :=
  { new "T" "a\n" .warn "\"e\"" with
    ptr := some 18446744073709551615
    details := some (.array [.null, .object [("", .number (.negative 9223372036854775808))]]) }

theorem crowded_exact : crowded.Exact where
  ptr := by simp [crowded]
  size := by simp [crowded, new]
  duration := by simp [crowded, new]
  details := by
    rintro _ ⟨⟩
    have number : Value.Exact 124 (.number (.negative 9223372036854775808)) :=
      .negative (by decide) (by decide)
    have inner : Value.Exact 125 (.object [("", .number (.negative 9223372036854775808))]) :=
      .object (List.pairwise_singleton _ _) (List.forall_mem_singleton.mpr number)
    exact .array (List.forall_mem_cons.mpr ⟨.null, List.forall_mem_singleton.mpr inner⟩)

theorem line_reads_back_crowded : crowded.Exact ∧ ofLine? crowded.line = some crowded :=
  ⟨crowded_exact, ((line_reads_back crowded_exact).2 (by simp [crowded])).1⟩

/-- An entry whose details are null. -/
def blank : Entry := { new "T" "a" .info "e" with details := some .null }

theorem blank_exact : blank.Exact where
  ptr := by simp [blank, new]
  size := by simp [blank, new]
  duration := by simp [blank, new]
  details := by
    rintro _ ⟨⟩
    exact .null

/-- Details that are null are lost, and the line that is then written is another one. -/
theorem null_not_read_back :
    blank.Exact ∧ ofLine? blank.line ≠ some blank ∧
      (ofLine? blank.line).map line ≠ some blank.line := by
  have read : ofLine? blank.line = some { blank with details := none } := blank_exact.ofLine?_line
  rw [read]
  refine ⟨blank_exact, fun same => ?_, by decide +kernel⟩
  exact nomatch (congrArg Entry.details (Option.some.inj same) : none = some Value.null)

end Entry

end BoundaryHeap.EventLog
