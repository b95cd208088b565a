import BoundaryHeap.Text.Padded

/-!
Points in time as texts, in Universal Time, with milliseconds. The date follows from the day number
by a count of whole eras of 400 years, in which the year begins in March so that a leap day is the
last of its year.
-/

namespace BoundaryHeap.EventLog.Timestamp

/-- A calendar date. -/
structure Date where
  year : Nat
  month : Nat
  day : Nat
  deriving Repr, DecidableEq

/-- The date of a day, counted from the first of January 1970 on. -/
def dateOfDay (days : Nat) : Date :=
  let shifted := days + 719468
  let era := shifted / 146097
  let dayOfEra := shifted % 146097
  let yearOfEra := (dayOfEra - dayOfEra / 1460 + dayOfEra / 36524 - dayOfEra / 146096) / 365
  let dayOfYear := dayOfEra - (365 * yearOfEra + yearOfEra / 4 - yearOfEra / 100)
  let marchMonth := (5 * dayOfYear + 2) / 153
  let day := dayOfYear - (153 * marchMonth + 2) / 5 + 1
  let month := if marchMonth < 10 then marchMonth + 3 else marchMonth - 9
  ⟨yearOfEra + era * 400 + (if month ≤ 2 then 1 else 0), month, day⟩

/-- A number with at least `width` decimal digits. -/
def field (width number : Nat) : String := String.ofList (Text.padded 10 width number)

/-- A point in time, counted in milliseconds from the beginning of 1970 on. -/
def text (milliseconds : Nat) : String :=
  let seconds := milliseconds / 1000
  let date := dateOfDay (seconds / 86400)
  let day := s!"{field 4 date.year}-{field 2 date.month}-{field 2 date.day}"
  let hour := field 2 (seconds % 86400 / 3600)
  let minute := field 2 (seconds % 3600 / 60)
  let second := field 2 (seconds % 60)
  let fraction := field 3 (milliseconds % 1000)
  s!"{day}T{hour}:{minute}:{second}.{fraction}Z"

end BoundaryHeap.EventLog.Timestamp
