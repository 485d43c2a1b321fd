import RecordQuery.Functions.Arguments
import RecordQuery.Calendar.Reader
import RecordQuery.Text.Case

/-!
# Functions on dates

A date is a text that stands for an instant, or an integer number of milliseconds since 1970.
-/
namespace RecordQuery.Functions

open Calendar (Instant)

/-- The current instant. -/
def currentTime (now : Instant) : List Json → Outcome Json
  | [] => .ok (.str now.rowText)
  | args => .error (.arity "NOW" 0 args.length)

/-- The instant that a number of milliseconds stands for. -/
def instantOfNumber? : Number → Option Instant
  | .int ms => if Number.fitsWord ms then Instant.ofEpochMillis? ms else none
  | .float _ => none

/-- The instant that a value stands for. -/
def instantArg (name : String) : Json → Outcome Instant
  | .str s =>
    match Calendar.read? s with
    | some t => .ok t
    | none => .error (.invalidDate name s)
  | .num n =>
    match instantOfNumber? n with
    | some t => .ok t
    | none => .error (.invalidTimestamp name n)
  | other => .error (.argument name 2 "a date" other.kind)

/-- The parts of an instant that have names. -/
def partOf? (part : String) : Option (Instant → Int) :=
  match part with
  | "year" => some (·.date.year)
  | "month" => some (·.date.month)
  | "day" => some (·.date.day)
  | "hour" => some (·.hour)
  | "minute" => some (·.minute)
  | "second" => some (·.secondOfMinute)
  | "dow" => some (Calendar.weekday ·.day)
  | "doy" => some (Calendar.dayOfYear ·.day)
  | "epoch" => some (·.epochMillis)
  | _ => none

/-- A named part of a date; null if the date is. -/
def datePart (args : List Json) : Outcome Json := do
  match ← two "DATE_PART" args with
  | (_, .null) => return .null
  | (part, date) =>
    let part := Text.lower (← stringArg "DATE_PART" 1 part)
    let t ← instantArg "DATE_PART" date
    match partOf? part with
    | some f => return .ofInt (f t)
    | none => .error (.unknownPart part)

end RecordQuery.Functions
