import RecordQuery.Calendar.Date

/-!
# Instants

Points of universal time with a resolution of nanoseconds. A leap second is the second before it
with a second or more of nanoseconds.
-/
namespace RecordQuery.Calendar

/-- A point of universal time. -/
structure Instant where
  /-- The number of the day. -/
  day : Int
  /-- The seconds since midnight, below 86400. -/
  second : Nat
  /-- The nanoseconds in the second, below two seconds. -/
  nano : Nat
  deriving DecidableEq

namespace Instant

/-- The seconds of a day. -/
def secondsPerDay : Nat := 86400

/-- The nanoseconds of a second. -/
def nanosPerSecond : Nat := 1000000000

/-- The instant of a local date and time. The second 60 is a leap second; `offset` is how many
seconds the local time is ahead of universal time. -/
def ofLocal? (date : Date) (hour minute second nano : Nat) (offset : Int) : Option Instant :=
  if date.valid && inRange date.toDay && hour < 24 && minute < 60 && second ≤ 60 then
    let leap := second == 60
    let secondOfDay : Nat := hour * 3600 + minute * 60 + min second 59
    let total := date.toDay * secondsPerDay + secondOfDay - offset
    let day := total / secondsPerDay
    if inRange day then
      some ⟨day, (total % secondsPerDay).toNat, if leap then nano + nanosPerSecond else nano⟩
    else none
  else none

/-- The milliseconds since the start of day 0, rounded down. -/
def epochMillis (t : Instant) : Int :=
  (t.day * secondsPerDay + t.second) * 1000 + (t.nano / 1000000 : Nat)

/-- The instant of a number of milliseconds since the start of day 0. -/
def ofEpochMillis? (ms : Int) : Option Instant :=
  let seconds := ms / 1000
  let day := seconds / secondsPerDay
  if inRange day then
    some ⟨day, (seconds % secondsPerDay).toNat, (ms % 1000).toNat * 1000000⟩
  else none

/-- The date of an instant. -/
def date (t : Instant) : Date := Date.ofDay t.day

/-- The hour of the day. -/
def hour (t : Instant) : Nat := t.second / 3600

/-- The minute of the hour. -/
def minute (t : Instant) : Nat := t.second / 60 % 60

/-- The second of the minute; a leap second counts as the one before it. -/
def secondOfMinute (t : Instant) : Nat := t.second % 60

/-! ## Text -/

/-- A number with at least `width` digits. -/
def pad (width n : Nat) : String :=
  let digits := Nat.toDigits 10 n
  String.ofList (List.replicate (width - digits.length) '0' ++ digits)

/-- A date as year, month and day; a year that needs more than four digits or is negative has a
sign. -/
def dateText (date : Date) : String :=
  let year :=
    if date.year < 0 then "-" ++ pad 4 date.year.natAbs
    else if 9999 < date.year then "+" ++ pad 4 date.year.natAbs
    else pad 4 date.year.natAbs
  year ++ "-" ++ pad 2 date.month ++ "-" ++ pad 2 date.day

/-- The time of day without a fraction; a leap second is the second 60. -/
def timeText (t : Instant) : String :=
  pad 2 t.hour ++ ":" ++ pad 2 t.minute ++ ":" ++ pad 2 (t.secondOfMinute + t.nano / nanosPerSecond)

/-- The fraction of the second with 0, 3, 6 or 9 digits, as few as are exact. -/
def fractionText (t : Instant) : String :=
  let nano := t.nano % nanosPerSecond
  if nano = 0 then ""
  else if nano % 1000000 = 0 then "." ++ pad 3 (nano / 1000000)
  else if nano % 1000 = 0 then "." ++ pad 6 (nano / 1000)
  else "." ++ pad 9 nano

/-- The instant with the given mark of universal time behind it. -/
def textWith (mark : String) (t : Instant) : String :=
  dateText t.date ++ "T" ++ t.timeText ++ t.fractionText ++ mark

/-- The text of an instant inside rows. -/
def rowText (t : Instant) : String := t.textWith "+00:00"

/-- The text of an instant in stored records. -/
def recordText (t : Instant) : String := t.textWith "Z"

/-- The text of an instant for people: date and time without a fraction. -/
def plainText (t : Instant) : String := dateText t.date ++ " " ++ t.timeText

end Instant
end RecordQuery.Calendar
