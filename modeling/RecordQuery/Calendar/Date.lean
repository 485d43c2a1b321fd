/-!
# Calendar dates

Dates of the Gregorian calendar, continued to all years before and after its introduction, and their
numbering by days. Day 0 is 1970-01-01.
-/
namespace RecordQuery.Calendar

/-- A date; the month counts from 1 and so does the day. -/
structure Date where
  year : Int
  month : Nat
  day : Nat
  deriving DecidableEq

/-- Whether a year has 366 days. -/
def isLeap (year : Int) : Bool := year % 4 == 0 && (year % 100 != 0 || year % 400 == 0)

/-- The lengths of the months of a year. -/
def monthLengths (year : Int) : List Nat :=
  [31, if isLeap year then 29 else 28, 31, 30, 31, 30, 31, 31, 30, 31, 30, 31]

/-- The number of the first day of a year. -/
def firstDay (year : Int) : Int :=
  let past := year - 1
  365 * past + past / 4 - past / 100 + past / 400 - 719162

/-- The year that a day falls in: the estimate from the mean length of a year is off by one at
most. -/
def yearOf (day : Int) : Int :=
  let guess := (day + 719162) * 400 / 146097 + 1
  if day < firstDay guess then guess - 1
  else if firstDay (guess + 1) ≤ day then guess + 1
  else guess

/-- Finds the month, counted from `month` on, in which the given day of the remaining year falls. -/
def splitMonth : List Nat → Nat → Nat → Nat × Nat
  | [], month, past => (month, past + 1)
  | length :: rest, month, past =>
    if past < length then (month, past + 1) else splitMonth rest (month + 1) (past - length)

/-- The date of a day. -/
def Date.ofDay (day : Int) : Date :=
  let year := yearOf day
  let (month, dayOfMonth) := splitMonth (monthLengths year) 1 (day - firstDay year).toNat
  ⟨year, month, dayOfMonth⟩

/-- The number of days of a year before a month. -/
def daysBefore (year : Int) (month : Nat) : Nat :=
  ((monthLengths year).take (month - 1)).foldl (· + ·) 0

/-- The number of a date. -/
def Date.toDay (date : Date) : Int :=
  firstDay date.year + daysBefore date.year date.month + date.day - 1

/-- Whether the month and the day exist. -/
def Date.valid (date : Date) : Bool :=
  match date.month with
  | 0 => false
  | month + 1 =>
    match (monthLengths date.year)[month]? with
    | some length => 1 ≤ date.day && date.day ≤ length
    | none => false

/-- The years that dates range over. -/
def leastYear : Int := -262143

/-- The last year that dates range over. -/
def greatestYear : Int := 262142

/-- Whether a day lies in the range of dates. -/
def inRange (day : Int) : Bool := firstDay leastYear ≤ day && day < firstDay (greatestYear + 1)

/-- The day of the week, from 0 for Sunday to 6. -/
def weekday (day : Int) : Int := (day + 4) % 7

/-- The day of the year, from 1 on. -/
def dayOfYear (day : Int) : Int := day - firstDay (yearOf day) + 1

end RecordQuery.Calendar
