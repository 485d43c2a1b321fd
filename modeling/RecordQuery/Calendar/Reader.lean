import RecordQuery.Calendar.Instant
import RecordQuery.Decimal.Reading
import RecordQuery.Text.Blank

/-!
# Reading instants

Three forms of text stand for an instant in a date column: a full time stamp with its offset from
universal time, a date and time without offset, and a date alone. The time stamps of stored records
are read more loosely.
-/
namespace RecordQuery.Calendar

/-! ## Pieces -/

/-- A number of at least `least` and at most `most` digits. -/
def readDigits? (least most : Nat) (cs : List Char) : Option (Nat × List Char) :=
  let digits := (cs.take most).takeWhile Char.isDigit
  if digits.length < least then none
  else some (Decimal.digitsValue digits, cs.drop digits.length)

/-- One given character. -/
def readChar? (c : Char) : List Char → Option (List Char)
  | [] => none
  | d :: rest => if c == d then some rest else none

/-- The character between date and time. -/
def readSeparator? : List Char → Option (List Char)
  | [] => none
  | c :: rest => if c == 'T' || c == 't' || c == ' ' then some rest else none

/-- The fraction of a second, in nanoseconds; digits past the ninth are dropped. -/
def readFraction? : List Char → Option (Nat × List Char)
  | '.' :: rest =>
    match Decimal.spanDigits rest with
    | ([], _) => none
    | (digits, tail) =>
      let kept := digits.take 9
      some (Decimal.digitsValue kept * Nat.pow 10 (9 - kept.length), tail)
  | rest => some (0, rest)

/-- An offset from universal time in seconds, with `colon` between hours and minutes. -/
def readOffset? (colon : List Char → Option (List Char)) : List Char → Option (Int × List Char)
  | [] => none
  | c :: rest =>
    if c == 'Z' || c == 'z' then some (0, rest)
    else if c == '+' || c == '-' || c == '\u2212' then do
      let (hours, rest) ← readDigits? 2 2 rest
      let rest ← colon rest
      let (minutes, rest) ← readDigits? 2 2 rest
      guard (hours < 24 && minutes < 60)
      let seconds : Int := hours * 3600 + minutes * 60
      return (if c == '+' then seconds else -seconds, rest)
    else none

/-! ## Full time stamps -/

/-- A time stamp with four digits of the year, two of each other part, and an offset. -/
def readStamp? (cs : List Char) : Option Instant := do
  let (year, cs) ← readDigits? 4 4 cs
  let (month, cs) ← readDigits? 2 2 (← readChar? '-' cs)
  let (day, cs) ← readDigits? 2 2 (← readChar? '-' cs)
  let (hour, cs) ← readDigits? 2 2 (← readSeparator? cs)
  let (minute, cs) ← readDigits? 2 2 (← readChar? ':' cs)
  let (second, cs) ← readDigits? 2 2 (← readChar? ':' cs)
  let (nano, cs) ← readFraction? cs
  let (offset, cs) ← readOffset? (readChar? ':') cs
  guard cs.isEmpty
  Instant.ofLocal? ⟨year, month, day⟩ hour minute second nano offset

/-! ## Loose forms

Blanks may stand before each number, and months, days and times may have one digit. A year has four
digits at most unless it has a sign.
-/

/-- A number of one or two digits. -/
def readPart? (cs : List Char) : Option (Nat × List Char) := readDigits? 1 2 (Text.trimLeft cs)

/-- A year. -/
def readYear? (cs : List Char) : Option (Int × List Char) :=
  match Text.trimLeft cs with
  | '-' :: rest => (readDigits? 1 rest.length rest).map fun (n, tail) => (-(n : Int), tail)
  | '+' :: rest => (readDigits? 1 rest.length rest).map fun (n, tail) => (n, tail)
  | rest => (readDigits? 1 4 rest).map fun (n, tail) => (n, tail)

/-- A date; `gap` passes over what may stand before a hyphen. -/
def readDate? (gap : List Char → List Char) (cs : List Char) : Option (Date × List Char) := do
  let (year, cs) ← readYear? cs
  let (month, cs) ← readPart? (← readChar? '-' (gap cs))
  let (day, cs) ← readPart? (← readChar? '-' (gap cs))
  return (⟨year, month, day⟩, cs)

/-- A time of day; `gap` passes over what may stand before a colon. -/
def readTime? (gap : List Char → List Char) (cs : List Char) :
    Option (Nat × Nat × Nat × List Char) := do
  let (hour, cs) ← readPart? cs
  let (minute, cs) ← readPart? (← readChar? ':' (gap cs))
  let (second, cs) ← readPart? (← readChar? ':' (gap cs))
  return (hour, minute, second, cs)

/-- A date and a time of day in universal time. -/
def readDateTime? (cs : List Char) : Option Instant := do
  let (date, cs) ← readDate? id cs
  let (hour, minute, second, cs) ← readTime? id (Text.trimLeft cs)
  guard cs.isEmpty
  Instant.ofLocal? date hour minute second 0 0

/-- A date, at midnight of universal time. -/
def readDay? (cs : List Char) : Option Instant := do
  let (date, cs) ← readDate? id cs
  guard cs.isEmpty
  Instant.ofLocal? date 0 0 0 0 0

/-- The instant that a text in a date column stands for. -/
def read? (s : String) : Option Instant :=
  let cs := s.toList
  readStamp? cs <|> readDateTime? cs <|> readDay? cs

/-- The offset at the end of a time stamp of a record: also the name of universal time, or hours and
minutes with any blanks and colons between them. -/
def readLooseOffset? (cs : List Char) : Option (Int × List Char) :=
  if (cs.take 3).map Char.toUpper = ['U', 'T', 'C'] then some (0, cs.drop 3)
  else readOffset? (fun cs => some (cs.dropWhile fun c => c == ':' || Text.isBlank c)) cs

/-- The instant that a time stamp of a stored record stands for. -/
def readRecordStamp? (s : String) : Option Instant := do
  let (date, cs) ← readDate? Text.trimLeft s.toList
  let (hour, minute, second, cs) ← readTime? Text.trimLeft (← readSeparator? cs)
  let (nano, cs) ← readFraction? cs
  let (offset, cs) ← readLooseOffset? (Text.trimLeft cs)
  guard (Text.trimLeft cs).isEmpty
  Instant.ofLocal? date hour minute second nano offset

end RecordQuery.Calendar
