import RecordQuery.Json.Basic
import RecordQuery.Decimal.Reading

/-!
# Parsing data trees

Reads the text of one tree. The members of an object are kept as they are written, repeated keys
included, so that a reader can refuse a repetition; `Json.normal` merges them.
-/
namespace RecordQuery.Json

/-- How deep lists and objects may be nested. -/
def depthLimit : Nat := 127

/-- Drops the blanks between tokens. -/
def skipBlanks (cs : List Char) : List Char :=
  cs.dropWhile fun c => c == ' ' || c == '\n' || c == '\t' || c == '\r'

/-! ## Texts -/

/-- The value of a hexadecimal digit. -/
def hexDigit? (c : Char) : Option Nat :=
  if '0' ≤ c && c ≤ '9' then some (c.toNat - '0'.toNat)
  else if 'a' ≤ c && c ≤ 'f' then some (c.toNat - 'a'.toNat + 10)
  else if 'A' ≤ c && c ≤ 'F' then some (c.toNat - 'A'.toNat + 10)
  else none

/-- The value of four hexadecimal digits. -/
def hexUnit? (a b c d : Char) : Option Nat := do
  return (((← hexDigit? a) * 16 + (← hexDigit? b)) * 16 + (← hexDigit? c)) * 16 + (← hexDigit? d)

/-- The character of one escaped unit; half of a pair stands for no character. -/
def unitChar? (unit : Nat) : Option Char :=
  if 0xD800 ≤ unit && unit ≤ 0xDFFF then none else some (Char.ofNat unit)

/-- The character of a pair of escaped units. -/
def pairChar? (high low : Nat) : Option Char :=
  if 0xD800 ≤ high && high ≤ 0xDBFF && 0xDC00 ≤ low && low ≤ 0xDFFF then
    some (Char.ofNat (0x10000 + (high - 0xD800) * 0x400 + (low - 0xDC00)))
  else none

/-- The character that a one-letter escape stands for. -/
def escaped? : Char → Option Char
  | '"' => some '"'
  | '\\' => some '\\'
  | '/' => some '/'
  | 'b' => some '\x08'
  | 'f' => some '\x0c'
  | 'n' => some '\n'
  | 'r' => some '\r'
  | 't' => some '\t'
  | _ => none

/-- The characters of a text up to its closing quote, and what follows. -/
def readQuoted? : List Char → Option (List Char × List Char)
  | [] => none
  | '"' :: rest => some ([], rest)
  | '\\' :: 'u' :: a :: b :: c :: d :: '\\' :: 'u' :: e :: f :: g :: h :: rest => do
    let unit ← hexUnit? a b c d
    match unitChar? unit with
    | some ch => do
      let (more, tail) ← readQuoted? ('\\' :: 'u' :: e :: f :: g :: h :: rest)
      return (ch :: more, tail)
    | none => do
      let ch ← pairChar? unit (← hexUnit? e f g h)
      let (more, tail) ← readQuoted? rest
      return (ch :: more, tail)
  | '\\' :: 'u' :: a :: b :: c :: d :: rest => do
    let ch ← unitChar? (← hexUnit? a b c d)
    let (more, tail) ← readQuoted? rest
    return (ch :: more, tail)
  | '\\' :: c :: rest => do
    let ch ← escaped? c
    let (more, tail) ← readQuoted? rest
    return (ch :: more, tail)
  | c :: rest =>
    if c == '\\' || c.toNat < 0x20 then none
    else do
      let (more, tail) ← readQuoted? rest
      return (c :: more, tail)

/-! ## Numbers

A number with a point or an exponent is read as a significand of at most 64 bits, scaled by one
multiplication or division by a power of ten. On each side of the point the digits are dropped from
the first one on that does not fit; those before the point still count for the exponent.
-/

/-- The largest significand. -/
def significandLimit : Nat := Nat.pow 2 64

/-- A significand as far as it fits, and the digits that are left. -/
def readSignificand (acc : Nat) : List Char → Nat × List Char
  | [] => (acc, [])
  | c :: rest =>
    let next := 10 * acc + (c.toNat - '0'.toNat)
    if next < significandLimit then readSignificand next rest else (acc, c :: rest)

/-- A power of ten as a double. -/
def powerOfTen (n : Nat) : Float := Float.ofScientific 1 false n

/-- Divides by a power of ten, in steps of at most `10 ^ 308`. -/
def divideByPower (x : Float) (n : Nat) : Float :=
  if n ≤ 308 then x / powerOfTen n
  else if x == 0.0 then x
  else divideByPower (x / powerOfTen 308) (n - 308)
termination_by n

/-- A significand times a power of ten; none if it is out of the range of doubles. -/
def scale? (significand : Nat) (exponent : Int) : Option Float :=
  let x := Float.ofNat significand
  if exponent < 0 then some (divideByPower x exponent.natAbs)
  else if significand = 0 then some x
  else if 308 < exponent then none
  else
    let y := x * powerOfTen exponent.natAbs
    if y.isFinite then some y else none

/-- The number of its digits before and after the point and its exponent. -/
def assemble? (negative : Bool) (whole fraction : List Char) (exponent : Option Int) :
    Option Number :=
  let (head, left) := readSignificand 0 whole
  match left, fraction, exponent with
  | [], [], none =>
    if negative then
      if head = 0 ∨ Nat.pow 2 63 < head then some (.float (-Float.ofNat head))
      else some (.int (-head))
    else some (.int head)
  | _, _, _ =>
    let (significand, dropped) := readSignificand head fraction
    let kept := fraction.length - dropped.length
    (scale? significand (left.length - kept + exponent.getD 0)).map fun x =>
      .float (if negative then -x else x)

/-- Whether digits may stand before the point: at least one, and no zero in front of others. -/
def validWhole : List Char → Bool
  | [] => false
  | ['0'] => true
  | c :: _ => c != '0'

/-- The exponent at the front of a text, if there is one; the outer `none` is a malformed one. -/
def readExponent? : List Char → Option (Option Int × List Char)
  | [] => some (none, [])
  | c :: rest =>
    if c == 'e' || c == 'E' then
      let (negative, rest) := match rest with
        | '-' :: tail => (true, tail)
        | '+' :: tail => (false, tail)
        | tail => (false, tail)
      match Decimal.spanDigits rest with
      | ([], _) => none
      | (digits, tail) =>
        let n : Int := Decimal.digitsValue digits
        some (some (if negative then -n else n), tail)
    else some (none, c :: rest)

/-- The number at the front of a text. -/
def readNumber? (cs : List Char) : Option (Number × List Char) := do
  let (negative, cs) := match cs with
    | '-' :: tail => (true, tail)
    | tail => (false, tail)
  let (whole, rest) := Decimal.spanDigits cs
  guard (validWhole whole)
  let (fraction, rest) ← match rest with
    | '.' :: tail =>
      match Decimal.spanDigits tail with
      | ([], _) => none
      | found => some found
    | tail => some ([], tail)
  let (exponent, rest) ← readExponent? rest
  let number ← assemble? negative whole fraction exponent
  return (number, rest)

/-! ## Trees -/

mutual

/-- The tree at the front of a text. `depth` is how many more levels may be opened; `fuel` bounds
the number of steps, and twice the length of the text is enough. -/
def readTree? (fuel depth : Nat) (cs : List Char) : Option (Json × List Char) :=
  match fuel with
  | 0 => none
  | fuel + 1 =>
    match skipBlanks cs with
    | [] => none
    | 'n' :: 'u' :: 'l' :: 'l' :: rest => some (.null, rest)
    | 't' :: 'r' :: 'u' :: 'e' :: rest => some (.bool true, rest)
    | 'f' :: 'a' :: 'l' :: 's' :: 'e' :: rest => some (.bool false, rest)
    | '"' :: rest => (readQuoted? rest).map fun (s, tail) => (.str (String.ofList s), tail)
    | '[' :: rest =>
      match depth with
      | 0 => none
      | depth + 1 =>
        match skipBlanks rest with
        | ']' :: tail => some (.arr [], tail)
        | inside => (readItems? fuel depth inside).map fun (items, tail) => (.arr items, tail)
    | '\x7b' :: rest =>
      match depth with
      | 0 => none
      | depth + 1 =>
        match skipBlanks rest with
        | '\x7d' :: tail => some (.obj [], tail)
        | inside => (readMembers? fuel depth inside).map fun (members, tail) => (.obj members, tail)
    | other => (readNumber? other).map fun (n, tail) => (.num n, tail)

/-- The items of a list that is not empty, up to its closing bracket. -/
def readItems? (fuel depth : Nat) (cs : List Char) : Option (List Json × List Char) :=
  match fuel with
  | 0 => none
  | fuel + 1 => do
    let (item, rest) ← readTree? fuel depth cs
    match skipBlanks rest with
    | ']' :: tail => some ([item], tail)
    | ',' :: tail =>
      let (items, tail) ← readItems? fuel depth tail
      some (item :: items, tail)
    | _ => none

/-- The members of an object that is not empty, up to its closing brace. -/
def readMembers? (fuel depth : Nat) (cs : List Char) : Option (List (String × Json) × List Char) :=
  match fuel with
  | 0 => none
  | fuel + 1 =>
    match skipBlanks cs with
    | '"' :: rest => do
      let (key, rest) ← readQuoted? rest
      match skipBlanks rest with
      | ':' :: rest =>
        let (value, rest) ← readTree? fuel depth rest
        match skipBlanks rest with
        | '\x7d' :: tail => some ([(String.ofList key, value)], tail)
        | ',' :: tail =>
          let (members, tail) ← readMembers? fuel depth tail
          some ((String.ofList key, value) :: members, tail)
        | _ => none
      | _ => none
    | _ => none

end

/-- The tree that a whole text stands for, repeated members included. -/
def parse? (s : String) : Option Json :=
  let cs := s.toList
  match readTree? (2 * cs.length + 2) depthLimit cs with
  | some (tree, rest) => if (skipBlanks rest).isEmpty then some tree else none
  | none => none

end RecordQuery.Json
