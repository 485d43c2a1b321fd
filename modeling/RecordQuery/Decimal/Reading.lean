import RecordQuery.Decimal.Shortest

/-!
# Reading decimal text

Reads the text of a number as the nearest double: a sign, digits with at most one point among or
beside them, and an exponent, or one of the names of infinity and of the not-a-number value.
-/
namespace RecordQuery.Decimal

/-- The digits at the front of a text and what follows them. -/
def spanDigits (cs : List Char) : List Char × List Char :=
  (cs.takeWhile Char.isDigit, cs.dropWhile Char.isDigit)

theorem spanDigits_append (cs : List Char) : (spanDigits cs).1 ++ (spanDigits cs).2 = cs :=
  List.takeWhile_append_dropWhile

/-- The number that decimal digits stand for. -/
def digitsValue (cs : List Char) : Nat :=
  cs.foldl (fun n c => 10 * n + (c.toNat - '0'.toNat)) 0

/-- The double nearest to `mantissa · 10 ^ exponent`. -/
def nearest (mantissa : Nat) (exponent : Int) : Float :=
  Float.ofScientific mantissa (exponent < 0) exponent.natAbs

/-- An exponent at the end of a text: its value, zero if there is none. -/
def readExponent? : List Char → Option Int
  | [] => some 0
  | c :: rest =>
    if c == 'e' || c == 'E' then
      let (negative, rest) := match rest with
        | '-' :: tail => (true, tail)
        | '+' :: tail => (false, tail)
        | tail => (false, tail)
      match spanDigits rest with
      | ([], _) => none
      | (digits, []) => some (if negative then -(digitsValue digits : Int) else digitsValue digits)
      | _ => none
    else none

/-- The digits and the exponent of unsigned decimal text. -/
def decimal? (cs : List Char) : Option Digits :=
  let (whole, rest) := spanDigits cs
  let (fraction, rest) := match rest with
    | '.' :: tail => spanDigits tail
    | tail => ([], tail)
  if whole.isEmpty && fraction.isEmpty then none
  else
    (readExponent? rest).map fun exponent =>
      ⟨digitsValue (whole ++ fraction), exponent - fraction.length⟩

/-- An unsigned number without a name: the double nearest to what its text stands for. -/
def readPositional? (cs : List Char) : Option Float :=
  (decimal? cs).map fun d => nearest d.digits d.exponent

/-- An unsigned number: positional text or a name, in any case. -/
def readUnsigned? (cs : List Char) : Option Float :=
  let name := cs.map Char.toLower
  if name = ['i', 'n', 'f'] ∨ name = ['i', 'n', 'f', 'i', 'n', 'i', 't', 'y'] then some (1.0 / 0.0)
  else if name = ['n', 'a', 'n'] then some (0.0 / 0.0)
  else readPositional? cs

/-- The double that a text stands for. -/
def read? : List Char → Option Float
  | '-' :: rest => (readUnsigned? rest).map (- ·)
  | '+' :: rest => readUnsigned? rest
  | rest => readUnsigned? rest

end RecordQuery.Decimal
