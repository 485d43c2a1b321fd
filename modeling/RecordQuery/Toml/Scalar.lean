import RecordQuery.Json.Parser

/-!
# Scalars of configuration texts

Quoted texts, in which a backslash escapes a character unless the quotes are single ones, and bare
words, which stand for booleans, integers and doubles.
-/
namespace RecordQuery.Toml

/-! ## Quoted texts -/

/-- Whether a character may stand in a quoted text as it is. -/
def isPlain (c : Char) : Bool := c == '\t' || (0x20 ≤ c.toNat && c.toNat != 0x7f)

/-- The characters up to a closing single quote, and what follows. -/
def literalText? : List Char → Option (List Char × List Char)
  | [] => none
  | c :: rest =>
    if c == '\'' then some ([], rest)
    else if isPlain c then (literalText? rest).map fun (cs, tail) => (c :: cs, tail)
    else none

/-- What the next character of an escaped text belongs to. -/
inductive Expecting where
  | plain
  /-- A backslash has been read. -/
  | escape
  /-- This many hexadecimal digits are to come; the number is that of the digits before. -/
  | digits (left value : Nat)

/-- The character that a one-letter escape stands for. -/
def escaped? : Char → Option Char
  | 'b' => some '\x08'
  | 't' => some '\t'
  | 'n' => some '\n'
  | 'f' => some '\x0c'
  | 'r' => some '\r'
  | '"' => some '"'
  | '\\' => some '\\'
  | _ => none

/-- The character of a code point. -/
def scalar? (code : Nat) : Option Char :=
  if h : code.isValidChar then some (Char.ofNatAux code h) else none

/-- The characters up to a closing quote, escapes replaced, and what follows. -/
def escapedText? : Expecting → List Char → Option (List Char × List Char)
  | _, [] => none
  | .plain, c :: rest =>
    if c == '"' then some ([], rest)
    else if c == '\\' then escapedText? .escape rest
    else if isPlain c then (escapedText? .plain rest).map fun (cs, tail) => (c :: cs, tail)
    else none
  | .escape, c :: rest =>
    if c == 'u' then escapedText? (.digits 4 0) rest
    else if c == 'U' then escapedText? (.digits 8 0) rest
    else do
      let ch ← escaped? c
      let (cs, tail) ← escapedText? .plain rest
      return (ch :: cs, tail)
  | .digits left value, c :: rest => do
    let value := 16 * value + (← Json.hexDigit? c)
    if left ≤ 1 then
      let ch ← scalar? value
      let (cs, tail) ← escapedText? .plain rest
      return (ch :: cs, tail)
    else escapedText? (.digits (left - 1) value) rest

/-- The quoted text at the front of a text, and what follows. -/
def quotedText? : List Char → Option (String × List Char)
  | '"' :: rest => (escapedText? .plain rest).map fun (cs, tail) => (String.ofList cs, tail)
  | '\'' :: rest => (literalText? rest).map fun (cs, tail) => (String.ofList cs, tail)
  | _ => none

/-! ## Bare words -/

/-- The digits of a number whose underscores each stand between two digits. -/
def plainDigits? (isDigit : Char → Bool) (cs : List Char) : Option (List Char) :=
  let groups := cs.splitOn '_'
  if groups.all fun group => !group.isEmpty && group.all isDigit then some groups.flatten else none

/-- The value of digits in a base, if it is in the range of integers. -/
def digitsIn? (base : Nat) (cs : List Char) : Option Int := do
  let isDigit (c : Char) : Bool := (Json.hexDigit? c).any fun d => d < base
  let digits ← plainDigits? isDigit cs
  let value := digits.foldl (fun n c => base * n + (Json.hexDigit? c).getD 0) 0
  if Number.fitsWord value then some value else none

/-- A word without its sign; the sign is minus. -/
def splitSign : List Char → Bool × List Char
  | '-' :: rest => (true, rest)
  | '+' :: rest => (false, rest)
  | rest => (false, rest)

/-- A decimal integer. -/
def decimalInteger? (word : List Char) : Option Int := do
  let (negative, cs) := splitSign word
  let digits ← plainDigits? Char.isDigit cs
  guard (Json.validWhole digits)
  let value : Int := Decimal.digitsValue digits
  let value := if negative then -value else value
  if Number.fitsWord value then some value else none

/-- The integer that a word stands for. -/
def integer? : List Char → Option Int
  | '0' :: 'x' :: rest => digitsIn? 16 rest
  | '0' :: 'o' :: rest => digitsIn? 8 rest
  | '0' :: 'b' :: rest => digitsIn? 2 rest
  | word => decimalInteger? word

/-- The parts of an unsigned double: its digits before the point, those after it if there is a
point, and what follows the letter of its exponent if there is one. -/
def doubleParts (cs : List Char) : List Char × Option (List Char) × Option (List Char) :=
  let isMark (c : Char) : Bool := c == 'e' || c == 'E'
  let mantissa := cs.takeWhile (!isMark ·)
  let exponent := match cs.dropWhile (!isMark ·) with
    | [] => none
    | _ :: rest => some rest
  match mantissa.dropWhile (· != '.') with
  | [] => (mantissa, none, exponent)
  | _ :: fraction => (mantissa.takeWhile (· != '.'), some fraction, exponent)

/-- A double in digits, with a point or an exponent. -/
def decimalDouble? (cs : List Char) : Option Float := do
  let (whole, fraction, exponent) := doubleParts cs
  guard (fraction.isSome || exponent.isSome)
  let whole ← plainDigits? Char.isDigit whole
  guard (Json.validWhole whole)
  let fraction ← match fraction with
    | some cs => plainDigits? Char.isDigit cs
    | none => some []
  let exponent : Int ← match exponent with
    | some cs => do
      let (negative, cs) := splitSign cs
      let digits ← plainDigits? Char.isDigit cs
      let value : Int := Decimal.digitsValue digits
      some (if negative then -value else value)
    | none => some 0
  let x := Decimal.nearest (Decimal.digitsValue (whole ++ fraction)) (exponent - fraction.length)
  if x.isFinite then some x else none

/-- The double that a word stands for. -/
def double? (word : List Char) : Option Float := do
  let (negative, cs) := splitSign word
  let x ←
    if cs = ['i', 'n', 'f'] then some (1.0 / 0.0)
    else if cs = ['n', 'a', 'n'] then some (0.0 / 0.0)
    else decimalDouble? cs
  return if negative then -x else x

/-- Whether a character belongs to a bare word. -/
def isWordChar (c : Char) : Bool := c.isAlphanum || c == '_' || c == '+' || c == '-' || c == '.'

/-- The value of a bare word. -/
def word? (word : List Char) : Option Json :=
  if word = ['t', 'r', 'u', 'e'] then some (.bool true)
  else if word = ['f', 'a', 'l', 's', 'e'] then some (.bool false)
  else
    match integer? word with
    | some i => some (.ofInt i)
    | none => (double? word).map fun x => .num (.float x)

end RecordQuery.Toml
