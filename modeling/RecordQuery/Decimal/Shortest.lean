import RecordQuery.Decimal.Scaled

/-!
# Shortest decimal text

Prints a finite double with the fewest significant digits that still read back as the same double,
and among those the nearest. How the digits are laid out is a separate choice.
-/
namespace RecordQuery.Decimal

/-! ## Digits -/

/-- The number `digits · 10 ^ exponent`. -/
structure Digits where
  digits : Nat
  exponent : Int

/-- The positive reals that round to a double, as multiples of `1 / denominator`. -/
structure Interval where
  low : Nat
  value : Nat
  high : Nat
  denominator : Nat
  /-- Whether the ends of the interval round to the double too. -/
  closed : Bool

/-- The interval of a positive double: half way to its neighbours on both sides. -/
def Interval.ofParts (p : Parts) : Interval where
  low :=
    (if p.mantissa = Nat.pow 2 52 ∧ 0 < p.shift then 4 * p.mantissa - 1 else 4 * p.mantissa - 2) *
      Nat.pow 2 p.shift
  value := 4 * p.mantissa * Nat.pow 2 p.shift
  high := (4 * p.mantissa + 2) * Nat.pow 2 p.shift
  denominator := 4 * unit
  closed := p.mantissa % 2 == 0

/-- The interval divided by a power of ten. -/
def Interval.shrink (r : Interval) (exponent : Int) : Interval :=
  if 0 ≤ exponent then { r with denominator := r.denominator * Nat.pow 10 exponent.toNat }
  else
    let factor := Nat.pow 10 (-exponent).toNat
    { r with low := r.low * factor, value := r.value * factor, high := r.high * factor }

/-- Whether a whole number lies in the interval. -/
def Interval.holds (r : Interval) (n : Nat) : Bool :=
  let scaled := n * r.denominator
  if r.closed then r.low ≤ scaled && scaled ≤ r.high else r.low < scaled && scaled < r.high

/-- The whole number in the interval that is nearest to its value; a tie goes to the even one. -/
def Interval.nearest? (r : Interval) : Option Nat :=
  let below := r.value / r.denominator
  let rest := 2 * (r.value % r.denominator)
  match r.holds below, r.holds (below + 1) with
  | false, false => none
  | true, false => some below
  | false, true => some (below + 1)
  | true, true =>
    if rest < r.denominator || (rest == r.denominator && below % 2 == 0) then some below
    else some (below + 1)

/-- The exponent of the leading decimal digit of the value. -/
def Interval.magnitude (r : Interval) : Int :=
  let guess : Int := (((r.value.log2 : Int) - r.denominator.log2) * 30103) / 100000
  let reaches (e : Int) : Bool := let t := r.shrink e; t.denominator ≤ t.value
  if reaches (guess + 1) then guess + 1 else if reaches guess then guess else guess - 1

/-- The first grid with `count`, `count + 1`, … significant digits that meets the interval. -/
def Interval.search (r : Interval) (magnitude : Int) : Nat → Nat → Digits
  | 0, count => ⟨(r.shrink (magnitude - count + 1)).value, magnitude - count + 1⟩
  | more + 1, count =>
    let exponent := magnitude - count + 1
    match (r.shrink exponent).nearest? with
    | some digits => ⟨digits, exponent⟩
    | none => r.search magnitude more (count + 1)

/-- The fewest digits that read back as the positive double with the given parts. -/
def shortest (p : Parts) : Digits :=
  let r := Interval.ofParts p
  r.search r.magnitude 17 1

/-! ## Layout -/

/-- Where positional text ends and exponents begin. -/
structure Layout where
  /-- The least exponent of the leading digit that is still written positionally. -/
  leastPositional : Int
  /-- The least exponent of the leading digit above which exponents are written. -/
  leastLarge : Int
  /-- What stands before an exponent that is not negative. -/
  plus : String

/-- Lays out significant digits, the first of which stands for a multiple of `10 ^ leading`. -/
def Layout.write (layout : Layout) (digits : List Char) (leading : Int) : String :=
  if layout.leastPositional ≤ leading && leading < layout.leastLarge then
    if leading < 0 then
      "0." ++ String.ofList (List.replicate (-leading - 1).toNat '0' ++ digits)
    else
      let before := leading.toNat + 1
      let padded := digits ++ List.replicate (before - digits.length) '0'
      let after := padded.drop before
      String.ofList (padded.take before) ++ "." ++
        String.ofList (if after.isEmpty then ['0'] else after)
  else
    let fraction := digits.drop 1
    String.ofList (digits.take 1) ++
      (if fraction.isEmpty then "" else "." ++ String.ofList fraction) ++
      "e" ++ (if leading < 0 then "-" else layout.plus) ++ toString leading.natAbs

/-- The digits without zeros at the end. -/
def stripZeros (digits : List Char) : List Char :=
  (digits.reverse.dropWhile (· == '0')).reverse

/-- The text of a finite double. -/
def Layout.text (layout : Layout) (p : Parts) : String :=
  let sign := if p.negative then "-" else ""
  if p.mantissa = 0 then sign ++ layout.write ['0'] 0
  else
    let found := shortest p
    let digits := Nat.toDigits 10 found.digits
    sign ++ layout.write (stripZeros digits) (found.exponent + digits.length - 1)

end RecordQuery.Decimal
