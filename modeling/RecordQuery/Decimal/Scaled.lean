/-!
# Double-precision numbers as exact integers

Every finite double is a whole multiple of the smallest one, `2 ^ -1074`. Counting in that unit
turns order, rounding to integers and remainders into integer arithmetic without any rounding error.
-/
namespace RecordQuery.Decimal

/-- The number one in units of the smallest positive double. -/
def unit : Nat := Nat.pow 2 1074

/-- A finite double `± mantissa · 2 ^ shift`, in units of the smallest positive double. -/
structure Parts where
  negative : Bool
  mantissa : Nat
  shift : Nat

/-- The parts of a double; infinities and the not-a-number value have none. -/
def Parts.ofFloat? (x : Float) : Option Parts :=
  let bits := x.toBits.toNat
  let field := bits / Nat.pow 2 52 % Nat.pow 2 11
  let fraction := bits % Nat.pow 2 52
  if field = 2047 then none
  else if field = 0 then some ⟨bits / Nat.pow 2 63 == 1, fraction, 0⟩
  else some ⟨bits / Nat.pow 2 63 == 1, Nat.pow 2 52 + fraction, field - 1⟩

/-- The value of the parts in units of the smallest positive double. -/
def Parts.value (p : Parts) : Int :=
  let magnitude : Int := ↑(p.mantissa * Nat.pow 2 p.shift)
  if p.negative then -magnitude else magnitude

/-- A finite double in units of the smallest positive one. -/
def scaled? (x : Float) : Option Int := (Parts.ofFloat? x).map Parts.value

/-- The double of the given value in units of the smallest one; exact when there is such a
double. -/
def ofScaled (s : Int) : Float :=
  let n := s.natAbs
  let shift := n.log2 - 52
  let magnitude := shift * Nat.pow 2 52 + n / Nat.pow 2 shift
  Float.ofBits (if s < 0 then Nat.pow 2 63 + magnitude else magnitude).toUInt64

/-- The integer nearest to `n` that has at most 53 significant bits; a tie goes to the even one. -/
def roundSignificand (n : Nat) : Nat :=
  let shift := n.log2 - 52
  let quotient := n / Nat.pow 2 shift
  let rest := 2 * (n % Nat.pow 2 shift)
  let up := rest > Nat.pow 2 shift || (rest == Nat.pow 2 shift && quotient % 2 == 1)
  (if up then quotient + 1 else quotient) * Nat.pow 2 shift

/-- An integer as a double sees it, in units of the smallest positive double. -/
def scaledInt (i : Int) : Int := i.sign * ↑(roundSignificand i.natAbs * unit)

/-! ## Whole numbers -/

/-- The whole number that a double is, if it is one. -/
def integer? (x : Float) : Option Int :=
  match scaled? x with
  | none => none
  | some s => if s % unit = 0 then some (s / unit) else none

/-- Applies a rounding rule to a double that is not a whole number; others stay as they are. -/
def roundBy (rule : Int → Int) (x : Float) : Float :=
  match scaled? x with
  | none => x
  | some s => if s % unit = 0 then x else ofScaled (rule s * unit)

/-- The largest whole number that is not above. -/
def floor (x : Float) : Float := roundBy (· / unit) x

/-- The smallest whole number that is not below. -/
def ceil (x : Float) : Float := roundBy (fun s => -(-s / unit)) x

/-- The nearest whole number; a half goes away from zero. -/
def round (x : Float) : Float :=
  roundBy (fun s => s.sign * ↑((s.natAbs + unit / 2) / unit)) x

/-- The remainder of the division that truncates, with the sign of the dividend. -/
def remainder (x y : Float) : Float :=
  match scaled? x, scaled? y with
  | some a, some b => ofScaled (a.tmod b)
  | _, _ => 0.0 / 0.0

/-- A power with a whole exponent, by repeated squaring from the lowest bit on. -/
def powNat (base : Float) (exponent : Nat) (acc : Float) : Float :=
  let acc := if exponent % 2 = 1 then acc * base else acc
  if exponent / 2 = 0 then acc else powNat (base * base) (exponent / 2) acc
termination_by exponent

/-- A power with an integer exponent; a negative one takes the reciprocal at the end. -/
def powInt (base : Float) (exponent : Int) : Float :=
  let power := powNat base exponent.natAbs 1.0
  if exponent < 0 then 1.0 / power else power

end RecordQuery.Decimal
