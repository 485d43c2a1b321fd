import RecordQuery.Functions.Arguments

/-!
# Functions on numbers

Numbers are computed as doubles; a result that is not finite becomes null.
-/
namespace RecordQuery.Functions

/-- A function from number to number; null stays null. -/
def onNumber (name : String) (f : Float → Outcome Float) (args : List Json) : Outcome Json := do
  match ← one name args with
  | .null => return .null
  | arg =>
    let n ← numberArg name 1 arg
    return .ofFloat (← f n.toFloat)

/-- The square root of a number that is not negative. -/
def squareRoot (x : Float) : Outcome Float := if x < 0.0 then .error .negativeRoot else .ok x.sqrt

/-- Rounds to a number of decimal places, which may be negative; a half goes away from zero. -/
def roundTo (x : Float) (places : Int) : Float :=
  let multiplier := Decimal.powInt 10.0 places
  Decimal.round (x * multiplier) / multiplier

/-- A number rounded to the given decimal places, or to none. -/
def round (name : String) : List Json → Outcome Json
  | [.null] => .ok .null
  | [.null, _] => .ok .null
  | [arg] => do
    let n ← numberArg name 1 arg
    return .ofFloat (roundTo n.toFloat 0)
  | [arg, places] => do
    let n ← numberArg name 1 arg
    let places ← numberArg name 2 places
    return .ofFloat (roundTo n.toFloat places.truncated)
  | args => .error (.arityRange name 1 2 args.length)

/-- A power; null if either argument is. -/
def power (name : String) (args : List Json) : Outcome Json := do
  match ← two name args with
  | (.null, _) => return .null
  | (_, .null) => return .null
  | (base, exponent) =>
    let base ← numberArg name 1 base
    let exponent ← numberArg name 2 exponent
    return .ofFloat (base.toFloat.pow exponent.toFloat)

/-- The numbers among the arguments from the given position on; nulls are left out. -/
def numbersFrom (name : String) : Nat → List Json → Outcome (List Float)
  | _, [] => .ok []
  | position, .null :: rest => numbersFrom name (position + 1) rest
  | position, arg :: rest => do
    let n ← numberArg name position arg
    return n.toFloat :: (← numbersFrom name (position + 1) rest)

/-- The number that is before all others in the given strict order; null if there is none. -/
def extreme (name : String) (before : Float → Float → Bool) (args : List Json) : Outcome Json :=
  if args.isEmpty then .error (.noArgument name)
  else do
    match ← numbersFrom name 1 args with
    | [] => return .null
    | x :: rest => return .ofFloat (rest.foldl (fun best y => if before y best then y else best) x)

end RecordQuery.Functions
