import RecordQuery.Value

/-!
# Arguments of functions

What a call of a function can be refused for, and how functions check the number and the types of
their arguments. A function is named in messages as it was called, in upper case.
-/
namespace RecordQuery.Functions

/-- Why a call is refused. -/
inductive CallError where
  /-- The number of arguments is not the one expected. -/
  | arity (name : String) (expected actual : Nat)
  /-- The number of arguments is not in the expected range. -/
  | arityRange (name : String) (least most actual : Nat)
  /-- There is no argument at all. -/
  | noArgument (name : String)
  /-- An argument, counted from 1, has the wrong type. -/
  | argument (name : String) (position : Nat) (expected : String) (actual : Kind)
  | negativeLength
  | negativeRoot
  | unknownPart (part : String)
  | invalidDate (name text : String)
  | invalidTimestamp (name : String) (number : Number)
  | unknownFunction (name : String)
  | unknownAggregate (name : String)
  /-- An aggregate that adds meets a value that is no number. -/
  | notNumeric (name : String) (actual : Kind)
  /-- An aggregate that compares meets values of two types. -/
  | mixedKinds (name : String) (left right : Kind)
  deriving DecidableEq

/-- The description of why a call is refused. -/
def CallError.message : CallError → String
  | arity name expected actual =>
    name ++ " expects " ++ toString expected ++ " argument" ++ (if expected = 1 then "" else "s") ++
      ", got " ++ toString actual
  | arityRange name least most actual =>
    name ++ " expects " ++ toString least ++ " to " ++ toString most ++ " arguments, got " ++
      toString actual
  | noArgument name => name ++ " expects at least 1 argument"
  | argument name position expected actual =>
    name ++ ": argument " ++ toString position ++ " must be " ++ expected ++ ", got " ++ actual.name
  | negativeLength => "SUBSTRING: length must be non-negative"
  | negativeRoot => "SQRT: argument must be non-negative"
  | unknownPart part =>
    "DATE_PART: unknown part '" ++ part ++
      "' (expected year, month, day, hour, minute, second, dow, doy or epoch)"
  | invalidDate name text => name ++ ": invalid date '" ++ text ++ "'"
  | invalidTimestamp name number => name ++ ": invalid timestamp " ++ number.text
  | unknownFunction name => "Unknown function: " ++ name
  | unknownAggregate name => "Unknown aggregate function: " ++ name
  | notNumeric name actual => name ++ " expects numeric values, got " ++ actual.name
  | mixedKinds name left right => name ++ " cannot compare " ++ left.name ++ " with " ++ right.name

/-- The outcome of a call. -/
abbrev Outcome (α : Type) := Except CallError α

/-- The only argument. -/
def one (name : String) : List Json → Outcome Json
  | [a] => .ok a
  | args => .error (.arity name 1 args.length)

/-- The two arguments. -/
def two (name : String) : List Json → Outcome (Json × Json)
  | [a, b] => .ok (a, b)
  | args => .error (.arity name 2 args.length)

/-- An argument that has to be a text. -/
def stringArg (name : String) (position : Nat) : Json → Outcome String
  | .str s => .ok s
  | other => .error (.argument name position "a string" other.kind)

/-- An argument that has to be a number. -/
def numberArg (name : String) (position : Nat) : Json → Outcome Number
  | .num n => .ok n
  | other => .error (.argument name position "a number" other.kind)

end RecordQuery.Functions
