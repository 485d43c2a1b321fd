import RecordQuery.Functions.Arguments
import RecordQuery.Text.Case

/-!
# Aggregates

Functions of all values that an argument takes on the records of a group. Nulls are left out; a
count without argument counts the records.
-/
namespace RecordQuery.Functions

/-- Whether a call with this many arguments aggregates over a group; the least and the greatest of
several arguments are taken in one record. -/
def isAggregate (name : String) (arity : Nat) : Bool :=
  match Text.upper name with
  | "COUNT" => true
  | "SUM" => true
  | "AVG" => true
  | "MIN" => arity == 1
  | "MAX" => arity == 1
  | _ => false

/-- What stands for a record in a count without argument. -/
def recordMark : Json := .str "*"

/-- Whether a value is the mark of a record. -/
def isRecordMark : Json → Bool
  | .str s => s == "*"
  | _ => false

/-- The values that are not null. -/
def present (values : List Json) : List Json := values.filter (!·.isNull)

/-- How many values there are; a mark for each record of the group counts the group. -/
def count (values : List Json) (groupSize : Nat) : Nat :=
  if values.length = groupSize ∧ values.all isRecordMark then groupSize else (present values).length

/-- The doubles of values that have to be numbers. -/
def numbers (name : String) : List Json → Outcome (List Float)
  | [] => .ok []
  | .num n :: rest => return n.toFloat :: (← numbers name rest)
  | other :: _ => .error (.notNumeric name other.kind)

/-- The sum of doubles, from the left. -/
def total (xs : List Float) : Float := xs.foldl (· + ·) 0.0

/-- The sum or, divided by their number, the mean of the values; null if there is none. -/
def totalOf (name : String) (finish : Float → Nat → Float) (values : List Json) : Outcome Json := do
  match ← numbers name (present values) with
  | [] => return .null
  | xs => return .ofFloat (finish (total xs) xs.length)

/-- The first of the values that none of the others comes before; all have to be of one type. -/
def best (name : String) (wins : Ordering) : Json → List Json → Outcome Json
  | current, [] => .ok current
  | current, value :: rest =>
    if current.kind = value.kind then
      best name wins (if value.order current = wins then value else current) rest
    else .error (.mixedKinds name current.kind value.kind)

/-- The best of the values; null if there is none. -/
def bestOf (name : String) (wins : Ordering) (values : List Json) : Outcome Json :=
  match present values with
  | [] => .ok .null
  | value :: rest => best name wins value rest

/-- Folds an aggregate over the values of its argument, one for each record of the group. -/
def aggregate (name : String) (values : List Json) (groupSize : Nat) : Outcome Json :=
  match Text.upper name with
  | "COUNT" => .ok (.ofNat (count values groupSize))
  | "SUM" => totalOf "SUM" (fun sum _ => sum) values
  | "AVG" => totalOf "AVG" (fun sum size => sum / Float.ofNat size) values
  | "MIN" => bestOf "MIN" .lt values
  | "MAX" => bestOf "MAX" .gt values
  | other => .error (.unknownAggregate other)

end RecordQuery.Functions
