import RecordQuery.Functions.Texts
import RecordQuery.Functions.Numbers
import RecordQuery.Functions.Dates

/-!
# Calling functions

The functions of one record, by their names in any case.
-/
namespace RecordQuery.Functions

open Calendar (Instant)

/-- The first value that is not null. -/
def coalesce (name : String) (args : List Json) : Outcome Json :=
  if args.isEmpty then .error (.noArgument name) else .ok ((args.find? (!·.isNull)).getD .null)

/-- The name of the type of a value. -/
def typeOf (name : String) (args : List Json) : Outcome Json := do
  return .str (← one name args).kind.name

/-- Whether a value is null. -/
def isNull (args : List Json) : Outcome Json := do
  return .bool (← one "IS_NULL" args).isNull

/-- The function of a name in upper case. -/
def named? (now : Instant) (name : String) : Option (List Json → Outcome Json) :=
  match name with
  | "CONCAT" => some concat
  | "SUBSTRING" | "SUBSTR" => some (substring name)
  | "UPPER" => some (onText name Text.upper)
  | "LOWER" => some (onText name Text.lower)
  | "TRIM" => some (onText name fun s => String.ofList (Text.trim s.toList))
  | "LENGTH" => some length
  | "REPLACE" => some replace
  | "STARTS_WITH" => some (testText name List.isPrefixOf)
  | "ENDS_WITH" => some (testText name List.isSuffixOf)
  | "CONTAINS" => some (testText name Text.hasInfix)
  | "ABS" => some (onNumber name fun x => .ok x.abs)
  | "FLOOR" => some (onNumber name fun x => .ok (Decimal.floor x))
  | "CEIL" | "CEILING" => some (onNumber name fun x => .ok (Decimal.ceil x))
  | "SQRT" => some (onNumber name squareRoot)
  | "ROUND" => some (round name)
  | "POW" | "POWER" => some (power name)
  | "MIN" | "LEAST" => some (extreme name (· < ·))
  | "MAX" | "GREATEST" => some (extreme name (· > ·))
  | "COALESCE" | "IFNULL" => some (coalesce name)
  | "TYPEOF" | "TYPENAME" => some (typeOf name)
  | "IS_NULL" => some isNull
  | "NOW" => some (currentTime now)
  | "DATE_PART" => some datePart
  | _ => none

/-- Calls the function of a name. -/
def call (now : Instant) (name : String) (args : List Json) : Outcome Json :=
  match named? now (Text.upper name) with
  | some f => f args
  | none => .error (.unknownFunction name)

end RecordQuery.Functions
