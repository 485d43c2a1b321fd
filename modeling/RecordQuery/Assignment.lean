import RecordQuery.Value
import RecordQuery.Store.Script
import RecordQuery.ValidationError
import RecordQuery.Calendar.Reader

/-!
# Assigning values to columns

Whether a value may be written into a column: a required column refuses null, an enumeration takes
one of its texts, other columns check the type of the value, and a reference has to name a record.
-/
namespace RecordQuery

/-- Why a column refuses a value. -/
inductive Refusal where
  | required
  | notAllowed (text : String) (allowed : List String)
  | invalidDate (text : String)
  | wrongKind (kind : Kind)
  /-- The column is a reference without target. -/
  | noTarget
  | missingRecord (target id : String)
  /-- The store did not tell whether the record exists. -/
  | unverified (target id : String) (failure : Failure)

/-- The refusal as a validation error without a place. -/
def Refusal.error (field : Field) : Refusal → ValidationError
  | required =>
    { path := ""
      message := "Field '" ++ field.name ++ "' is required and cannot be null"
      expectedType := some field.type.name
      actualType := some Kind.null.name }
  | notAllowed text allowed =>
    { path := ""
      message := "Invalid value '" ++ text ++ "' for enum field '" ++ field.name ++ "'"
      suggestion := some ("Allowed values: " ++ ", ".intercalate allowed)
      metadata := some (.obj [("allowedValues", .arr (allowed.map .str))]) }
  | invalidDate text =>
    { path := ""
      message := "Invalid date '" ++ text ++ "' for field '" ++ field.name ++ "'"
      expectedType := some field.type.name
      actualType := some Kind.string.name }
  | wrongKind kind =>
    { path := ""
      message := "Type mismatch for field '" ++ field.name ++ "': expected " ++ field.type.name ++
        ", got " ++ kind.name
      expectedType := some field.type.name
      actualType := some kind.name }
  | noTarget =>
    { path := "", message := "Reference field '" ++ field.name ++ "' has no referenced type" }
  | missingRecord target id =>
    { path := ""
      message := "Referenced record '" ++ id ++ "' not found in '" ++ target ++ "'"
      suggestion := some ("Insert the '" ++ target ++ "' record first")
      metadata := some (.obj [("referencedType", .str target), ("id", .str id)]) }
  | unverified target id failure =>
    { path := ""
      message :=
        "Could not verify reference '" ++ id ++ "' in '" ++ target ++ "': " ++ failure.text }

/-- What a column says to a value before the store is asked. -/
inductive Verdict where
  | accepted
  | refused (reason : Refusal)
  /-- The value is accepted if this record exists. -/
  | refersTo (target id : String)

/-- Refuses a value of another type than the given one. -/
def Verdict.ofKind (kinds : List Kind) (value : Json) : Verdict :=
  if kinds.contains value.kind then .accepted else .refused (.wrongKind value.kind)

/-- What a column says to a value. -/
def Field.check (field : Field) (value : Json) : Verdict :=
  if value.isNull then
    if field.nullable then .accepted else .refused .required
  else
    match field.type with
    | .enum =>
      let allowed := field.enumValues.getD []
      if allowed.contains value.toText then .accepted
      else .refused (.notAllowed value.toText allowed)
    | .string => .ofKind [.string] value
    | .number => .ofKind [.number] value
    | .boolean => .ofKind [.boolean] value
    | .json => .accepted
    | .date =>
      match value with
      | .num _ => .accepted
      | .str s => if (Calendar.read? s).isSome then .accepted else .refused (.invalidDate s)
      | other => .refused (.wrongKind other.kind)
    | .reference =>
      if [Kind.string, Kind.number].contains value.kind then
        match field.referencedType with
        | none => .refused .noTarget
        | some target => .refersTo target value.toText
      else .refused (.wrongKind value.kind)

/-- Why a column refuses a value, if it does, with the store as a stage sees it. -/
def Field.refusal? (field : Field) (stage : StageId) (value : Json) : Script (Option Refusal) :=
  match field.check value with
  | .accepted => return none
  | .refused reason => return some reason
  | .refersTo target id => do
    match ← Script.ask (.get (some stage) target id) with
    | .ok (some _) => return none
    | .ok none => return some (.missingRecord target id)
    | .error failure => return some (.unverified target id failure)

end RecordQuery
