import RecordQuery.Schema.Basic
import RecordQuery.Json.Basic
import RecordQuery.Failure

/-!
# Linting schemas

Structural faults of a schema that loading it does not refuse: a field name that occurs twice, a
field that hides a system column, an enumeration without values, and a reference that leads nowhere.
-/
namespace RecordQuery.Schema

/-- What can be wrong with a field. -/
inductive Defect where
  | duplicate
  | shadowsSystemColumn
  | noEnumValues
  | noTarget
  | unknownTarget (target : String)
  deriving DecidableEq

/-- The description of a defect. -/
def Defect.message : Defect → String
  | duplicate => "Duplicate field name"
  | shadowsSystemColumn => "Field shadows a system column"
  | noEnumValues => "Enum field has no allowed values"
  | noTarget => "Reference field has no referenced_type"
  | unknownTarget target => "References unknown type '" ++ target ++ "'"

/-- A defect of a field of a type. -/
structure Issue where
  typeName : String
  field : String
  defect : Defect
  deriving DecidableEq

namespace Issue

/-- The issue in one line. -/
def text (issue : Issue) : String :=
  issue.typeName ++ "." ++ issue.field ++ ": " ++ issue.defect.message

/-- The issue as a tree. -/
def toJson (issue : Issue) : Json :=
  .obj [("type_name", .str issue.typeName), ("field", .str issue.field),
    ("message", .str issue.defect.message)]

end Issue

/-- The defects of a field whose name comes after the given names of its type. -/
def fieldDefects (schema : Schema) (before : List String) (field : Field) : List Defect :=
  (if before.contains field.name then [.duplicate] else []) ++
  (if isSystemColumn field.name then [.shadowsSystemColumn] else []) ++
  match field.type with
  | .enum => if (field.enumValues.getD []).isEmpty then [.noEnumValues] else []
  | .reference =>
    match field.referencedType with
    | none => [.noTarget]
    | some target => if schema.names.contains target then [] else [.unknownTarget target]
  | _ => []

/-- The issues of the fields that come after the given names of a type. -/
def fieldIssues (schema : Schema) (typeName : String) : List String → List Field → List Issue
  | _, [] => []
  | before, field :: rest =>
    (fieldDefects schema before field).map (⟨typeName, field.name, ·⟩) ++
      fieldIssues schema typeName (before ++ [field.name]) rest

/-- All issues, by type and then by field. -/
def lint (schema : Schema) : List Issue :=
  schema.types.flatMap fun d => fieldIssues schema d.name [] d.fields

/-- Refuses a schema with its first issue. -/
def validate (schema : Schema) : Except Failure Unit :=
  match schema.lint with
  | [] => .ok ()
  | issue :: _ => .error (.schema issue.text)

end RecordQuery.Schema
