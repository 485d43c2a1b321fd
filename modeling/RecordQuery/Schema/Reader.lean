import RecordQuery.Schema.Basic
import RecordQuery.Json.Shape
import RecordQuery.Json.Parser
import RecordQuery.Failure

/-!
# Reading and writing schemas

The tree of a field, of a type and of a whole schema.
-/
namespace RecordQuery

/-- The declared type that a tree names. -/
def FieldType.ofJson? (tree : Json) : Option FieldType :=
  (Json.asName? .alone (FieldType.all.map FieldType.name) tree).bind FieldType.ofName?

/-- The field that a tree describes, its names as they are written. -/
def Field.ofJson? (tree : Json) : Option Field := do
  match ← Json.fields? ["name", "type", "enum_values", "referenced_type", "nullable"] tree with
  | [name, type, enumValues, referencedType, nullable] =>
    return {
      name := ← Json.required Json.asText? name
      type := ← Json.required FieldType.ofJson? type
      enumValues := ← Json.optional (Json.asList? Json.asText?) enumValues
      referencedType := ← Json.optional Json.asText? referencedType
      nullable := ← Json.defaulted true Json.asBool? nullable }
  | _ => none

/-- The field as a tree; absent parts are left out. -/
def Field.toJson (field : Field) : Json :=
  .obj ([("name", .str field.name), ("type", .str field.type.name)] ++
    (match field.enumValues with
      | some values => [("enum_values", .arr (values.map .str))]
      | none => []) ++
    (match field.referencedType with
      | some target => [("referenced_type", .str target)]
      | none => []) ++
    [("nullable", .bool field.nullable)])

/-- The type that a tree describes, its names as they are written. -/
def TypeDef.ofJson? (tree : Json) : Option TypeDef := do
  match ← Json.fields? ["name", "friendly_name", "fields"] tree with
  | [name, friendlyName, fields] =>
    return {
      name := ← Json.required Json.asText? name
      friendlyName := ← Json.defaulted "" Json.asText? friendlyName
      fields := ← Json.defaulted [] (Json.asList? Field.ofJson?) fields }
  | _ => none

/-- The type as a tree. -/
def TypeDef.toJson (d : TypeDef) : Json :=
  .obj [("name", .str d.name), ("friendly_name", .str d.friendlyName),
    ("fields", .arr (d.fields.map Field.toJson))]

namespace Schema

/-- The types that a tree lists under `types`. -/
def typesOfJson? (tree : Json) : Option (List TypeDef) := do
  match ← Json.fields? ["types"] tree with
  | [types] => Json.defaulted [] (Json.asList? TypeDef.ofJson?) types
  | _ => none

/-- The schema that a tree describes. -/
def ofJson? (tree : Json) : Option Schema := (typesOfJson? tree).map ofTypes

/-- The schema that the text of a tree describes. -/
def ofJsonText (source : String) : Except Failure Schema :=
  match (Json.parse? source).bind ofJson? with
  | some schema => .ok schema
  | none => .error .json

end Schema
end RecordQuery
