import RecordQuery.Text.Case

/-!
# Schemas

A schema lists the types of records, one for each table, and the fields of each type. All names are
kept in lower case and looked up in any case.
-/
namespace RecordQuery

/-- The columns that the store maintains itself. -/
def systemColumns : List String := ["id", "created", "updated"]

/-- Whether a column is maintained by the store; names are told apart by case here. -/
def isSystemColumn (name : String) : Bool := systemColumns.contains name

/-- The declared type of a column. -/
inductive FieldType where
  | string
  | number
  | boolean
  /-- A text that stands for an instant, or milliseconds since 1970. -/
  | date
  /-- One of a list of texts. -/
  | enum
  /-- The identifier of a record of another type. -/
  | reference
  /-- Any value. -/
  | json
  deriving DecidableEq, Repr

namespace FieldType

/-- All declared types. -/
def all : List FieldType := [string, number, boolean, date, enum, reference, json]

/-- The name of a declared type. -/
def name : FieldType → String
  | string => "string"
  | number => "number"
  | boolean => "boolean"
  | date => "date"
  | enum => "enum"
  | reference => "reference"
  | json => "json"

/-- The declared type of a name. -/
def ofName? (s : String) : Option FieldType := all.find? (·.name == s)

end FieldType

/-- One column of a type. -/
structure Field where
  name : String
  type : FieldType
  enumValues : Option (List String) := none
  referencedType : Option String := none
  nullable : Bool := true
  deriving DecidableEq

namespace Field

/-- A field that may be null. -/
def ofType (name : String) (type : FieldType) : Field := { name := Text.lower name, type }

/-- A field that holds one of the given texts. -/
def enumeration (name : String) (values : List String) : Field :=
  { ofType name .enum with enumValues := some values }

/-- A field that names a record of another type. -/
def reference (name target : String) : Field :=
  { ofType name .reference with referencedType := some (Text.lower target) }

/-- The field that may not be null. -/
def require (field : Field) : Field := { field with nullable := false }

/-- The field with its names in lower case. -/
def normalize (field : Field) : Field :=
  { field with
    name := Text.lower field.name
    referencedType := field.referencedType.map Text.lower }

end Field

/-- One type of records, which is also the table that holds them. -/
structure TypeDef where
  name : String
  friendlyName : String := ""
  fields : List Field := []
  deriving DecidableEq

namespace TypeDef

/-- The type with its names in lower case; an empty friendly name becomes the name. -/
def normalize (d : TypeDef) : TypeDef :=
  { name := Text.lower d.name
    friendlyName := if d.friendlyName.isEmpty then Text.lower d.name else d.friendlyName
    fields := d.fields.map Field.normalize }

/-- The type of the given name, which is also its friendly name, and fields. -/
def ofFields (name : String) (fields : List Field) : TypeDef :=
  normalize { name, friendlyName := name, fields }

/-- The first field of a name, in any case. -/
def field? (d : TypeDef) (name : String) : Option Field :=
  let name := Text.lower name
  d.fields.find? (·.name == name)

/-- The names of the fields in their declared order. -/
def fieldNames (d : TypeDef) : List String := d.fields.map (·.name)

/-- The names of the fields as one text. -/
def availableColumns (d : TypeDef) : String := ", ".intercalate d.fieldNames

end TypeDef

/-- The types that records may have, by name. -/
structure Schema where
  types : List TypeDef := []

namespace Schema

/-- Puts a type at its place in a list sorted by name, in place of one of the same name. -/
def insertSorted (d : TypeDef) : List TypeDef → List TypeDef
  | [] => [d]
  | e :: rest =>
    match compare d.name e.name with
    | .lt => d :: e :: rest
    | .eq => d :: rest
    | .gt => e :: insertSorted d rest

/-- Adds a type, in place of one of the same name. -/
def insert (schema : Schema) (d : TypeDef) : Schema := ⟨insertSorted d.normalize schema.types⟩

/-- The schema of a list of types; a later type replaces one of the same name. -/
def ofTypes (types : List TypeDef) : Schema := types.foldl insert {}

/-- Adds the types of another schema, which replace those of the same name. -/
def extend (schema other : Schema) : Schema := other.types.foldl insert schema

/-- The type of a name, in any case. -/
def get? (schema : Schema) (name : String) : Option TypeDef :=
  let name := Text.lower name
  schema.types.find? (·.name == name)

/-- Whether there is a type of a name. -/
def contains (schema : Schema) (name : String) : Bool := (schema.get? name).isSome

/-- The names of the types in their order. -/
def names (schema : Schema) : List String := schema.types.map (·.name)

/-- The names of the types as one text. -/
def availableTables (schema : Schema) : String := ", ".intercalate schema.names

/-- The number of types. -/
def size (schema : Schema) : Nat := schema.types.length

/-- Whether there is no type. -/
def isEmpty (schema : Schema) : Bool := schema.types.isEmpty

end Schema
end RecordQuery
