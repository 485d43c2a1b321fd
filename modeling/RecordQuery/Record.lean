import RecordQuery.Schema.Basic
import RecordQuery.Json.Shape
import RecordQuery.Calendar.Reader

/-!
# Records

A record has an identifier, the instants of its creation and of its last change, and the columns
that users define.
-/
namespace RecordQuery

open Calendar (Instant)

/-- One stored record. -/
structure Record where
  id : String
  created : Instant
  updated : Instant
  fields : Dict Json

namespace Record

/-- The members that are no system columns. -/
def stripSystem (fields : Dict Json) : Dict Json := systemColumns.foldl Dict.swapRemove fields

/-- A new record; system columns among the fields are dropped. -/
def create (now : Instant) (id : String) (fields : Dict Json) : Record :=
  { id, created := now, updated := now, fields := stripSystem fields }

/-- Overlays the changes that are to no system column, in their order. -/
def overlay (fields changes : Dict Json) : Dict Json :=
  changes.foldl
    (fun d change => if isSystemColumn change.1 then d else Dict.insert d change.1 change.2) fields

/-- Changes columns of a record. -/
def apply (now : Instant) (changes : Dict Json) (r : Record) : Record :=
  { r with fields := overlay r.fields changes, updated := now }

/-- The value of a column, system columns included. -/
def get? (r : Record) (column : String) : Option Json :=
  if column = "id" then some (.str r.id)
  else if column = "created" then some (.str r.created.rowText)
  else if column = "updated" then some (.str r.updated.rowText)
  else Dict.get? r.fields column

/-- The record as one row: the system columns, then the others. -/
def toRow (r : Record) : Dict Json :=
  Dict.insertAll
    [("id", .str r.id), ("created", .str r.created.rowText), ("updated", .str r.updated.rowText)]
    r.fields

/-- The record as a tree. -/
def toJson (r : Record) : Json :=
  .obj [("id", .str r.id), ("created", .str r.created.recordText),
    ("updated", .str r.updated.recordText), ("fields", .obj r.fields)]

/-- The record that a tree describes, its fields as they are. -/
def ofJson? (tree : Json) : Option Record := do
  let stamp (field : Option Json) : Option Instant :=
    (Json.required Json.asText? field).bind Calendar.readRecordStamp?
  match ← Json.fields? ["id", "created", "updated", "fields"] tree with
  | [id, created, updated, fields] =>
    return {
      id := ← Json.required Json.asText? id
      created := ← stamp created
      updated := ← stamp updated
      fields := ← Json.required Json.asDict? fields }
  | _ => none

end Record
end RecordQuery
