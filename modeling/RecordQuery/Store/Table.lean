import RecordQuery.Record

/-!
# Tables

A table is the list of its records in the order in which they came. Records are found by their
identifiers; where an identifier was loaded twice, the later record is the one that is found.
-/
namespace RecordQuery

/-- The records of one type, in the order in which they came. -/
abbrev Table := List Record

namespace Table

/-- The last record with an identifier. -/
def find? : Table → String → Option Record
  | [], _ => none
  | r :: rest, id =>
    match find? rest id with
    | some found => some found
    | none => if r.id = id then some r else none

/-- Puts a record in the place of the last one with its identifier, or at the end. -/
def upsert : Table → Record → Table
  | [], r => [r]
  | s :: rest, r => if s.id = r.id ∧ find? rest r.id = none then r :: rest else s :: upsert rest r

theorem find?_upsert_self (t : Table) (r : Record) : find? (upsert t r) r.id = some r := by
  induction t with
  | nil => simp [upsert, find?]
  | cons s rest ih =>
    by_cases h : s.id = r.id ∧ find? rest r.id = none
    · simp [upsert, find?, h]
    · simp [upsert, find?, h, ih]

theorem find?_upsert_of_ne (t : Table) {r : Record} {id : String} (ne : id ≠ r.id) :
    find? (upsert t r) id = find? t id := by
  induction t with
  | nil => simp [upsert, find?, Ne.symm ne]
  | cons s rest ih =>
    by_cases h : s.id = r.id ∧ find? rest r.id = none
    · simp [upsert, find?, h, Ne.symm ne]
    · simp [upsert, find?, h, ih]

/-- Puts records one after another. -/
def upsertAll (t : Table) (records : List Record) : Table := records.foldl upsert t

/-- The table as seen through staged versions of some of its records and new ones: the versions take
the places of the records, and the new ones follow. -/
def overlaid (committed staged : Table) : List Record :=
  committed.map (fun r => (find? staged r.id).getD r) ++
    staged.filter (fun r => (find? committed r.id).isNone)

end Table
end RecordQuery
