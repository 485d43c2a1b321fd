import RecordQuery.Expr.Eval
import RecordQuery.Assignment
import RecordQuery.Statement.Basic
import RecordQuery.Limits

/-!
# Executing parts of statements

A statement runs in a context and collects validation errors. Parts that only evaluate expressions
add to the list of errors; parts that call the store may also be stopped by a failure.
-/
namespace RecordQuery

open Calendar (Instant)

/-- What a statement is executed in. -/
structure Context where
  schema : Schema
  limits : Limits := {}
  /-- The names under which types are known, each with its type. -/
  aliases : Dict String := []
  /-- The stage that takes the writes of the statement. -/
  stage : StageId
  now : Instant

namespace Context

/-- What expressions are evaluated against in a context. -/
def scope (ctx : Context) : Scope :=
  { schema := ctx.schema
    aliases := ctx.aliases
    maxPattern := ctx.limits.maxLikePattern
    now := ctx.now }

end Context

/-! ## Collecting errors -/

/-- A computation that adds to the validation errors of a statement. -/
abbrev Log := StateM (List ValidationError)

namespace Log

/-- Adds an error. -/
def report (e : ValidationError) : Log Unit := modify (· ++ [e])

/-- Adds an error unless the same one is there. -/
def once (e : ValidationError) : Log Unit := modify (reportOnce · e)

/-- Adds the faults of an evaluation as errors in a clause. -/
def within {α : Type} (clause : String) (x : Reported α) : Log α := do
  modify fun errors => scopeErrors errors.length clause (errors ++ x.faults.map Fault.error)
  return x.value

end Log

/-- A computation that calls the store, adds to the validation errors, and may be stopped. The
errors found before a failure are kept. -/
abbrev Exec := ExceptT Failure (StateT (List ValidationError) Script)

namespace Exec
variable {α : Type}

/-- Does what only adds errors. -/
def log (x : Log α) : Exec α := fun errors => return match x.run errors with
  | (a, errors) => (.ok a, errors)

/-- Runs a script. -/
def script (s : Script α) : Exec α := fun errors => do return (.ok (← s), errors)

/-- Calls the store; a failure stops the computation. -/
def attempt (s : Script (Except Failure α)) : Exec α := fun errors => do return (← s, errors)

/-- Moves the errors that a computation adds into a clause. -/
def within (clause : String) (x : Exec α) : Exec α := do
  let mark := (← get).length
  let a ← x
  modify (scopeErrors mark clause)
  return a

end Exec

/-! ## Results -/

/-- What a statement yields: rows, and whether its writes may be kept. -/
structure Result where
  rows : List Json
  canCommit : Bool

/-- The result of a statement that was given up because a table does not exist. -/
def Result.rejected : Result := ⟨[], false⟩

/-- The result with the given rows: it may be committed if no error has been found. -/
def Result.finish (rows : List Json) : Exec Result := do return ⟨rows, (← get).isEmpty⟩

/-- The output columns of one row in their order; names may repeat. -/
abbrev Entries := List (String × Json)

/-- The row as an object: a repeated name keeps its first place and its last value. -/
def Entries.toRow (entries : Entries) : Json := .obj (Dict.ofEntries entries)

/-! ## Paths -/

/-- The path of an item of a list. -/
def itemPath (list : String) (index : Nat) : String := list ++ "[" ++ toString index ++ "]"

/-! ## Shared steps -/

/-- The error of a table that does not exist. -/
def unknownTable (schema : Schema) (table path : String) : ValidationError :=
  { path
    message := "Table '" ++ table ++ "' does not exist"
    suggestion := some ("Available tables: " ++ schema.availableTables) }

/-- The error of a column that does not exist. -/
def unknownColumn (d : TypeDef) (column path : String) : ValidationError :=
  { path
    message := "Column '" ++ column ++ "' does not exist in '" ++ d.name ++ "'"
    suggestion := some ("Available columns: " ++ d.availableColumns) }

/-- The error of an assignment to a system column. -/
def systemColumnError (column path : String) : ValidationError :=
  { path, message := "System column '" ++ column ++ "' cannot be assigned" }

/-- The error of a table that holds more records than may be read. -/
def scanLimitError (table : String) (limit : Nat) (path : String) : ValidationError :=
  { path
    message := "Scan limit exceeded: '" ++ table ++ "' has more than " ++ toString limit ++ " rows"
    suggestion := some "Raise limits.max_scan_rows or narrow the query" }

/-- Reads a table as the stage of the context sees it, up to the limit; a longer one is reported. -/
def scanTable (ctx : Context) (table path : String) : Exec (List Record) := do
  let limit := ctx.limits.maxScanRows
  let records ← Exec.attempt (Script.ask (.scan (some ctx.stage) table (some (limit + 1))))
  if limit < records.length then
    Exec.log (Log.report (scanLimitError table limit path))
    return records.take limit
  else return records

/-- The output columns of one projection. -/
def projectOne (scope : Scope) (row : Option Record) (group : Option (List Record)) (path : String)
    (p : Projection) : Log Entries := do
  let value ← Log.within path (p.expr.eval scope row group)
  return match value.raw with
    | .obj members => if p.isWildcard then members else [(p.name, .obj members)]
    | raw => [(p.name, raw)]

/-- The output columns of projections, the first of which has the given index. -/
def projectFrom (scope : Scope) (row : Option Record) (group : Option (List Record))
    (clause : String) :
    Nat → List Projection → Log Entries
  | _, [] => return []
  | index, p :: rest => do
    let entries ← projectOne scope row group (itemPath clause index) p
    return entries ++ (← projectFrom scope row group clause (index + 1) rest)

/-- The output columns of a list of projections. -/
def project (scope : Scope) (row : Option Record) (group : Option (List Record)) (clause : String)
    (ps : List Projection) : Log Entries := projectFrom scope row group clause 0 ps

/-- The rows of a RETURNING list, one for each record that was written; none without a list. -/
def returningRows (scope : Scope) (clause : String) (ps : List Projection) (records : List Record) :
    Log (List Json) :=
  if ps.isEmpty then return []
  else records.mapM fun r => return (← project scope (some r) none clause ps).toRow

end RecordQuery
