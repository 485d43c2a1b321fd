import RecordQuery.Statement.Select

/-!
# Executing insertions

Each row is checked column by column. What fails is reported and left out, and the rest is staged,
so that one pass finds all problems of a statement.
-/
namespace RecordQuery.Insert

/-- The path of a row. -/
def rowPath (index : Nat) : String := itemPath "insert.values" index

/-- The error of a row that does not have a value for each column. -/
def arityError (index expected actual : Nat) : ValidationError :=
  { path := rowPath index
    message := "Expected " ++ toString expected ++ " values to match the column list, got " ++
      toString actual }

/-- The values of a row, unless their number is not that of the columns, which is reported. -/
def checkArity (expected index : Nat) (values : List Json) : Log (Option (List Json)) := do
  if values.length = expected then return some values
  else
    Log.report (arityError index expected values.length)
    return none

/-- The values of rows of expressions, from the given index on. -/
def literalRows (scope : Scope) (expected : Nat) :
    Nat → List (List Expr) → Log (List (Option (List Json)))
  | _, [] => return []
  | index, row :: rest => do
    let values ←
      if row.length = expected then
        some <$> Log.within (rowPath index) (Expr.evalAll scope none none row)
      else do
        Log.report (arityError index expected row.length)
        pure none
    return values :: (← literalRows scope expected (index + 1) rest)

/-- The values of rows of a query, from the given index on. -/
def queryRows (expected : Nat) : Nat → List Entries → Log (List (Option (List Json)))
  | _, [] => return []
  | index, row :: rest => do
    let values ← checkArity expected index (row.map (·.2))
    return values :: (← queryRows expected (index + 1) rest)

/-- The rows to insert; `none` stands for a row that was reported for its number of values. -/
def valueRows (s : Insert) (ctx : Context) : Exec (List (Option (List Json))) := do
  match s.source with
  | .values rows => Exec.log (literalRows ctx.scope s.columns.length 0 rows)
  | .query select =>
    let rows ← Exec.within "insert" (select.executeEntries ctx)
    Exec.log (queryRows s.columns.length 0 (rows.getD []))

/-- Checks one value and adds it to the fields of a new record, or reports why not. -/
def stageColumn (ctx : Context) (d : TypeDef) (path : String) (fields : Dict Json) (column : String)
    (value : Json) : Exec (Dict Json) := do
  let column := Text.lower column
  let path := path ++ "." ++ column
  if isSystemColumn column then
    Exec.log (Log.report (systemColumnError column path))
    return fields
  else
    match d.field? column with
    | none =>
      Exec.log (Log.report (unknownColumn d column path))
      return fields
    | some field =>
      match ← Exec.script (field.refusal? ctx.stage value) with
      | none => return Dict.insert fields field.name value
      | some reason =>
        Exec.log (Log.report ((reason.error field).atPath path))
        return fields

/-- Checks the values of a row one after another. -/
def stageColumns (ctx : Context) (d : TypeDef) (path : String) :
    Dict Json → List (String × Json) → Exec (Dict Json)
  | fields, [] => return fields
  | fields, (column, value) :: rest => do
    let fields ← stageColumn ctx d path fields column value
    stageColumns ctx d path fields rest

/-- The errors of the required fields that are not among the columns. -/
def missingFields (d : TypeDef) (path : String) (columns : List String) : List ValidationError :=
  let missing := d.fields.filter fun field =>
    !field.nullable && !(columns.map Text.lower).contains field.name
  missing.map fun field => (Refusal.required.error field).atPath (path ++ "." ++ field.name)

/-- The fields of a new record from the values of a row. -/
def stageRow (s : Insert) (ctx : Context) (d : TypeDef) (path : String) (values : List Json) :
    Exec (Dict Json) := do
  let pairs := s.columns.zip values
  let fields ← stageColumns ctx d path [] pairs
  Exec.log ((missingFields d path (pairs.map (·.1))).forM Log.report)
  return fields

/-- Stages the rows from the given index on and yields their records. -/
def stageRows (s : Insert) (ctx : Context) (d : TypeDef) :
    Nat → List (Option (List Json)) → Exec (List Record)
  | _, [] => return []
  | index, none :: rest => stageRows s ctx d (index + 1) rest
  | index, some values :: rest => do
    let fields ← s.stageRow ctx d (rowPath index) values
    let id ← Exec.script (Script.ask .newId)
    let r ← Exec.attempt (Script.ask (.insert ctx.stage d.name id fields))
    return r :: (← stageRows s ctx d (index + 1) rest)

/-- Executes an insertion. -/
def execute (s : Insert) (ctx : Context) : Exec Result := do
  match ctx.schema.get? s.table with
  | none =>
    Exec.log (Log.report (unknownTable ctx.schema s.table "insert"))
    return .rejected
  | some d =>
    let rows ← s.valueRows ctx
    let records ← s.stageRows ctx d 0 rows
    Result.finish (← Exec.log (returningRows ctx.scope "insert.returning" s.returning records))

end RecordQuery.Insert
