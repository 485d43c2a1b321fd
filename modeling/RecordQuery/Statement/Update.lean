import RecordQuery.Statement.Execution

/-!
# Executing updates

All expressions read the record as it was before the update. A value that its column refuses is
reported once and left out.
-/
namespace RecordQuery.Update

/-- The path of an assignment. -/
def columnPath (column : String) : String := "update.set." ++ column

/-- The fields that are assigned to, each with its expression; other columns are reported. -/
def targets (d : TypeDef) : List Assignment → Log (List (Field × Expr))
  | [] => return []
  | a :: rest => do
    if isSystemColumn a.column then
      Log.report (systemColumnError a.column (columnPath a.column))
      targets d rest
    else
      match d.field? a.column with
      | none =>
        Log.report (unknownColumn d a.column (columnPath a.column))
        targets d rest
      | some field => return (field, a.value) :: (← targets d rest)

/-- The changes to a record, added to those found before. -/
def changes (ctx : Context) (r : Record) : Dict Json → List (Field × Expr) → Exec (Dict Json)
  | found, [] => return found
  | found, (field, e) :: rest => do
    let path := columnPath field.name
    let value ← Exec.log (Log.within path (e.eval ctx.scope (some r) none))
    match ← Exec.script (field.refusal? ctx.stage value.raw) with
    | none => changes ctx r (Dict.insert found field.name value.raw) rest
    | some reason =>
      Exec.log (Log.once ((reason.error field).atPath path))
      changes ctx r found rest

/-- Whether a record passes the condition. -/
def selects (scope : Scope) (condition : Option Expr) (r : Record) : Log Bool :=
  match condition with
  | none => return true
  | some e => Log.within "update.where" (e.passes scope (some r) none)

/-- Updates the records that pass and yields their new versions. -/
def updateRecords (s : Update) (ctx : Context) (d : TypeDef) (targets : List (Field × Expr)) :
    List Record → Exec (List Record)
  | [] => return []
  | r :: rest => do
    if ← Exec.log (selects ctx.scope s.filter r) then
      let found ← changes ctx r [] targets
      if found.isEmpty then updateRecords s ctx d targets rest
      else
        let r ← Exec.attempt (Script.ask (.update ctx.stage d.name r.id found))
        return r :: (← updateRecords s ctx d targets rest)
    else updateRecords s ctx d targets rest

/-- Executes an update. -/
def execute (s : Update) (ctx : Context) : Exec Result := do
  match ctx.schema.get? s.table with
  | none =>
    Exec.log (Log.report (unknownTable ctx.schema s.table "update"))
    return .rejected
  | some d =>
    let targets ← Exec.log (targets d s.assignments)
    let records ← scanTable ctx d.name "update.where"
    let updated ← s.updateRecords ctx d targets records
    Result.finish (← Exec.log (returningRows ctx.scope "update.returning" s.returning updated))

end RecordQuery.Update
