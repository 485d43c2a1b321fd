import RecordQuery.Statement.Execution

/-!
# Executing queries

A query reads its sources, joins them, keeps the rows that pass its condition, computes its output
columns for each row or for each group of rows, sorts, and cuts out the part that is asked for.
-/
namespace RecordQuery.Select

/-! ## Sources -/

/-- The types of the joined sources; those that do not exist are reported and left out. -/
def joinTypes (schema : Schema) : Nat → List Join → Log (List TypeDef)
  | _, [] => return []
  | index, j :: rest => do
    match schema.get? j.source.table with
    | some d => return d :: (← joinTypes schema (index + 1) rest)
    | none =>
      Log.report (unknownTable schema j.source.table (itemPath "select.joins" index))
      joinTypes schema (index + 1) rest

/-- The names of the sources of a join, each with its type. -/
def bindings (s : Select) (base : TypeDef) (types : List TypeDef) : Dict String :=
  Dict.ofEntries
    ((s.base.name, base.name) ::
      (s.joins.zip types).map fun entry => (entry.1.source.name, entry.2.name))

/-- A joined row with one entry: the row of a record under the name of its source. -/
def entryRow (name : String) (r : Record) : Record := { r with fields := [(name, .obj r.toRow)] }

/-- A joined row with one more entry. -/
def addEntry (row : Record) (name : String) (entry : Json) : Record :=
  { row with fields := Dict.insert row.fields name entry }

/-- The rows that one row and the records of the right side join to. -/
def matchRows (scope : Scope) (j : Join) (path : String) (row : Record) :
    List Record → Log (List Record)
  | [] => return []
  | candidate :: rest => do
    let joined := addEntry row j.source.name (.obj candidate.toRow)
    let keep ← Log.within path (j.on.passes scope (some joined) none)
    let more ← matchRows scope j path row rest
    return if keep then joined :: more else more

/-- Joins rows with the records of the right side; a left join keeps a row without match. -/
def joinRows (scope : Scope) (j : Join) (path : String) (right : List Record) :
    List Record → Log (List Record)
  | [] => return []
  | row :: rest => do
    let found ← matchRows scope j path row right
    let found :=
      if found.isEmpty ∧ j.kind = .left then [addEntry row j.source.name .null] else found
    return found ++ (← joinRows scope j path right rest)

/-- Joins rows with one source after another. -/
def joinAll (ctx : Context) : Nat → List (Join × TypeDef) → List Record → Exec (List Record)
  | _, [], rows => return rows
  | index, (j, d) :: rest, rows => do
    let path := itemPath "select.joins" index
    let right ← scanTable ctx d.name path
    let rows ← Exec.log (joinRows ctx.scope j (path ++ ".on") right rows)
    joinAll ctx (index + 1) rest rows

/-- The rows of the sources and the context in which they are evaluated; none if a source does not
exist. A single source without a name of its own yields plain records, others joined rows. -/
def loadRows (s : Select) (ctx : Context) : Exec (Option (Context × List Record)) := do
  match ctx.schema.get? s.base.table with
  | none =>
    Exec.log (Log.report (unknownTable ctx.schema s.base.table "select.from"))
    return none
  | some base =>
    let types ← Exec.log (joinTypes ctx.schema 0 s.joins)
    if types.length ≠ s.joins.length then return none
    else
      let records ← scanTable ctx base.name "select.from"
      if s.joins.isEmpty && s.base.givenName.isNone then
        return some ({ ctx with aliases := [] }, records)
      else
        let ctx := { ctx with aliases := s.bindings base types }
        let rows ← joinAll ctx 0 (s.joins.zip types) (records.map (entryRow s.base.name))
        return some (ctx, rows)

/-! ## Rows and groups -/

/-- The rows that pass the condition. -/
def filterRows (scope : Scope) (condition : Option Expr) (rows : List Record) : Log (List Record) :=
  match condition with
  | none => return rows
  | some e => rows.filterM fun row => Log.within "select.where" (e.passes scope (some row) none)

/-- The values to sort one output row by. -/
def sortValues (scope : Scope) (keys : List SortKey) (row : Option Record)
    (group : Option (List Record)) : Log (List Json) :=
  keys.mapM fun key => return (← Log.within "select.order_by" (key.expr.eval scope row group)).raw

/-- An output row and the values to sort it by. -/
structure Output where
  sortValues : List Json
  entries : Entries

/-- One output row: of a row, or of a group with its first row. -/
def outputRow (s : Select) (scope : Scope) (row : Option Record) (group : Option (List Record)) :
    Log Output := do
  let entries ← project scope row group "select.projections" s.projections
  let values ← sortValues scope s.orderBy row group
  return ⟨values, entries⟩

/-- The text that rows of one group have in common. -/
def groupKey (scope : Scope) (exprs : List Expr) (row : Record) : Log String := do
  let values ← Log.within "select.group_by" (Expr.evalAll scope (some row) none exprs)
  return (Json.arr values).text

/-- Adds a row to the group of its key, or to a new group at the end. -/
def addToGroup (key : String) (row : Record) :
    List (String × List Record) → List (String × List Record)
  | [] => [(key, [row])]
  | (k, rows) :: rest =>
    if k = key then (k, rows ++ [row]) :: rest else (k, rows) :: addToGroup key row rest

/-- The groups of rows, in the order of their first rows; without keys all rows are one group. -/
def groupRows (scope : Scope) (exprs : List Expr) (rows : List Record) : Log (List (List Record)) :=
  if exprs.isEmpty then return [rows]
  else do
    let groups ← rows.foldlM
      (fun groups row => return addToGroup (← groupKey scope exprs row) row groups) []
    return groups.map (·.2)

/-- The output rows before sorting. -/
def outputRows (s : Select) (scope : Scope) (rows : List Record) : Log (List Output) := do
  if s.isAggregated then
    (← groupRows scope s.groupBy rows).mapM fun members =>
      outputRow s scope members.head? (some members)
  else rows.mapM fun row => outputRow s scope (some row) none

/-! ## Sorting and cutting -/

/-- The order of two lists of sort values: that of the first key on which they differ. -/
def compareBy : List SortKey → List Json → List Json → Ordering
  | key :: keys, a :: as, b :: bs =>
    let order := a.sortOrder b
    (if key.descending then order.swap else order).then (compareBy keys as bs)
  | _, _, _ => .eq

/-- Sorts output rows; those with equal sort values stay in their order. -/
def sortRows (keys : List SortKey) (rows : List Output) : List Output :=
  rows.mergeSort fun a b => (compareBy keys a.sortValues b.sortValues).isLE

/-- The part of a list that is asked for. -/
def slice {α : Type} (offset limit : Option Nat) (rows : List α) : List α :=
  let rows := rows.drop (offset.getD 0)
  match limit with
  | some n => rows.take n
  | none => rows

/-! ## Queries -/

/-- The output columns of the rows of a query; none if a source does not exist. The aliases of the
context do not reach into the query. -/
def executeEntries (s : Select) (ctx : Context) : Exec (Option (List Entries)) := do
  match ← s.loadRows { ctx with aliases := [] } with
  | none => return none
  | some (ctx, rows) =>
    let outputs ← Exec.log do
      let rows ← filterRows ctx.scope s.filter rows
      s.outputRows ctx.scope rows
    return some ((slice s.offset s.limit (sortRows s.orderBy outputs)).map (·.entries))

/-- Executes a query. -/
def execute (s : Select) (ctx : Context) : Exec Result := do
  match ← s.executeEntries ctx with
  | some rows => Result.finish (rows.map Entries.toRow)
  | none => return .rejected

end RecordQuery.Select
