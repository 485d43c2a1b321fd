import RecordQuery.Store.Table
import RecordQuery.Text.Case
import RecordQuery.Failure

/-!
# The store

The store holds committed records by table, and for each open stage the records that it has written
but not committed. A stage sees its own writes over the committed records; other stages see them
after the commit only. Where two stages write the same record, the last commit wins.
-/
namespace RecordQuery

open Calendar (Instant)

/-- The name of a set of staged writes. -/
structure StageId where
  number : Nat
  deriving DecidableEq

/-- The text of a stage's name. -/
def StageId.text (s : StageId) : String := "stage:" ++ toString s.number

/-- The writes of one stage: the latest version of each record it wrote, and how often it wrote. -/
structure Stage where
  tables : Dict Table := []
  writes : Nat := 0

/-- The table of a name; empty if there is none. -/
def Stage.table (stage : Stage) (name : String) : Table := (Dict.get? stage.tables name).getD []

/-- Committed records and staged writes. Names of tables are in lower case. -/
structure Store where
  committed : Dict Table := []
  stages : List (StageId × Stage) := []
  /-- How many stages have been opened. -/
  opened : Nat := 0

namespace Store

/-! ## Reading -/

/-- The committed records of a table. -/
def table (store : Store) (name : String) : Table := (Dict.get? store.committed name).getD []

/-- The writes of a stage; none if it is not open. -/
def stage (store : Store) (id : StageId) : Stage := (store.stages.lookup id).getD {}

/-- The records that a stage has written in a table; none for the committed view. -/
def staged (store : Store) (view : Option StageId) (name : String) : Table :=
  match view with
  | some id => (store.stage id).table name
  | none => []

/-- The record of an identifier in a view. -/
def lookup? (store : Store) (view : Option StageId) (name id : String) : Option Record :=
  match (store.staged view name).find? id with
  | some r => some r
  | none => (store.table name).find? id

/-- The records of a table in a view, by the name of the table in lower case. -/
def records (store : Store) (view : Option StageId) (name : String) : List Record :=
  (store.table name).overlaid (store.staged view name)

/-- The record of an identifier in a view. -/
def get? (store : Store) (view : Option StageId) (table id : String) : Option Record :=
  store.lookup? view (Text.lower table) id

/-- The records of a table in a view, or the first of them. -/
def scan (store : Store) (view : Option StageId) (table : String) (limit : Option Nat) :
    List Record :=
  let all := store.records view (Text.lower table)
  match limit with
  | some n => all.take n
  | none => all

/-- Whether any stage holds writes. -/
def hasPending (store : Store) : Bool := store.stages.any fun entry => 0 < entry.2.writes

/-- The number of committed records of a table. -/
def committedCount (store : Store) (table : String) : Nat := (store.table (Text.lower table)).length

/-! ## Writing -/

/-- Adds committed records at the end of a table. -/
def load (store : Store) (table : String) (records : List Record) : Store :=
  let name := Text.lower table
  { store with committed := Dict.insert store.committed name (store.table name ++ records) }

/-- Adds one committed record with the given fields. -/
def seed (store : Store) (now : Instant) (table id : String) (fields : Dict Json) : Store :=
  store.load table [Record.create now id fields]

/-- Opens a stage. -/
def openStage (store : Store) : StageId × Store :=
  (⟨store.opened + 1⟩, { store with opened := store.opened + 1 })

/-- Replaces the writes of a stage. -/
def setStage (store : Store) (id : StageId) (stage : Stage) : Store :=
  { store with stages := (id, stage) :: store.stages.filter (·.1 != id) }

/-- Forgets a stage. -/
def dropStage (store : Store) (id : StageId) : Store :=
  { store with stages := store.stages.filter (·.1 != id) }

/-- Stages a record in a table, in place of the stage's earlier version of it. -/
def write (store : Store) (id : StageId) (name : String) (r : Record) : Store :=
  let stage := store.stage id
  store.setStage id
    { tables := Dict.insert stage.tables name ((stage.table name).upsert r)
      writes := stage.writes + 1 }

/-- Stages a new record; refused if the stage sees a record of that identifier. -/
def insert (store : Store) (now : Instant) (stage : StageId) (table id : String)
    (fields : Dict Json) :
    Except Failure Record × Store :=
  let name := Text.lower table
  match store.lookup? (some stage) name id with
  | some _ =>
    (.error (.storage ("Record '" ++ id ++ "' already exists in table '" ++ name ++ "'")), store)
  | none =>
    let r := Record.create now id fields
    (.ok r, store.write stage name r)

/-- Stages changes to a record that the stage sees. -/
def update (store : Store) (now : Instant) (stage : StageId) (table id : String)
    (fields : Dict Json) :
    Except Failure Record × Store :=
  let name := Text.lower table
  match store.lookup? (some stage) name id with
  | none => (.error (.recordNotFound name id), store)
  | some r =>
    let r := r.apply now fields
    (.ok r, store.write stage name r)

/-- Makes the writes of a stage durable and tells how many there were. -/
def commit (store : Store) (id : StageId) : Nat × Store :=
  let stage := store.stage id
  let committed := stage.tables.foldl
    (fun tables entry =>
      Dict.insert tables entry.1 (Table.upsertAll ((Dict.get? tables entry.1).getD []) entry.2))
    store.committed
  (stage.writes, { store.dropStage id with committed := committed })

/-- Discards the writes of a stage and tells how many there were. -/
def rollback (store : Store) (id : StageId) : Nat × Store :=
  ((store.stage id).writes, store.dropStage id)

end Store
end RecordQuery
