import RecordQuery.Json.Basic

/-!
# Trees of configurations

A configuration is a table of values, further tables, and lists of tables. It grows by declarations,
and nothing that has been declared is declared again.
-/
namespace RecordQuery.Toml

/-- How a table came to be. -/
inductive Opening where
  /-- A table inside it was declared. -/
  | implied
  /-- A value was assigned to a path through it. -/
  | assigned
  | declared
  deriving DecidableEq, Repr

/-- What a key of a table stands for. -/
inductive Node where
  | value (v : Json)
  | table (opening : Opening) (members : List (String × Node))
  /-- A list of tables, which may not be empty. -/
  | tables (rows : List (List (String × Node)))
  deriving Inhabited

/-- The content of a table. -/
abbrev Members := Dict Node

/-! ## Growing -/

/-- A key on the way to a declaration, and whether it belongs to the path of a value. -/
structure Step where
  key : String
  assigning : Bool

/-- Whether a step may lead through a table: the path of a value does not extend declared ones. -/
def Step.enters (s : Step) (opening : Opening) : Bool := !s.assigning || opening != .declared

/-- Changes what the last key of a path stands for. Tables on the way that do not exist come to be,
and a list of tables is entered at its last one. -/
def alter? (change : Option Node → Option Node) : List Step → Members → Option Members
  | [], _ => none
  | [step], members => (change (Dict.get? members step.key)).map (Dict.insert members step.key)
  | step :: rest, members =>
    match Dict.get? members step.key with
    | none => do
      let inner ← alter? change rest []
      let origin := if step.assigning then .assigned else .implied
      return Dict.insert members step.key (.table origin inner)
    | some (.table opening inner) =>
      if step.enters opening then do
        let inner ← alter? change rest inner
        return Dict.insert members step.key (.table opening inner)
      else none
    | some (.tables rows) => do
      let inner ← alter? change rest (← rows.getLast?)
      return Dict.insert members step.key (.tables (rows.dropLast ++ [inner]))
    | some (.value _) => none

/-- A table is declared once; one that was only implied keeps its content. -/
def declare : Option Node → Option Node
  | none => some (.table .declared [])
  | some (.table .implied members) => some (.table .declared members)
  | some _ => none

/-- A list of tables gets one more. -/
def append : Option Node → Option Node
  | none => some (.tables [[]])
  | some (.tables rows) => some (.tables (rows ++ [[]]))
  | some _ => none

/-- A value is assigned once. -/
def assign (v : Json) : Option Node → Option Node
  | none => some (.value v)
  | some _ => none

/-! ## As data trees -/

mutual

/-- The data tree of a node. -/
def Node.toJson : Node → Json
  | .value v => v
  | .table _ members => .obj (membersToJson members)
  | .tables rows => .arr (rowsToJson rows)

/-- The data trees of the nodes of a table. -/
def membersToJson : List (String × Node) → List (String × Json)
  | [] => []
  | (key, node) :: rest => (key, node.toJson) :: membersToJson rest

/-- The data trees of a list of tables. -/
def rowsToJson : List (List (String × Node)) → List Json
  | [] => []
  | row :: rest => .obj (membersToJson row) :: rowsToJson rest

end

end RecordQuery.Toml
