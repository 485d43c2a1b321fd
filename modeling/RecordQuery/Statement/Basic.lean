import RecordQuery.Expr.Walk

/-!
# Statements

The three kinds of statements: a query, the insertion of rows, and an update of rows.
-/
namespace RecordQuery

/-- One output column: an expression and the name it is given, if any. -/
structure Projection where
  expr : Expr
  givenName : Option String := none

namespace Projection

/-- The name of the output column: the given one, else that of the column or function, else the
expression itself. -/
def name (p : Projection) : String :=
  match p.givenName with
  | some given => given
  | none =>
    match p.expr with
    | .column _ column => column
    | .call func _ => func
    | other => other.text

/-- Whether the projection is a whole row without a name of its own. -/
def isWildcard (p : Projection) : Bool :=
  match p.givenName, p.expr with
  | none, .column _ column => column == "*"
  | _, _ => false

end Projection

/-- A table that a query reads, and the name it is given, if any. -/
structure Source where
  table : String
  givenName : Option String := none

namespace Source

/-- The source of a table, its name in lower case. -/
def ofTable (table : String) (givenName : Option String := none) : Source :=
  { table := Text.lower table, givenName }

/-- The name by which columns refer to a source, in lower case. -/
def name (s : Source) : String := Text.lower (s.givenName.getD s.table)

end Source

/-- Whether rows of the left side without a match are kept. -/
inductive JoinKind where
  | inner | left
  deriving DecidableEq, Repr

namespace JoinKind

/-- The kinds of joins. -/
def all : List JoinKind := [inner, left]

/-- The name of a kind of join. -/
def name : JoinKind → String
  | inner => "inner"
  | left => "left"

/-- The kind of join of a name. -/
def ofName? (s : String) : Option JoinKind := all.find? (·.name == s)

end JoinKind

/-- One more source, joined on a condition. -/
structure Join where
  kind : JoinKind
  source : Source
  on : Expr

/-- A key to sort by. -/
structure SortKey where
  expr : Expr
  descending : Bool := false

/-- A query. -/
structure Select where
  projections : List Projection := []
  base : Source
  joins : List Join := []
  filter : Option Expr := none
  groupBy : List Expr := []
  orderBy : List SortKey := []
  limit : Option Nat := none
  offset : Option Nat := none

namespace Select

/-- The tables that a query reads. -/
def tables (s : Select) : List String := s.base.table :: s.joins.map (·.source.table)

/-- The sources of a query. -/
def sources (s : Select) : List Source := s.base :: s.joins.map (·.source)

/-- Whether a query yields a row for each group of rows: it says so, or an output column
aggregates. -/
def isAggregated (s : Select) : Bool :=
  !s.groupBy.isEmpty || s.projections.any fun p => p.expr.containsAggregate

end Select

/-- Where inserted rows come from. -/
inductive RowSource where
  /-- One expression for each column of each row. -/
  | values (rows : List (List Expr))
  /-- The rows of a query, whose output columns go to the columns by position. -/
  | query (select : Select)

/-- An insertion of rows. -/
structure Insert where
  table : String
  columns : List String
  source : RowSource
  returning : List Projection := []

/-- The insertion into a table, its name in lower case. -/
def Insert.into (table : String) (columns : List String) (source : RowSource) : Insert :=
  { table := Text.lower table, columns, source }

/-- A column and the expression it is set to. -/
structure Assignment where
  column : String
  value : Expr

/-- The assignment to a column, its name in lower case. -/
def Assignment.to (column : String) (value : Expr) : Assignment :=
  { column := Text.lower column, value }

/-- An update of rows. -/
structure Update where
  table : String
  assignments : List Assignment := []
  filter : Option Expr := none
  returning : List Projection := []

/-- The update of a table, its name in lower case. -/
def Update.ofTable (table : String) : Update := { table := Text.lower table }

/-- A statement. -/
inductive Statement where
  | select (s : Select)
  | insert (s : Insert)
  | update (s : Update)

namespace Statement

/-- The name of the kind of a statement. -/
def kind : Statement → String
  | select _ => "select"
  | insert _ => "insert"
  | update _ => "update"

/-- The table that a statement reads first or writes to. -/
def table : Statement → String
  | select s => s.base.table
  | insert s => s.table
  | update s => s.table

/-- The names of the output columns. -/
def outputNames : Statement → List String
  | select s => s.projections.map (·.name)
  | insert s => s.returning.map (·.name)
  | update s => s.returning.map (·.name)

end Statement
end RecordQuery
