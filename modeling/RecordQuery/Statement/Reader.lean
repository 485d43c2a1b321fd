import RecordQuery.Statement.Basic
import RecordQuery.Expr.Reader

/-!
# Reading and writing statements

The tree of a statement is told by its kind. Names of tables and of assigned columns are read into
lower case; aliases and the columns of an insertion stay as they are written.
-/
namespace RecordQuery

/-- An optional member. -/
def someMember (name : String) : Option Json → List (String × Json)
  | some value => [(name, value)]
  | none => []

/-- A member for a list that is left out when it is empty. -/
def listMember (name : String) : List Json → List (String × Json)
  | [] => []
  | items => [(name, .arr items)]

/-! ## Parts -/

/-- The projection that a tree describes. -/
def Projection.ofJson? (tree : Json) : Option Projection := do
  match ← Json.fields? ["expr", "alias"] tree with
  | [expr, givenName] =>
    return {
      expr := ← Json.required Expr.ofNestedJson? expr
      givenName := ← Json.optional Json.asText? givenName }
  | _ => none

/-- The projection as a tree. -/
def Projection.toJson (p : Projection) : Json :=
  .obj (("expr", p.expr.toJson) :: someMember "alias" (p.givenName.map .str))

/-- The source that a tree describes. -/
def Source.ofJson? (tree : Json) : Option Source := do
  match ← Json.fields? ["table", "alias"] tree with
  | [table, givenName] =>
    return {
      table := ← Json.required Expr.asLower? table
      givenName := ← Json.optional Json.asText? givenName }
  | _ => none

/-- The source as a tree. -/
def Source.toJson (s : Source) : Json :=
  .obj (("table", .str s.table) :: someMember "alias" (s.givenName.map .str))

/-- The kind of join that a tree inside a statement names. -/
def JoinKind.ofJson? (tree : Json) : Option JoinKind :=
  (Json.asName? .nested (JoinKind.all.map JoinKind.name) tree).bind JoinKind.ofName?

/-- The join that a tree describes. -/
def Join.ofJson? (tree : Json) : Option Join := do
  match ← Json.fields? ["kind", "source", "on"] tree with
  | [kind, source, on] =>
    return {
      kind := ← Json.required JoinKind.ofJson? kind
      source := ← Json.required Source.ofJson? source
      on := ← Json.required Expr.ofNestedJson? on }
  | _ => none

/-- The join as a tree. -/
def Join.toJson (j : Join) : Json :=
  .obj [("kind", .str j.kind.name), ("source", j.source.toJson), ("on", j.on.toJson)]

/-- The sort key that a tree describes. -/
def SortKey.ofJson? (tree : Json) : Option SortKey := do
  match ← Json.fields? ["expr", "descending"] tree with
  | [expr, descending] =>
    return {
      expr := ← Json.required Expr.ofNestedJson? expr
      descending := ← Json.defaulted false Json.asBool? descending }
  | _ => none

/-- The sort key as a tree. -/
def SortKey.toJson (k : SortKey) : Json :=
  .obj [("expr", k.expr.toJson), ("descending", .bool k.descending)]

/-- The assignment that a tree describes. -/
def Assignment.ofJson? (tree : Json) : Option Assignment := do
  match ← Json.fields? ["column", "value"] tree with
  | [column, value] =>
    return {
      column := ← Json.required Expr.asLower? column
      value := ← Json.required Expr.ofNestedJson? value }
  | _ => none

/-- The assignment as a tree. -/
def Assignment.toJson (a : Assignment) : Json :=
  .obj [("column", .str a.column), ("value", a.value.toJson)]

/-! ## Statements -/

/-- The query that a tree describes. -/
def Select.ofJson? (tree : Json) : Option Select := do
  match ← Json.fields?
    ["projections", "from", "joins", "where", "group_by", "order_by", "limit", "offset"] tree with
  | [projections, base, joins, filter, groupBy, orderBy, limit, offset] =>
    return {
      projections := ← Json.required (Json.asList? Projection.ofJson?) projections
      base := ← Json.required Source.ofJson? base
      joins := ← Json.defaulted [] (Json.asList? Join.ofJson?) joins
      filter := ← Json.optional Expr.ofNestedJson? filter
      groupBy := ← Json.defaulted [] (Json.asList? Expr.ofNestedJson?) groupBy
      orderBy := ← Json.defaulted [] (Json.asList? SortKey.ofJson?) orderBy
      limit := ← Json.optional Json.asCount? limit
      offset := ← Json.optional Json.asCount? offset }
  | _ => none

/-- The members of the tree of a query. -/
def Select.members (s : Select) : List (String × Json) :=
  [("projections", .arr (s.projections.map Projection.toJson)), ("from", s.base.toJson)] ++
    listMember "joins" (s.joins.map Join.toJson) ++
    someMember "where" (s.filter.map Expr.toJson) ++
    listMember "group_by" (s.groupBy.map Expr.toJson) ++
    listMember "order_by" (s.orderBy.map SortKey.toJson) ++
    someMember "limit" (s.limit.map Json.ofNat) ++
    someMember "offset" (s.offset.map Json.ofNat)

/-- The source of rows that a tree describes: its only member names the kind. -/
def RowSource.ofJson? (tree : Json) : Option RowSource := do
  match ← tree.asSingle? with
  | ("values", rows) => return .values (← Json.asList? (Json.asList? Expr.ofNestedJson?) rows)
  | ("select", select) => return .query (← Select.ofJson? select)
  | _ => none

/-- The source of rows as a tree. -/
def RowSource.toJson : RowSource → Json
  | .values rows => .obj [("values", .arr (rows.map fun row => .arr (row.map Expr.toJson)))]
  | .query select => .obj [("select", .obj select.members)]

/-- The insertion that a tree describes. -/
def Insert.ofJson? (tree : Json) : Option Insert := do
  match ← Json.fields? ["table", "columns", "source", "returning"] tree with
  | [table, columns, source, returning] =>
    return {
      table := ← Json.required Expr.asLower? table
      columns := ← Json.required (Json.asList? Json.asText?) columns
      source := ← Json.required RowSource.ofJson? source
      returning := ← Json.defaulted [] (Json.asList? Projection.ofJson?) returning }
  | _ => none

/-- The members of the tree of an insertion. -/
def Insert.members (s : Insert) : List (String × Json) :=
  [("table", .str s.table), ("columns", .arr (s.columns.map .str)), ("source", s.source.toJson)] ++
    listMember "returning" (s.returning.map Projection.toJson)

/-- The update that a tree describes. -/
def Update.ofJson? (tree : Json) : Option Update := do
  match ← Json.fields? ["table", "set", "where", "returning"] tree with
  | [table, assignments, filter, returning] =>
    return {
      table := ← Json.required Expr.asLower? table
      assignments := ← Json.required (Json.asList? Assignment.ofJson?) assignments
      filter := ← Json.optional Expr.ofNestedJson? filter
      returning := ← Json.defaulted [] (Json.asList? Projection.ofJson?) returning }
  | _ => none

/-- The members of the tree of an update. -/
def Update.members (s : Update) : List (String × Json) :=
  [("table", .str s.table), ("set", .arr (s.assignments.map Assignment.toJson))] ++
    someMember "where" (s.filter.map Expr.toJson) ++
    listMember "returning" (s.returning.map Projection.toJson)

namespace Statement

/-- The statement that a tree describes. -/
def ofJson? (tree : Json) : Option Statement := do
  match ← Json.tagged? .alone ["select", "insert", "update"] tree with
  | ("select", rest) => return select (← Select.ofJson? rest)
  | ("insert", rest) => return insert (← Insert.ofJson? rest)
  | ("update", rest) => return update (← Update.ofJson? rest)
  | _ => none

/-- The statement as a tree. -/
def toJson : Statement → Json
  | select s => .obj (("kind", .str "select") :: s.members)
  | insert s => .obj (("kind", .str "insert") :: s.members)
  | update s => .obj (("kind", .str "update") :: s.members)

end Statement
end RecordQuery
