import RecordQuery.Engine
import RecordQuery.Proofs.Sources

/-!
Columns of types that a statement does not read. The check of a column looks at the type that its
source resolves to, and the read looks at the row. Joined rows have entries for the sources of the
query only, so there a column of another type is null or reported. Plain records, which queries of
one table and updates go through, are read whatever the source of the column is: a column that the
other type has too is the record's own column (`Statement.foreign_column`).
-/
namespace RecordQuery

/-! ### The rows that joins build -/

namespace Select

/-- A row that the joins of a query build: a record of the first source starts it, and each further
entry is that of a joined source. -/
inductive Builds (s : Select) : Record → Prop
  | entryRow (r : Record) : s.Builds (entryRow s.base.name r)
  | addEntry {row : Record} (built : s.Builds row) {j : Join} (listed : j ∈ s.joins)
      (entry : Json) : s.Builds (addEntry row j.source.name entry)

theorem joinedRows_builds {s : Select} {ctx : Context} {store : Store}
    (levels : List (Join × TypeDef)) :
    ∀ {rows : List Record}, (∀ level ∈ levels, level.1 ∈ s.joins) → (∀ row ∈ rows, s.Builds row) →
      ∀ row ∈ joinedRows ctx store levels rows, s.Builds row := by
  induction levels with
  | nil => intro rows _ built; exact built
  | cons level rest ih =>
    intro rows listed built
    obtain ⟨j, d⟩ := level
    have listedRest : ∀ level ∈ rest, level.1 ∈ s.joins := fun level member =>
      listed level (List.mem_cons_of_mem _ member)
    refine ih listedRest fun row member => ?_
    obtain ⟨old, inRows, extended⟩ := List.mem_flatMap.mp member
    obtain ⟨entry, rfl⟩ := entry_of_mem_extensions extended
    exact .addEntry (built old inRows) (listed (j, d) List.mem_cons_self) entry

/-- A query loads plain records or rows that its joins build. -/
inductive Loaded (s : Select) (ctx : Context) : Context → List Record → Prop
  | records (single : s.joins = []) (unnamed : s.base.givenName = none) (rows : List Record) :
    Loaded s ctx { ctx with aliases := [] } rows
  | built {base : TypeDef} {types : List TypeDef} {rows : List Record}
      (joined : s.joins ≠ [] ∨ s.base.givenName ≠ none) (typed : s.Typed ctx.schema base types)
      (built : ∀ row ∈ rows, s.Builds row) :
    Loaded s ctx { ctx with aliases := s.bindings base types } rows

theorem loaded_of_run {s : Select} {ctx inner : Context} {w after : World} {rows : List Record}
    {errors later : List ValidationError}
    (ran : w.run (s.loadRows ctx errors) = ((.ok (some (inner, rows)), later), after)) :
    s.Loaded ctx inner rows := by
  cases (fetched_of_run ran).1 with
  | records single unnamed known => exact .records single unnamed _
  | @joined base types several typed =>
    have listed : ∀ level ∈ s.joins.zip types, level.1 ∈ s.joins := fun level member =>
      (List.of_mem_zip member).1
    refine .built several typed (joinedRows_builds _ listed fun row member => ?_)
    obtain ⟨r, -, rfl⟩ := List.mem_map.mp member
    exact .entryRow r

/-! ### The entries of joined rows -/

section
variable {s : Select} {ctx : Context} {base : TypeDef} {types : List TypeDef}

/-- A row has entries for the sources of its query only. -/
theorem Builds.keys (typed : s.Typed ctx.schema base types) {row : Record} (built : s.Builds row) :
    ∀ key ∈ Dict.keys row.fields, key ∈ Dict.keys (s.bindings base types) := by
  induction built with
  | entryRow r =>
    intro key listed
    obtain rfl : key = s.base.name := by simpa [Select.entryRow, Dict.keys] using listed
    exact mem_keys_bindings.mpr (.inl rfl)
  | @addEntry row built j inJoins entry ih =>
    intro key listed
    rcases (Dict.mem_keys_insert _ _ _ _).mp listed with rfl | before
    · rw [← List.map_fst_zip (Nat.le_of_eq typed.joins.length_eq)] at inJoins
      obtain ⟨level, paired, rfl⟩ := List.mem_map.mp inJoins
      exact mem_keys_bindings.mpr (.inr ⟨level, paired, rfl⟩)
    · exact ih key before

section
variable (typed : s.Typed ctx.schema base types) {source : String} {d : TypeDef}
  (resolves : { ctx with aliases := s.bindings base types }.scope.resolve? source = some d)
  (foreign : ∀ table ∈ s.tables, ctx.schema.get? table ≠ some d)

include typed resolves foreign

/-- A name of a type that a query does not read is no name of a source, nor of a type of one. -/
theorem unbound_of_foreign : Dict.get? (s.bindings base types) source = none ∧
    (s.bindings base types).find? (·.2 == source) = none := by
  -- A type that a name is bound to is found under its own name, as the type of a source.
  have notFound : ∀ entry ∈ s.bindings base types, ctx.schema.get? entry.2 ≠ some d := by
    intro entry bound found
    obtain ⟨table, listed, e, known, sameName⟩ := types_of_bindings typed entry bound
    rw [sameName, Schema.get?_own_name known] at found
    exact foreign table listed (known.trans found)
  rw [Scope.resolve?, Context.scope] at resolves
  cases bound : Dict.get? (s.bindings base types) source with
  | some typeName =>
    rw [bound] at resolves
    exact absurd resolves (notFound (source, typeName) (Dict.mem_of_get? bound))
  | none =>
    rw [bound] at resolves
    refine ⟨rfl, List.find?_eq_none.mpr fun entry listed same => ?_⟩
    obtain rfl : entry.2 = source := by simpa using same
    exact notFound entry listed resolves

/-- A joined row has no entry for a type that its query does not read. -/
theorem Builds.joinedEntry_none {row : Record} (built : s.Builds row) :
    Expr.joinedEntry? { ctx with aliases := s.bindings base types }.scope row source = none := by
  obtain ⟨unbound, noType⟩ := unbound_of_foreign typed resolves foreign
  have noEntry : Dict.get? row.fields source = none := by
    rw [Dict.get?_eq_none_iff]
    intro inRow
    exact (Dict.get?_eq_none_iff _ source).mp unbound (built.keys typed source inRow)
  rw [Expr.joinedEntry?, noEntry]
  change ((s.bindings base types).find? (·.2 == source)).bind _ = none
  rw [noType]
  rfl

theorem Builds.evalColumn {row : Record} (built : s.Builds row) (column : String) :
    let read := Expr.evalColumn { ctx with aliases := s.bindings base types }.scope (some row)
      source column
    read.faults ≠ [] ∨ read.value.raw = .null := by
  have value : Expr.readColumn { ctx with aliases := s.bindings base types }.scope row source
      column = .null := by
    rw [Expr.readColumn_joined bindings_ne_nil, built.joinedEntry_none typed resolves foreign]
    rfl
  rw [Expr.evalColumn]
  cases Expr.resolveColumn { ctx with aliases := s.bindings base types }.scope source column with
  | error fault => exact .inl (List.cons_ne_nil fault [])
  | ok origin => exact .inr value

end

end

end Select

/-! ### Columns of other types -/

namespace Statement

/-- The tables whose records the rows of a statement are made of. -/
def tables : Statement → List String
  | select s => s.tables
  | other => [other.table]

/-- Whether the rows of a statement are joined rows: there are joins, or the only table has a
name. -/
def Joined : Statement → Prop
  | select s => s.joins ≠ [] ∨ s.base.givenName ≠ none
  | _ => False

/-- A type is that of no table of a statement. -/
def Foreign (s : Statement) (schema : Schema) (d : TypeDef) : Prop :=
  ∀ table ∈ s.tables, schema.get? table ≠ some d

/-- The rows on which expressions of a statement are evaluated, each with the names in scope. -/
inductive EvaluatedOn (ctx : Context) : Statement → Scope → Record → Prop
  /-- The rows that a query loads. -/
  | loaded {s : Select} {inner : Context} {w after : World} {rows : List Record}
      {errors later : List ValidationError} {row : Record}
      (ran : w.run (s.loadRows ctx errors) = ((.ok (some (inner, rows)), later), after))
      (member : row ∈ rows) : EvaluatedOn ctx (select s) inner.scope row
  /-- The rows that the conditions of joins are evaluated on, which may not be kept. -/
  | candidate {s : Select} {base : TypeDef} {types : List TypeDef} {row : Record}
      (joins : s.joins ≠ []) (typed : s.Typed ctx.schema base types) (built : s.Builds row) :
      EvaluatedOn ctx (select s) { ctx with aliases := s.bindings base types }.scope row
  /-- The records that an update reads and writes. -/
  | record (u : Update) (r : Record) : EvaluatedOn ctx (update u) ctx.scope r

/-- On joined rows, a column of a type that is not read is null or reported. Where rows are the
records themselves, it is the record's own column of that name, if the other type has such a
column. -/
theorem foreign_column {engine : Engine} {stage : StageId} {s : Statement} {scope : Scope}
    {row : Record} (evaluated : s.EvaluatedOn (engine.context stage) scope row) {source : String}
    {d : TypeDef} (resolves : scope.resolve? source = some d) (foreign : s.Foreign engine.schema d)
    (column : String) :
    (s.Joined → (Expr.evalColumn scope (some row) source column).faults ≠ [] ∨
      (Expr.evalColumn scope (some row) source column).value.raw = .null) ∧
    (¬ s.Joined → Expr.evalColumn scope (some row) source column = match d.origin? column with
      | some origin => ⟨⟨row.cell column, some origin⟩, []⟩
      | none => .fault (.unknownColumn source column d.name d.availableColumns) .null) := by
  cases evaluated with
  | loaded ran member =>
    rcases Select.loaded_of_run ran with ⟨single, unnamed⟩ | ⟨joined, typed, built⟩
    · refine ⟨fun several => ?_, fun _ => Expr.evalColumn_plain rfl resolves row column⟩
      rcases several with joins | named
      · exact absurd single joins
      · exact absurd unnamed named
    · refine ⟨fun _ => ?_, fun single => absurd joined single⟩
      exact (built row member).evalColumn typed resolves foreign column
  | candidate joins typed built =>
    refine ⟨fun _ => ?_, fun single => absurd (.inl joins) single⟩
    exact built.evalColumn typed resolves foreign column
  | record u r =>
    refine ⟨False.elim, fun _ => ?_⟩
    exact Expr.evalColumn_plain rfl resolves row column

/-- An engine for users and teams. -/
def staffEngine : Engine :=
  { schema := .ofTypes
      [.ofFields "users" [.ofType "name" .string], .ofFields "teams" [.ofType "title" .string]]
    now := ⟨0, 0, 0⟩ }

/-- A world with one user and no team. -/
def staffWorld : World :=
  { store := Store.seed {} ⟨0, 0, 0⟩ "users" "u1" [("name", .str "Ann")]
    now := ⟨0, 0, 0⟩
    ids := fun _ => "new" }

/-- The identifiers of teams, asked of the users. -/
def teamIds : Select := { projections := [⟨.ref "teams" "id", none⟩], base := .ofTable "users" }

/-- The rename of the users who are a certain team. -/
def renamedTeam : Update :=
  { Update.ofTable "users" with
    assignments := [.to "name" (.literal (.str "Bob"))]
    filter := some (.comparison .eq (.ref "teams" "id") (.literal (.str "u1"))) }

/-- The query reads the user, and no team. -/
theorem teamIds_evaluatedOn :
    (select teamIds).EvaluatedOn (staffEngine.context ⟨1⟩) (staffEngine.context ⟨1⟩).scope
        (Record.create ⟨0, 0, 0⟩ "u1" [("name", .str "Ann")]) ∧
      (staffEngine.context ⟨1⟩).scope.resolve? "teams" =
        some (.ofFields "teams" [.ofType "title" .string]) ∧
      (select teamIds).Foreign staffEngine.schema
        (.ofFields "teams" [.ofType "title" .string]) := by
  have ran : staffWorld.run (teamIds.loadRows (staffEngine.context ⟨1⟩) []) =
      ((.ok (some (staffEngine.context ⟨1⟩,
        [Record.create ⟨0, 0, 0⟩ "u1" [("name", .str "Ann")]])), []), staffWorld) := rfl
  refine ⟨.loaded ran (List.mem_singleton_self _), by decide +kernel, ?_⟩
  rw [Foreign]
  decide +kernel

theorem foreign_column_teamIds :
    ∃ scope row d, (select teamIds).EvaluatedOn (staffEngine.context ⟨1⟩) scope row ∧
      scope.resolve? "teams" = some d ∧ (select teamIds).Foreign staffEngine.schema d ∧
      ¬ (select teamIds).Joined ∧
      (Expr.evalColumn scope (some row) "teams" "id").value.raw = .str "u1" := by
  obtain ⟨evaluated, resolves, foreign⟩ := teamIds_evaluatedOn
  have single : ¬ (select teamIds).Joined := by simp [Joined, teamIds, Source.ofTable]
  have reads := (foreign_column evaluated resolves foreign "id").2 single
  refine ⟨_, _, _, evaluated, resolves, foreign, single, ?_⟩
  rw [reads]
  rfl

/-- The identifier of a user passes for that of a team, silently, and an update changes the user. -/
theorem foreign_column_read :
    (¬ ∀ (engine : Engine) (stage : StageId) (s : Statement) (scope : Scope) (row : Record),
      s.EvaluatedOn (engine.context stage) scope row → ∀ source d,
        scope.resolve? source = some d → s.Foreign engine.schema d → ∀ column,
          (Expr.evalColumn scope (some row) source column).faults ≠ [] ∨
            (Expr.evalColumn scope (some row) source column).value.raw = .null) ∧
    (staffWorld.run (staffEngine.execute (.update renamedTeam))).1.toOption.map (·.committed) =
      some 1 := by
  refine ⟨fun reported => ?_, by decide +kernel⟩
  obtain ⟨evaluated, resolves, foreign⟩ := teamIds_evaluatedOn
  have refers : (staffEngine.context ⟨1⟩).scope.Refers "teams"
      (.ofFields "teams" [.ofType "title" .string]) := ⟨resolves, .inr (by decide +kernel)⟩
  have silent := reported _ _ _ _ _ evaluated _ _ resolves foreign "id"
  rw [Expr.evalColumn_eq refers] at silent
  rcases silent with faulty | null
  · exact faulty rfl
  · cases null

end Statement
end RecordQuery
