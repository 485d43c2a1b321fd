import RecordQuery.Engine
import RecordQuery.Proofs.Spellings

/-!
The letter case of names in statements does not matter. Most names are in lower case since they have
been read; what stays as it is written are the aliases of sources and the columns of an insertion.
They are put into lower case wherever they are used, and nothing else depends on them: a statement
is the same computation when they are in lower case (`Engine.execute_lowered`). So two trees that
differ in nothing but the letter case of names are both statements or both not, and executing them
is the same in every world (`Engine.execute_respelled`).
-/
namespace RecordQuery

theorem Source.name_lowered (s : Source) : s.lowered.name = s.name := by
  unfold Source.name lowered
  cases s.givenName with
  | none => rfl
  | some written => exact Text.lower_lower written

theorem Source.isNone_lowered (s : Source) :
    s.lowered.givenName.isNone = s.givenName.isNone := Option.isNone_map

theorem Join.source_name_lowered (j : Join) : j.lowered.source.name = j.source.name :=
  j.source.name_lowered

/-! ### Queries -/

namespace Select

theorem joinTypes_lowered (schema : Schema) (joins : List Join) :
    ∀ index, joinTypes schema index (joins.map Join.lowered) = joinTypes schema index joins := by
  induction joins with
  | nil => exact fun _ => rfl
  | cons j rest ih =>
    intro index
    rw [List.map_cons, joinTypes, joinTypes, ih]
    rfl

theorem zip_lowered (joins : List Join) (types : List TypeDef) :
    (joins.map Join.lowered).zip types =
      (joins.zip types).map fun entry => (entry.1.lowered, entry.2) := by
  rw [List.zip_map_left]
  rfl

theorem bindings_lowered (s : Select) (base : TypeDef) (types : List TypeDef) :
    s.lowered.bindings base types = s.bindings base types := by
  have named : ((s.lowered.joins.zip types).map fun entry =>
      (entry.1.source.name, entry.2.name)) =
        (s.joins.zip types).map fun entry => (entry.1.source.name, entry.2.name) := by
    rw [lowered, zip_lowered, List.map_map]
    exact List.map_congr_left fun entry _ =>
      congrArg (·, entry.2.name) entry.1.source_name_lowered
  rw [bindings, bindings, named]
  exact congrArg (fun name => Dict.ofEntries ((name, base.name) :: _)) s.base.name_lowered

theorem matchRows_lowered (scope : Scope) (j : Join) (path : String) (row : Record)
    (right : List Record) :
    matchRows scope j.lowered path row right = matchRows scope j path row right := by
  induction right with
  | nil => rfl
  | cons candidate rest ih =>
    rw [matchRows, matchRows, ih, j.source_name_lowered]
    rfl

theorem joinRows_lowered (scope : Scope) (j : Join) (path : String) (right rows : List Record) :
    joinRows scope j.lowered path right rows = joinRows scope j path right rows := by
  induction rows with
  | nil => rfl
  | cons row rest ih =>
    rw [joinRows, joinRows, ih, matchRows_lowered, j.source_name_lowered]
    rfl

theorem joinAll_lowered (ctx : Context) (levels : List (Join × TypeDef)) :
    ∀ index rows, joinAll ctx index (levels.map fun entry => (entry.1.lowered, entry.2)) rows =
      joinAll ctx index levels rows := by
  induction levels with
  | nil => exact fun _ _ => rfl
  | cons entry rest ih =>
    obtain ⟨j, d⟩ := entry
    intro index rows
    simp only [List.map_cons, joinAll, joinRows_lowered, ih]

theorem loadRows_lowered (s : Select) (ctx : Context) :
    s.lowered.loadRows ctx = s.loadRows ctx := by
  have count : s.lowered.joins.length = s.joins.length := List.length_map _
  have alone : s.lowered.joins.isEmpty = s.joins.isEmpty := List.isEmpty_map
  have joined (types : List TypeDef) (inner : Context) (index : Nat) (rows : List Record) :
      joinAll inner index (s.lowered.joins.zip types) rows =
        joinAll inner index (s.joins.zip types) rows := by
    rw [lowered, zip_lowered, joinAll_lowered]
  have base : s.lowered.base.name = s.base.name := s.base.name_lowered
  have given : s.lowered.base.givenName.isNone = s.base.givenName.isNone := s.base.isNone_lowered
  have types (schema : Schema) : joinTypes schema 0 s.lowered.joins = joinTypes schema 0 s.joins :=
    joinTypes_lowered schema s.joins 0
  unfold loadRows
  simp only [count, alone, joined, base, given, types, bindings_lowered]
  rfl

theorem executeEntries_lowered (s : Select) (ctx : Context) :
    s.lowered.executeEntries ctx = s.executeEntries ctx := by
  rw [executeEntries, executeEntries, loadRows_lowered]
  rfl

end Select

/-! ### Insertions -/

namespace Insert

theorem valueRows_lowered (s : Insert) (ctx : Context) :
    s.lowered.valueRows ctx = s.valueRows ctx := by
  have count : s.lowered.columns.length = s.columns.length := List.length_map _
  unfold valueRows
  rw [count]
  cases source : s.source with
  | values rows => simp only [lowered, source, RowSource.lowered]
  | query select =>
    simp only [lowered, source, RowSource.lowered, Select.executeEntries_lowered]

theorem stageColumn_lower (ctx : Context) (d : TypeDef) (path : String) (fields : Dict Json)
    (column : String) (value : Json) :
    stageColumn ctx d path fields (Text.lower column) value =
      stageColumn ctx d path fields column value := by
  rw [stageColumn, stageColumn, Text.lower_lower]

theorem stageColumns_lower (ctx : Context) (d : TypeDef) (path : String)
    (pairs : List (String × Json)) :
    ∀ fields, stageColumns ctx d path fields (pairs.map fun pair => (Text.lower pair.1, pair.2)) =
      stageColumns ctx d path fields pairs := by
  induction pairs with
  | nil => exact fun _ => rfl
  | cons pair rest ih =>
    obtain ⟨column, value⟩ := pair
    intro fields
    simp only [List.map_cons, stageColumns, stageColumn_lower, ih]

theorem missingFields_lower (d : TypeDef) (path : String) (columns : List String) :
    missingFields d path (columns.map Text.lower) = missingFields d path columns := by
  have same : (columns.map Text.lower).map Text.lower = columns.map Text.lower := by simp
  rw [missingFields, missingFields, same]

theorem stageRow_lowered (s : Insert) (ctx : Context) (d : TypeDef) (path : String)
    (values : List Json) :
    s.lowered.stageRow ctx d path values = s.stageRow ctx d path values := by
  have pairs : s.lowered.columns.zip values =
      (s.columns.zip values).map fun pair => (Text.lower pair.1, pair.2) := by
    rw [lowered, List.zip_map_left]
    rfl
  have columns : ((s.columns.zip values).map fun pair => (Text.lower pair.1, pair.2)).map Prod.fst =
      ((s.columns.zip values).map Prod.fst).map Text.lower := by simp
  rw [stageRow, stageRow, pairs, stageColumns_lower, columns, missingFields_lower]

theorem stageRows_lowered (s : Insert) (ctx : Context) (d : TypeDef)
    (rows : List (Option (List Json))) :
    ∀ index, s.lowered.stageRows ctx d index rows = s.stageRows ctx d index rows := by
  induction rows with
  | nil => exact fun _ => rfl
  | cons row rest ih =>
    intro index
    cases row with
    | none => exact ih (index + 1)
    | some values => simp only [stageRows, stageRow_lowered, ih]

end Insert

/-! ### Statements -/

theorem Statement.execute_lowered (s : Statement) (ctx : Context) :
    s.lowered.execute ctx = s.execute ctx := by
  cases s with
  | select s =>
    rw [lowered, execute, execute, Select.execute, Select.execute, Select.executeEntries_lowered]
  | insert s =>
    rw [lowered, execute, execute, Insert.execute, Insert.execute]
    simp only [Insert.valueRows_lowered, Insert.stageRows_lowered]
    rfl
  | update s => rfl

theorem Engine.execute_lowered (engine : Engine) (s : Statement) :
    engine.execute s.lowered = engine.execute s := by
  simp only [execute, Statement.execute_lowered]

/-- The trees of two statements differ at most in the letter case of names: with all names in lower
case they are the same tree. -/
def Statement.Respells (tree other : Json) : Prop :=
  tree.lowerNames (.choice .statement) = other.lowerNames (.choice .statement)

/-- The letter case of names does not matter. -/
theorem Engine.execute_respelled (engine : Engine) {tree other : Json}
    (respelled : Statement.Respells tree other) :
    (Statement.ofJson? tree).isSome = (Statement.ofJson? other).isSome ∧
      ∀ s t, Statement.ofJson? tree = some s → Statement.ofJson? other = some t →
        ∀ w : World, w.run (engine.execute s) = w.run (engine.execute t) := by
  have same : (Statement.ofJson? tree).map Statement.lowered =
      (Statement.ofJson? other).map Statement.lowered := by
    rw [← Statement.ofJson?_lowerNames, ← Statement.ofJson?_lowerNames, respelled]
  refine ⟨?_, fun s t read also w => ?_⟩
  · have both := congrArg Option.isSome same
    rwa [Option.isSome_map, Option.isSome_map] at both
  · rw [read, also, Option.map_some, Option.map_some] at same
    rw [← engine.execute_lowered s, Option.some.inj same, engine.execute_lowered t]

/-- The insertion of the names of people once more, in capitals. Its names may be spelled in many
ways. -/
def loudNames (people person name upper : String) : Json :=
  .obj
    [("kind", .str "insert"), ("table", .str people), ("columns", .arr [.str name]),
      ("source", .obj [("select", .obj
        [("projections", .arr [.obj [("expr", .obj
          [("kind", .str "function_call"), ("func", .str upper),
            ("args", .arr [.arr [.str "source_column", .str person, .str name]])])]]),
          ("from", .obj [("table", .str people), ("alias", .str person)])])])]

theorem lowerNames_loudNames (people person name upper : String) :
    (loudNames people person name upper).lowerNames (.choice .statement) =
      loudNames (Text.lower people) (Text.lower person) (Text.lower name) (Text.lower upper) := rfl

/-- An engine for people, who have a name. -/
def peopleEngine : Engine :=
  { schema := .ofTypes [.ofFields "people" [.ofType "name" .string]], now := ⟨0, 0, 0⟩ }

/-- A world with one person. -/
def peopleWorld : World :=
  { store := Store.seed {} ⟨0, 0, 0⟩ "people" "p1" [("name", .str "Ann")]
    now := ⟨0, 0, 0⟩
    ids := fun _ => "p2" }

/-- Two spellings of the insertion add the same person. -/
theorem Engine.execute_respelled_loudNames :
    Statement.Respells (loudNames "PEOPLE" "P" "Name" "Upper")
        (loudNames "people" "p" "name" "UPPER") ∧
      ∃ s t, Statement.ofJson? (loudNames "PEOPLE" "P" "Name" "Upper") = some s ∧
        Statement.ofJson? (loudNames "people" "p" "name" "UPPER") = some t ∧
        peopleWorld.run (peopleEngine.execute s) = peopleWorld.run (peopleEngine.execute t) ∧
        (peopleWorld.run (peopleEngine.execute s)).1.toOption.map (·.committed) = some 1 := by
  have respelled : Statement.Respells (loudNames "PEOPLE" "P" "Name" "Upper")
      (loudNames "people" "p" "name" "UPPER") := by
    have people : Text.lower "PEOPLE" = Text.lower "people" := by decide +kernel
    have person : Text.lower "P" = Text.lower "p" := by decide +kernel
    have name : Text.lower "Name" = Text.lower "name" := by decide +kernel
    have upper : Text.lower "Upper" = Text.lower "UPPER" := by decide +kernel
    rw [Statement.Respells, lowerNames_loudNames, lowerNames_loudNames, people, person, name, upper]
  obtain ⟨both, same⟩ := execute_respelled peopleEngine respelled
  have counted : (Statement.ofJson? (loudNames "PEOPLE" "P" "Name" "Upper")).map (fun s =>
      (peopleWorld.run (peopleEngine.execute s)).1.toOption.map (·.committed)) = some (some 1) := by
    decide +kernel
  obtain ⟨s, known, committed⟩ := Option.map_eq_some_iff.mp counted
  rw [known] at both
  obtain ⟨t, also⟩ := Option.isSome_iff_exists.mp both.symm
  exact ⟨respelled, s, t, known, also, same s t known also peopleWorld, committed⟩

end RecordQuery
