import RecordQuery.Engine
import RecordQuery.Proofs.Classes
import RecordQuery.Proofs.Columns
import RecordQuery.Proofs.Correspondence
import RecordQuery.Proofs.Loading

/-!
The columns of the rows that a query yields. Evaluating goes on whatever errors have been found, so
what a query makes of its rows is a function of them (`Select.answer_yields`), and each output row
is computed on a row, on a group of rows, or on nothing (`Select.ComputedOn`). A projection yields
one column under its own name, unless it is a whole row without a name: then it yields the columns
that this row has. So the rows of a query have one header as far as those that each whole row is
taken from have the same columns (`Select.one_header`), and then the insertion of a query takes each
column from one place.
-/
namespace RecordQuery

/-! ### Values of logs -/

namespace Log
variable {α β : Type}

/-- The computation yields a value whatever errors it finds. -/
def Yields (x : Log α) (a : α) : Prop := ∀ errors, (x.run errors).1 = a

theorem yields_pure (a : α) : Yields (pure a) a := fun _ => rfl

theorem yields_within (clause : String) (x : Reported α) : (within clause x).Yields x.value :=
  fun _ => rfl

theorem Yields.bind {x : Log α} {a : α} {f : α → Log β} {b : β} (first : x.Yields a)
    (second : (f a).Yields b) : (x >>= f).Yields b := by
  intro errors
  have rest := second (x.run errors).2
  rw [← first errors] at rest
  exact rest

theorem Yields.mapM {f : α → Log β} {g : α → β} (each : ∀ a, (f a).Yields (g a)) (items : List α) :
    (items.mapM f).Yields (items.map g) := by
  induction items with
  | nil => rw [List.mapM_nil]; exact yields_pure []
  | cons a rest ih =>
    rw [List.mapM_cons]
    exact (each a).bind (ih.bind (yields_pure _))

theorem Yields.foldlM {f : β → α → Log β} {g : β → α → β} (each : ∀ b a, (f b a).Yields (g b a))
    (items : List α) : ∀ b, (items.foldlM f b).Yields (items.foldl g b) := by
  induction items with
  | nil => intro b; exact yields_pure b
  | cons a rest ih =>
    intro b
    rw [List.foldlM_cons]
    exact (each b a).bind (ih (g b a))

theorem Yields.filterM {p : α → Log Bool} {q : α → Bool} (each : ∀ a, (p a).Yields (q a))
    (items : List α) : (items.filterM p).Yields (items.filter q) := by
  -- The loop collects in reverse, on top of what it has found before.
  have kept : ∀ found, (items.filterAuxM p found).Yields ((items.filter q).reverse ++ found) := by
    induction items with
    | nil => intro found; exact yields_pure found
    | cons a rest ih =>
      intro found
      refine (each a).bind ?_
      cases keep : q a with
      | false =>
        rw [List.filter_cons_of_neg (by simp [keep])]
        exact ih found
      | true =>
        rw [List.filter_cons_of_pos keep, List.reverse_cons, List.append_assoc]
        exact ih (a :: found)
  refine (kept []).bind ?_
  rw [List.append_nil, List.reverse_reverse]
  exact yields_pure _

end Log

/-! ### Output columns -/

namespace Projection

/-- The output columns of a projection that has a value. -/
def columns (p : Projection) (value : Json) : Entries :=
  match value with
  | .obj members => if p.isWildcard then members else [(p.name, .obj members)]
  | raw => [(p.name, raw)]

/-- The names of the columns of a projection, where a whole row without a name has given ones. -/
def header (p : Projection) (spread : List String) : List String :=
  if p.isWildcard then spread else [p.name]

/-- The names of the columns that a projection has on a row, if there is one. -/
def spread (scope : Scope) (row : Option Record) (p : Projection) : List String :=
  (p.columns (p.expr.eval scope row none).value.raw).map Prod.fst

theorem names_columns {p : Projection} (single : p.isWildcard = false) (value : Json) :
    (p.columns value).map Prod.fst = [p.name] := by
  cases value <;> simp [columns, single]

theorem eval_of_isWildcard {p : Projection} (wildcard : p.isWildcard = true) (scope : Scope)
    (row : Option Record) (group : Option (List Record)) :
    p.expr.eval scope row group = p.expr.eval scope row none := by
  obtain ⟨expr, givenName⟩ := p
  cases givenName with
  | some name => cases wildcard
  | none =>
    cases expr with
    | column source name => rw [Expr.eval, Expr.eval]
    | _ => cases wildcard

end Projection

section
variable (scope : Scope) (row : Option Record) (group : Option (List Record))

theorem projectOne_yields (path : String) (p : Projection) :
    (projectOne scope row group path p).Yields
      (p.columns (p.expr.eval scope row group).value.raw) :=
  (Log.yields_within path (p.expr.eval scope row group)).bind (Log.yields_pure _)

theorem projectFrom_yields (clause : String) (ps : List Projection) :
    ∀ index, (projectFrom scope row group clause index ps).Yields
      (ps.flatMap fun p => p.columns (p.expr.eval scope row group).value.raw) := by
  induction ps with
  | nil => intro index; exact Log.yields_pure []
  | cons p rest ih =>
    intro index
    exact (projectOne_yields scope row group _ p).bind ((ih (index + 1)).bind (Log.yields_pure _))

end

namespace Select

/-- The output row of a row or of a group. -/
def computed (s : Select) (scope : Scope) (row : Option Record) (group : Option (List Record)) :
    Output where
  sortValues := s.orderBy.map fun key => (key.expr.eval scope row group).value.raw
  entries := s.projections.flatMap fun p => p.columns (p.expr.eval scope row group).value.raw

/-- The rows that pass the condition of a query. -/
def kept (s : Select) (scope : Scope) (rows : List Record) : List Record :=
  match s.filter with
  | none => rows
  | some e => rows.filter fun row => (e.passes scope (some row) none).value

/-- Rows in groups, as a function. -/
def groupsOf (scope : Scope) (exprs : List Expr) (rows : List Record) : List (List Record) :=
  if exprs.isEmpty then [rows]
  else
    (rows.foldl (fun groups row =>
      addToGroup (Json.arr (Expr.evalAll scope (some row) none exprs).value).text row groups)
      []).map (·.2)

/-- The values of the keys on a row. -/
def keyTuple (scope : Scope) (exprs : List Expr) (row : Record) : List Json :=
  (Expr.evalAll scope (some row) none exprs).value

theorem groupsOf_eq (scope : Scope) {exprs : List Expr} (given : exprs ≠ []) (rows : List Record) :
    groupsOf scope exprs rows =
      classes (fun row => (Json.arr (keyTuple scope exprs row)).text) rows := by
  rw [groupsOf, if_neg (by simpa using given)]
  exact foldl_addToGroup (fun row => (Json.arr (keyTuple scope exprs row)).text) rows

/-- The output rows of a query before sorting, as a function of the rows that pass. -/
def outputs (s : Select) (scope : Scope) (rows : List Record) : List Output :=
  if s.isAggregated then
    (groupsOf scope s.groupBy rows).map fun members =>
      s.computed scope members.head? (some members)
  else rows.map fun row => s.computed scope (some row) none

/-- The output columns of a query, as a function of the rows that it has loaded. -/
def entriesOf (s : Select) (scope : Scope) (rows : List Record) : List Entries :=
  (slice s.offset s.limit (sortRows s.orderBy (s.outputs scope (s.kept scope rows)))).map
    (·.entries)

section
variable (s : Select) (scope : Scope) (rows : List Record)

theorem outputRow_yields (row : Option Record) (group : Option (List Record)) :
    (s.outputRow scope row group).Yields (s.computed scope row group) := by
  have one (key : SortKey) : Log.Yields
      (do return (← Log.within "select.order_by" (key.expr.eval scope row group)).raw)
      (key.expr.eval scope row group).value.raw :=
    (Log.yields_within _ (key.expr.eval scope row group)).bind (Log.yields_pure _)
  have values : (sortValues scope s.orderBy row group).Yields
      (s.orderBy.map fun key => (key.expr.eval scope row group).value.raw) :=
    Log.Yields.mapM one s.orderBy
  exact (projectFrom_yields scope row group _ s.projections 0).bind
    (values.bind (Log.yields_pure _))

theorem filterRows_yields : (filterRows scope s.filter rows).Yields (s.kept scope rows) := by
  rw [filterRows.eq_def, kept]
  cases s.filter with
  | none => exact Log.yields_pure rows
  | some e =>
    have one (row : Record) := Log.yields_within "select.where" (e.passes scope (some row) none)
    exact Log.Yields.filterM one rows

theorem groupRows_yields (exprs : List Expr) :
    (groupRows scope exprs rows).Yields (groupsOf scope exprs rows) := by
  rw [groupRows, groupsOf]
  split
  · exact Log.yields_pure [rows]
  · have key (row : Record) : (groupKey scope exprs row).Yields
        (Json.arr (Expr.evalAll scope (some row) none exprs).value).text :=
      (Log.yields_within _ _).bind (Log.yields_pure _)
    refine (Log.Yields.foldlM (fun groups row => ?_) rows []).bind (Log.yields_pure _)
    exact (key row).bind (Log.yields_pure _)

theorem outputRows_yields : (s.outputRows scope rows).Yields (s.outputs scope rows) := by
  rw [outputRows, outputs]
  split
  · exact (groupRows_yields scope rows s.groupBy).bind
      (Log.Yields.mapM (fun members => s.outputRow_yields scope _ _) _)
  · exact Log.Yields.mapM (fun row => s.outputRow_yields scope _ _) rows

theorem answer_yields : (s.answer scope rows).Yields (s.entriesOf scope rows) :=
  (s.filterRows_yields scope rows).bind
    ((s.outputRows_yields scope (s.kept scope rows)).bind (Log.yields_pure _))

end

/-! ### What output rows are computed on -/

/-- What an output row is computed on: a row, a group with its first row, or the group of all rows
where there are none. -/
inductive ComputedOn (rows : List Record) : Option Record → Option (List Record) → Prop
  | row {r : Record} (member : r ∈ rows) : ComputedOn rows (some r) none
  | group {r : Record} {members : List Record} (inside : r :: members ⊆ rows) :
    ComputedOn rows (some r) (some (r :: members))
  | nothing (empty : rows = []) : ComputedOn rows none (some [])

theorem ComputedOn.cases {rows : List Record} {row : Option Record}
    {group : Option (List Record)} (computed : ComputedOn rows row group) :
    (∃ r ∈ rows, row = some r) ∨ rows = [] ∧ row = none := by
  cases computed with
  | row member => exact .inl ⟨_, member, rfl⟩
  | group inside => exact .inl ⟨_, inside List.mem_cons_self, rfl⟩
  | nothing empty => exact .inr ⟨empty, rfl⟩

theorem exists_of_mem_outputs {s : Select} {scope : Scope} {rows : List Record} {output : Output}
    (member : output ∈ s.outputs scope rows) :
    ∃ row group, ComputedOn rows row group ∧ output = s.computed scope row group := by
  rw [outputs] at member
  split at member
  · obtain ⟨members, listed, rfl⟩ := List.mem_map.mp member
    by_cases keys : s.groupBy = []
    · rw [keys] at listed
      obtain rfl := List.mem_singleton.mp listed
      cases members with
      | nil => exact ⟨none, some [], .nothing rfl, rfl⟩
      | cons r rest => exact ⟨some r, some (r :: rest), .group (List.Subset.refl _), rfl⟩
    · rw [groupsOf_eq scope keys] at listed
      have inside := (sublist_of_mem_classes _ listed).subset
      obtain ⟨r, rest, rfl⟩ := List.exists_cons_of_ne_nil (ne_nil_of_mem_classes _ listed)
      exact ⟨some r, some (r :: rest), .group inside, rfl⟩
  · obtain ⟨r, listed, rfl⟩ := List.mem_map.mp member
    exact ⟨some r, none, .row listed, rfl⟩

theorem mem_of_mem_slice {α : Type} {offset limit : Option Nat} {items : List α} {a : α}
    (member : a ∈ slice offset limit items) : a ∈ items := by
  cases limit with
  | none => exact List.mem_of_mem_drop member
  | some n => exact List.mem_of_mem_drop (List.mem_of_mem_take member)

/-- Sorting and cutting leave each output row as it was computed. -/
theorem exists_of_mem_entriesOf {s : Select} {scope : Scope} {rows : List Record}
    {entries : Entries} (member : entries ∈ s.entriesOf scope rows) :
    ∃ row group, ComputedOn (s.kept scope rows) row group ∧
      entries = s.projections.flatMap
        fun p => p.columns (p.expr.eval scope row group).value.raw := by
  obtain ⟨output, cut, rfl⟩ := List.mem_map.mp member
  have unsorted : output ∈ s.outputs scope (s.kept scope rows) :=
    List.mem_mergeSort.mp (mem_of_mem_slice cut)
  obtain ⟨row, group, on, rfl⟩ := exists_of_mem_outputs unsorted
  exact ⟨row, group, on, rfl⟩

/-! ### Headers -/

/-- The names of the columns of a query, where whole rows without a name have given ones. -/
def headerOf (s : Select) (names : Projection → List String) : List String :=
  s.projections.flatMap fun p => p.header (names p)

/-- A row of output columns, computed on something that passes, in which the projections have given
names. -/
def RowOf (s : Select) (scope : Scope) (rows : List Record) (names : Projection → List String)
    (entries : Entries) : Prop :=
  ∃ row group, ComputedOn (s.kept scope rows) row group ∧
    entries = s.projections.flatMap
      (fun p => p.columns (p.expr.eval scope row group).value.raw) ∧
    ∀ p ∈ s.projections,
      (p.columns (p.expr.eval scope row group).value.raw).map Prod.fst = p.header (names p)

/-- Each whole row without a name has the same columns in all rows that pass. -/
def Uniform (s : Select) (scope : Scope) (rows : List Record) : Prop :=
  ∀ p ∈ s.projections, p.isWildcard = true → ∀ r ∈ s.kept scope rows, ∀ r' ∈ s.kept scope rows,
    p.spread scope (some r) = p.spread scope (some r')

section
variable {s : Select} {scope : Scope} {rows : List Record}

theorem RowOf.names {names : Projection → List String} {entries : Entries}
    (rowOf : s.RowOf scope rows names entries) : entries.map Prod.fst = s.headerOf names := by
  obtain ⟨row, group, -, rfl, headers⟩ := rowOf
  rw [List.map_flatMap, headerOf, List.flatMap_def, List.flatMap_def, List.map_congr_left headers]

theorem names_of_eval (p : Projection) (row : Option Record) (group : Option (List Record)) :
    (p.columns (p.expr.eval scope row group).value.raw).map Prod.fst =
      p.header (p.spread scope row) := by
  by_cases wildcard : p.isWildcard = true
  · rw [Projection.eval_of_isWildcard wildcard, Projection.header, if_pos wildcard,
      Projection.spread]
  · rw [Projection.names_columns (Bool.eq_false_iff.mpr wildcard), Projection.header,
      if_neg wildcard]

theorem Uniform.header_eq (uniform : s.Uniform scope rows) {p : Projection}
    (listed : p ∈ s.projections) {row : Option Record} {group : Option (List Record)}
    (computed : ComputedOn (s.kept scope rows) row group) :
    p.header (p.spread scope row) = p.header (p.spread scope (s.kept scope rows).head?) := by
  by_cases wildcard : p.isWildcard = true
  · congr 1
    rcases computed.cases with ⟨r, member, rfl⟩ | ⟨empty, rfl⟩
    · obtain ⟨first, rest, found⟩ := List.exists_cons_of_ne_nil (List.ne_nil_of_mem member)
      have firstKept : first ∈ s.kept scope rows := by rw [found]; exact List.mem_cons_self
      rw [uniform p listed wildcard r member first firstKept, found, List.head?_cons]
    · rw [empty, List.head?_nil]
  · rw [Projection.header, Projection.header, if_neg wildcard, if_neg wildcard]

theorem kept_subset : s.kept scope rows ⊆ rows := by
  rw [kept]
  cases s.filter with
  | none => exact List.Subset.refl rows
  | some e => exact fun r member => List.mem_of_mem_filter member

/-- Without names for sources, whole rows have the same columns if all records have. -/
theorem uniform_of_records (plain : scope.aliases = [])
    (same : ∀ r ∈ rows, ∀ r' ∈ rows, Dict.keys r.toRow = Dict.keys r'.toRow) :
    s.Uniform scope rows := by
  intro p _ wildcard r member r' member'
  have equal := same r (kept_subset member) r' (kept_subset member')
  have value (r : Record) (source : String) : Expr.readColumn scope r source "*" = .obj r.toRow :=
    Expr.readColumn_plain plain r source "*"
  obtain ⟨expr, givenName⟩ := p
  cases givenName with
  | some name => cases wildcard
  | none =>
    cases expr with
    | column source name =>
      obtain rfl : name = "*" := beq_iff_eq.mp wildcard
      rw [Projection.spread, Projection.spread, Expr.eval, Expr.eval, Expr.evalColumn,
        Expr.evalColumn]
      cases Expr.resolveColumn scope source "*" with
      | error fault => rfl
      | ok origin =>
        simp only [value]
        exact equal
    | _ => cases wildcard

end

end Select

/-! ### Queries and the insertion of their rows -/

namespace Insert

theorem checkArity_yields (expected index : Nat) (values : List Json) :
    (checkArity expected index values).Yields
      (if values.length = expected then some values else none) := by
  rw [checkArity]
  split
  · exact Log.yields_pure _
  · exact Log.Yields.bind (fun _ => rfl) (Log.yields_pure none)

/-- The values of each row with as many columns as there are to fill; the others are reported. -/
theorem queryRows_yields (expected : Nat) (rows : List Entries) : ∀ index,
    (queryRows expected index rows).Yields (rows.map fun entries =>
      if entries.length = expected then some (entries.map Prod.snd) else none) := by
  induction rows with
  | nil => intro index; exact Log.yields_pure []
  | cons entries rest ih =>
    intro index
    rw [List.map_cons, ← List.length_map Prod.snd]
    exact (checkArity_yields expected index _).bind ((ih (index + 1)).bind (Log.yields_pure _))

/-- The values of each row with an expression for each column to fill; the others are reported. -/
theorem literalRows_yields (scope : Scope) (expected : Nat) (rows : List (List Expr)) : ∀ index,
    (literalRows scope expected index rows).Yields (rows.map fun row =>
      if row.length = expected then some (Expr.evalAll scope none none row).value else none) := by
  induction rows with
  | nil => intro index; exact Log.yields_pure []
  | cons row rest ih =>
    intro index
    have more (values : Option (List Json)) :
        Log.Yields (do return values :: (← literalRows scope expected (index + 1) rest))
          (values :: rest.map fun row =>
            if row.length = expected then some (Expr.evalAll scope none none row).value
            else none) :=
      (ih (index + 1)).bind (Log.yields_pure _)
    rw [literalRows, List.map_cons]
    by_cases full : row.length = expected
    · rw [if_pos full, if_pos full]
      exact Log.Yields.bind (fun _ => rfl) (more _)
    · rw [if_neg full, if_neg full]
      exact Log.Yields.bind (fun _ => rfl) (more none)

theorem run_valueRows {i : Insert} {s : Select} (inserts : i.source = .query s) {ctx : Context}
    {w after : World} {outputs : List Entries} {errors later : List ValidationError}
    (ran : w.run (s.executeEntries ctx errors) = ((.ok (some outputs), later), after)) :
    ∃ final, w.run (i.valueRows ctx errors) =
      ((.ok (outputs.map fun entries =>
        if entries.length = i.columns.length then some (entries.map Prod.snd) else none), final),
        after) := by
  refine ⟨((queryRows i.columns.length 0 outputs).run
    (scopeErrors errors.length "insert" later)).2, ?_⟩
  rw [valueRows, inserts]
  dsimp only
  rw [Exec.run_bind (Exec.run_within ran "insert"), Exec.run_log, Option.getD_some,
    queryRows_yields _ outputs 0]

end Insert

namespace Select

theorem run_executeEntries {s : Select} {ctx inner : Context} {w after : World}
    {rows : List Record} {errors later : List ValidationError}
    (ran : w.run (s.loadRows { ctx with aliases := [] } errors) =
      ((.ok (some (inner, rows)), later), after)) :
    w.run (s.executeEntries ctx errors) =
      ((.ok (some (s.entriesOf inner.scope rows)), ((s.answer inner.scope rows).run later).2),
        after) := by
  rw [← s.answer_yields inner.scope rows later, executeEntries, Exec.run_bind ran]
  rfl

/-- Output rows are what a query makes of the rows that it has loaded. -/
theorem run_executeEntries_inv {s : Select} {ctx : Context} {w after : World}
    {outputs : List Entries} {errors later : List ValidationError}
    (ran : w.run (s.executeEntries ctx errors) = ((.ok (some outputs), later), after)) :
    ∃ inner rows found, w.run (s.loadRows { ctx with aliases := [] } errors) =
        ((.ok (some (inner, rows)), found), after) ∧
      outputs = s.entriesOf inner.scope rows := by
  have answered := ran
  rw [executeEntries] at answered
  obtain ⟨reply, found, between, loaded, rest⟩ := Exec.run_bind_inv answered
  rcases reply with _ | ⟨inner, rows⟩
  · cases rest
  · rw [run_executeEntries loaded] at ran
    cases ran
    exact ⟨inner, rows, found, loaded, rfl⟩

/-- Each projection of a query yields one column under its own name in every row, but a whole row
without a name yields the columns of the row that it is taken from. Where these are the same for all
rows that pass, all rows of the query have one header, with each projection in the same places; an
insertion of the query then takes each column from one place, and from all rows or from none, as the
header has as many names as there are columns to fill or not. -/
theorem one_header {s : Select} {ctx : Context} {w after : World} {outputs : List Entries}
    {errors later : List ValidationError}
    (ran : w.run (s.executeEntries ctx errors) = ((.ok (some outputs), later), after)) :
    ∃ inner rows found, w.run (s.loadRows { ctx with aliases := [] } errors) =
        ((.ok (some (inner, rows)), found), after) ∧
      (∀ entries ∈ outputs, ∃ names, s.RowOf inner.scope rows names entries) ∧
      (s.Uniform inner.scope rows → ∃ names,
        (∀ entries ∈ outputs, s.RowOf inner.scope rows names entries ∧
          entries.map Prod.fst = s.headerOf names) ∧
        ∀ i : Insert, i.source = .query s → ∃ final, w.run (i.valueRows ctx errors) =
          ((.ok (outputs.map fun entries =>
            if (s.headerOf names).length = i.columns.length then some (entries.map Prod.snd)
            else none), final), after)) := by
  obtain ⟨inner, rows, found, loaded, rfl⟩ := run_executeEntries_inv ran
  refine ⟨inner, rows, found, loaded, fun entries member => ?_, fun uniform => ?_⟩
  · obtain ⟨row, group, on, rfl⟩ := exists_of_mem_entriesOf member
    exact ⟨fun p => p.spread inner.scope row, row, group, on, rfl,
      fun p _ => names_of_eval p row group⟩
  · -- The first row that passes stands for all; without one, rows are computed on nothing.
    refine ⟨fun p => p.spread inner.scope (s.kept inner.scope rows).head?, ?_⟩
    have rowOf : ∀ entries ∈ s.entriesOf inner.scope rows, s.RowOf inner.scope rows
        (fun p => p.spread inner.scope (s.kept inner.scope rows).head?) entries := by
      intro entries member
      obtain ⟨row, group, on, rfl⟩ := exists_of_mem_entriesOf member
      refine ⟨row, group, on, rfl, fun p listed => ?_⟩
      rw [names_of_eval, uniform.header_eq listed on]
    refine ⟨fun entries member => ⟨rowOf entries member, (rowOf entries member).names⟩, ?_⟩
    intro i inserts
    obtain ⟨last, filled⟩ := Insert.run_valueRows inserts ran
    refine ⟨last, filled.trans ?_⟩
    have same (entries : Entries) (member : entries ∈ s.entriesOf inner.scope rows) :
        entries.length = (s.headerOf fun p =>
          p.spread inner.scope (s.kept inner.scope rows).head?).length := by
      rw [← (rowOf entries member).names, List.length_map]
    have values : (s.entriesOf inner.scope rows).map (fun entries : Entries =>
          if entries.length = i.columns.length then some (entries.map Prod.snd) else none) =
        (s.entriesOf inner.scope rows).map fun entries : Entries =>
          if (s.headerOf fun p => p.spread inner.scope (s.kept inner.scope rows).head?).length =
            i.columns.length then some (entries.map Prod.snd) else none :=
      List.map_congr_left fun entries member => by rw [same entries member]
    rw [values]

/-- All columns of all users. -/
def everyUser : Select := { projections := [⟨.ref "users" "*", none⟩], base := .ofTable "users" }

/-- The insertion of all columns of all users, in the order of a user with a name. -/
def copiedUsers : Insert :=
  { table := "users", columns := ["id", "created", "updated", "name"], source := .query everyUser }

/-- A context for users, who may have an age. -/
def usersContext : Context where
  schema := .ofTypes [.ofFields "users" [.ofType "name" .string, .ofType "age" .number]]
  stage := ⟨1⟩
  now := ⟨0, 0, 0⟩

/-- A world with two users of given fields. -/
def usersWorld (first second : Dict Json) : World :=
  let now : Calendar.Instant := ⟨0, 0, 0⟩
  { store := (Store.seed {} now "users" "u1" first).seed now "users" "u2" second
    now
    ids := fun _ => "new" }

theorem run_everyUser (first second : Dict Json) :
    (usersWorld first second).run (everyUser.loadRows { usersContext with aliases := [] } []) =
      ((.ok (some (usersContext,
        [Record.create ⟨0, 0, 0⟩ "u1" first, Record.create ⟨0, 0, 0⟩ "u2" second])), []),
        usersWorld first second) := rfl

theorem sortRows_nil (rows : List Output) : sortRows [] rows = rows :=
  List.mergeSort_of_pairwise (List.pairwise_of_forall fun _ _ => rfl)

theorem entriesOf_everyUser (first second : Record) :
    everyUser.entriesOf usersContext.scope [first, second] =
      [(everyUser.computed usersContext.scope (some first) none).entries,
        (everyUser.computed usersContext.scope (some second) none).entries] := by
  rw [entriesOf, show everyUser.orderBy = [] from rfl, sortRows_nil]
  rfl

theorem one_header_everyUser :
    ∃ outputs final names,
      (usersWorld [("name", .str "Ann")] [("name", .str "Bob")]).run
          (everyUser.executeEntries usersContext []) =
        ((.ok (some outputs), final), usersWorld [("name", .str "Ann")] [("name", .str "Bob")]) ∧
      outputs.length = 2 ∧ everyUser.headerOf names = ["id", "created", "updated", "name"] ∧
      (∀ entries ∈ outputs, entries.map Prod.fst = everyUser.headerOf names) ∧
      ∃ last, (usersWorld [("name", .str "Ann")] [("name", .str "Bob")]).run
          (copiedUsers.valueRows usersContext []) =
        ((.ok (outputs.map fun entries =>
          if (everyUser.headerOf names).length = copiedUsers.columns.length then
            some (entries.map Prod.snd) else none), last),
          usersWorld [("name", .str "Ann")] [("name", .str "Bob")]) := by
  have loads := run_everyUser [("name", .str "Ann")] [("name", .str "Bob")]
  have answered := run_executeEntries loads
  obtain ⟨inner, rows, found, loaded, -, together⟩ := one_header answered
  have same := Except.ok.inj (congrArg (·.1.1) (loads.symm.trans loaded))
  obtain ⟨rfl, rfl⟩ := Prod.mk.inj (Option.some.inj same)
  obtain ⟨names, header, inserted⟩ := together (uniform_of_records rfl (by decide))
  rw [entriesOf_everyUser] at answered header inserted
  refine ⟨_, _, names, answered, rfl, ?_, fun entries member => (header entries member).2,
    inserted copiedUsers rfl⟩
  rw [← (header _ List.mem_cons_self).2]
  decide +kernel

/-- A user with an age has a column more than one without, and an insertion of both takes one of
them only. -/
theorem headers_differ :
    (¬ ∀ (s : Select) (ctx : Context) (w after : World) (outputs : List Entries)
        (later : List ValidationError),
      w.run (s.executeEntries ctx []) = ((.ok (some outputs), later), after) →
        ∀ a ∈ outputs, ∀ b ∈ outputs, a.map Prod.fst = b.map Prod.fst) ∧
    ∃ taken final, (usersWorld [("name", .str "Ann"), ("age", .num (.int 30))]
          [("name", .str "Bob")]).run (copiedUsers.valueRows usersContext []) =
        ((.ok taken, final),
          usersWorld [("name", .str "Ann"), ("age", .num (.int 30))] [("name", .str "Bob")]) ∧
      taken.map Option.isSome = [false, true] := by
  have answered := run_executeEntries (run_everyUser
    [("name", .str "Ann"), ("age", .num (.int 30))] [("name", .str "Bob")])
  rw [entriesOf_everyUser] at answered
  constructor
  · intro oneHeader
    have same := oneHeader _ _ _ _ _ _ answered _ List.mem_cons_self _
      (List.mem_cons_of_mem _ List.mem_cons_self)
    exact absurd same (by decide +kernel)
  · obtain ⟨last, taken⟩ := Insert.run_valueRows (i := copiedUsers) rfl answered
    exact ⟨_, last, taken, by decide +kernel⟩

end Select

end RecordQuery
