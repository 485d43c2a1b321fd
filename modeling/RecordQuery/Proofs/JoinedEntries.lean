import RecordQuery.Proofs.ForeignColumns
import RecordQuery.Proofs.NestedLoop

/-!
What joined rows hold of their sources. Every row is joined from a tuple with one place for each
source, in the order of the sources: a record that the query reads of it, or none where a left join
finds no match (`Tuple.Continues`). The row gets one entry for each place, under the name of the
source, and of entries under one name the last one is kept. So no source is lost, and each can be
read by its name, exactly where all sources have different names
(`Select.joined_row_entries`).
-/
namespace RecordQuery

/-! ### Rows of tuples -/

namespace Tuple

/-- The joined row of a tuple that starts with the given record. -/
def row (first : Record) (t : Tuple) : Record := { first with fields := Dict.ofEntries t.entries }

/-- A tuple with one more place, for the source of a join. -/
def add (t : Tuple) (j : Join) (d : TypeDef) (r : Option Record) : Tuple :=
  t ++ [(⟨j.source.name, d⟩, r)]

theorem row_add (first : Record) (t : Tuple) (j : Join) (d : TypeDef) (r : Option Record) :
    (t.add j d r).row first = Select.addEntry (t.row first) j.source.name (shown r) := by
  rw [row, add, entries_concat, Dict.ofEntries_concat]
  rfl

/-- Whether the condition of a join is true on the row of a tuple. -/
def Passes (scope : Scope) (first : Record) (j : Join) (t : Tuple) : Prop :=
  (j.on.passes scope (some (t.row first)) none).value = true

/-- How joins continue a tuple: by a record on which the condition is true, or, in a left join for
which there is none, by no record. -/
inductive Continues (scope : Scope) (reads : TypeDef → List Record) (first : Record) :
    List (Join × TypeDef) → Tuple → Tuple → Prop
  | done (t : Tuple) : Continues scope reads first [] t t
  | found {j : Join} {d : TypeDef} {rest : List (Join × TypeDef)} {t whole : Tuple} {r : Record}
      (listed : r ∈ reads d) (passes : (t.add j d (some r)).Passes scope first j)
      (more : Continues scope reads first rest (t.add j d (some r)) whole) :
    Continues scope reads first ((j, d) :: rest) t whole
  | missing {j : Join} {d : TypeDef} {rest : List (Join × TypeDef)} {t whole : Tuple}
      (left : j.kind = .left)
      (alone : ∀ r ∈ reads d, ¬ (t.add j d (some r)).Passes scope first j)
      (more : Continues scope reads first rest (t.add j d none) whole) :
    Continues scope reads first ((j, d) :: rest) t whole

section
variable {scope : Scope} {reads : TypeDef → List Record} {first : Record}

theorem Continues.bindings {levels : List (Join × TypeDef)} {t whole : Tuple}
    (continues : Continues scope reads first levels t whole) :
    whole.map Prod.fst =
      t.map Prod.fst ++ levels.map fun level => ⟨level.1.source.name, level.2⟩ := by
  induction continues with
  | done t => rw [List.map_nil, List.append_nil]
  | found _ _ _ ih => rw [ih, add, List.map_append, List.append_assoc]; rfl
  | missing _ _ _ ih => rw [ih, add, List.map_append, List.append_assoc]; rfl

theorem Continues.records {levels : List (Join × TypeDef)} {t whole : Tuple}
    (continues : Continues scope reads first levels t whole)
    (start : ∀ entry ∈ t, ∀ r, entry.2 = some r → r ∈ reads entry.1.type) :
    ∀ entry ∈ whole, ∀ r, entry.2 = some r → r ∈ reads entry.1.type := by
  induction continues with
  | done t => exact start
  | found listed _ _ ih =>
    refine ih fun entry member r isRecord => ?_
    rcases List.mem_append.mp member with old | new
    · exact start entry old r isRecord
    · obtain rfl := List.mem_singleton.mp new
      cases isRecord
      exact listed
  | missing _ _ _ ih =>
    refine ih fun entry member r isRecord => ?_
    rcases List.mem_append.mp member with old | new
    · exact start entry old r isRecord
    · obtain rfl := List.mem_singleton.mp new
      cases isRecord

/-- A join extends the row of a tuple to rows of tuples with one more place. -/
theorem exists_of_mem_extensions {j : Join} {d : TypeDef} {t : Tuple} {joined : Record}
    (member : joined ∈ Select.extensions scope j (reads d) (t.row first)) :
    (∃ r ∈ reads d, (t.add j d (some r)).Passes scope first j ∧
      joined = (t.add j d (some r)).row first) ∨
    j.kind = .left ∧ (∀ r ∈ reads d, ¬ (t.add j d (some r)).Passes scope first j) ∧
      joined = (t.add j d none).row first := by
  rw [Select.extensions] at member
  split at member
  · rename_i unmatched
    obtain ⟨empty, left⟩ := unmatched
    right
    refine ⟨left, fun r listed passes => ?_, ?_⟩
    · rw [Passes, row_add] at passes
      have kept : Select.addEntry (t.row first) j.source.name (.obj r.toRow) ∈
          Select.matched scope j (reads d) (t.row first) :=
        List.mem_filter.mpr ⟨List.mem_map_of_mem listed, passes⟩
      rw [List.isEmpty_iff.mp empty] at kept
      cases kept
    · rw [row_add]
      exact List.mem_singleton.mp member
  · obtain ⟨built, passes⟩ := List.mem_filter.mp member
    obtain ⟨r, listed, rfl⟩ := List.mem_map.mp built
    left
    refine ⟨r, listed, ?_, (row_add first t j d (some r)).symm⟩
    rw [Passes, row_add]
    exact passes

end

end Tuple

namespace Select

/-- Every row that joins make comes from one of the given rows and, if that is the row of a tuple,
it is the row of a tuple that continues this one. -/
theorem continues_of_mem_joinedRows {ctx : Context} {store : Store}
    (levels : List (Join × TypeDef)) : ∀ {rows : List Record} {joined : Record},
      joined ∈ joinedRows ctx store levels rows → ∃ row ∈ rows, ∀ first t, row = Tuple.row first t →
        ∃ whole, Tuple.Continues ctx.scope (ctx.reads store) first levels t whole ∧
          joined = whole.row first := by
  induction levels with
  | nil => intro rows joined member; exact ⟨joined, member, fun first t same => ⟨t, .done t, same⟩⟩
  | cons level rest ih =>
    -- The last joins are undone first: `ih` leads to a row that the first join has made.
    intro rows joined member
    obtain ⟨j, d⟩ := level
    obtain ⟨row, inNext, continues⟩ := ih member
    obtain ⟨old, inRows, extended⟩ := List.mem_flatMap.mp inNext
    refine ⟨old, inRows, ?_⟩
    rintro first t rfl
    rcases Tuple.exists_of_mem_extensions extended with
      ⟨r, listed, passes, same⟩ | ⟨left, alone, same⟩
    · obtain ⟨whole, more, shown⟩ := continues first _ same
      exact ⟨whole, .found listed passes more, shown⟩
    · obtain ⟨whole, more, shown⟩ := continues first _ same
      exact ⟨whole, .missing left alone more, shown⟩

/-! ### The sources of a query -/

/-- The sources of a query in their order, each under its name and with its type. -/
def placed (s : Select) (base : TypeDef) (types : List TypeDef) : List Binding :=
  ⟨s.base.name, base⟩ :: (s.joins.zip types).map fun level => ⟨level.1.source.name, level.2⟩

theorem bindings_eq (s : Select) (base : TypeDef) (types : List TypeDef) :
    s.bindings base types =
      Dict.ofEntries ((s.placed base types).map fun b => (b.name, b.type.name)) := by
  rw [bindings, placed, List.map_cons, List.map_map]
  rfl

theorem denotes_zip {schema : Schema} {joins : List Join} {types : List TypeDef}
    (typed : List.Forall₂ (fun j d => schema.get? j.source.table = some d) joins types) :
    List.Forall₂ (fun j b => j.source.Denotes schema b) joins
      ((joins.zip types).map fun level => ⟨level.1.source.name, level.2⟩) := by
  induction typed with
  | nil => exact .nil
  | cons known _ ih => exact .cons ⟨rfl, known⟩ ih

theorem Typed.denotes {s : Select} {schema : Schema} {base : TypeDef} {types : List TypeDef}
    (typed : s.Typed schema base types) :
    List.Forall₂ (Source.Denotes schema) s.sources (s.placed base types) :=
  .cons ⟨rfl, typed.base⟩ (List.forall₂_map_left_iff.mpr (denotes_zip typed.joins))

theorem Typed.known {s : Select} {schema : Schema} {base : TypeDef} {types : List TypeDef}
    (typed : s.Typed schema base types) :
    ∀ b ∈ s.placed base types, schema.get? b.type.name = some b.type := by
  intro b member
  rcases List.mem_cons.mp member with rfl | joined
  · exact Schema.get?_own_name typed.base
  · obtain ⟨level, paired, rfl⟩ := List.mem_map.mp joined
    exact Schema.get?_own_name (List.forall₂_zip typed.joins paired)

/-! ### The entries of a joined row -/

/-- A row is joined from a tuple of the sources of a query: it starts with a record of the first
source, the joins continue it, and the entries are those of the tuple, the last one of each name. -/
structure JoinedFrom (s : Select) (ctx : Context) (scope : Scope) (store : Store) (t : Tuple)
    (row : Record) : Prop where
  sources : List.Forall₂ (fun source entry => source.Denotes ctx.schema entry.1) s.sources t
  records : ∀ entry ∈ t, ∀ r, entry.2 = some r → r ∈ ctx.reads store entry.1.type
  fields : row.fields = Dict.ofEntries t.entries
  built : ∃ base types, s.Typed ctx.schema base types ∧ ∃ first ∈ ctx.reads store base,
    Tuple.Continues scope (ctx.reads store) first (s.joins.zip types)
      [(⟨s.base.name, base⟩, some first)] t

section
variable {s : Select} {ctx : Context} {store : Store} {base : TypeDef} {types : List TypeDef}
  {t : Tuple} {row first : Record}

theorem joinedFrom_of_continues {scope : Scope} (typed : s.Typed ctx.schema base types)
    (listed : first ∈ ctx.reads store base)
    (continues : Tuple.Continues scope (ctx.reads store) first (s.joins.zip types)
      [(⟨s.base.name, base⟩, some first)] t) :
    s.JoinedFrom ctx scope store t (t.row first) where
  sources := by
    have places : t.map Prod.fst = s.placed base types := continues.bindings
    have denoted := typed.denotes
    rw [← places] at denoted
    exact List.forall₂_map_right_iff.mp denoted
  records := continues.records fun entry member r isRecord => by
    obtain rfl := List.mem_singleton.mp member
    cases isRecord
    exact listed
  fields := rfl
  built := ⟨base, types, typed, first, listed, continues⟩

theorem JoinedFrom.names {scope : Scope} (joined : s.JoinedFrom ctx scope store t row) :
    Dict.keys t.entries = s.sources.map Source.name := by
  have denoted := List.forall₂_map_right_iff.mpr joined.sources
  rw [← names_of_denotes denoted, Dict.keys, Tuple.entries, List.map_map, List.map_map]
  rfl

/-- A joined row has an entry for each source exactly if all sources have different names. -/
theorem JoinedFrom.length_fields_iff {scope : Scope} (joined : s.JoinedFrom ctx scope store t row) :
    row.fields.length = s.sources.length ↔ (s.sources.map Source.name).Nodup := by
  have places : t.entries.length = s.sources.length := by
    rw [Tuple.entries, List.length_map, joined.sources.length_eq]
  rw [joined.fields, ← joined.names, ← places]
  exact Dict.length_ofEntries_iff t.entries

/-- The last source of a name is read by this name, as its record or, without one, as null. -/
theorem evalColumn_last (typed : s.Typed ctx.schema base types)
    (places : t.map Prod.fst = s.placed base types) (fields : row.fields = Dict.ofEntries t.entries)
    {before after : Tuple} {entry : Binding × Option Record} (place : t = before ++ entry :: after)
    (last : entry.1.name ∉ Dict.keys (Tuple.entries after)) (column : String) :
    Expr.evalColumn { ctx with aliases := s.bindings base types }.scope (some row) entry.1.name
        column =
      match entry.1.type.origin? column with
      | some origin => ⟨⟨Record.readEntry (some (Tuple.shown entry.2)) column, some origin⟩, []⟩
      | none =>
        .fault (.unknownColumn entry.1.name column entry.1.type.name
          entry.1.type.availableColumns) .null := by
  have bound : Dict.get? (s.bindings base types) entry.1.name = some entry.1.type.name := by
    have names : Dict.keys (after.map fun e => (e.1.name, e.1.type.name)) =
        Dict.keys (Tuple.entries after) := by
      simp [Dict.keys, Tuple.entries]
    rw [bindings_eq, ← places, List.map_map, place, List.map_append, List.map_cons]
    exact Dict.get?_ofEntries_of_last (names ▸ last) _
  have listed : entry.1 ∈ s.placed base types := by
    rw [← places, place]
    exact List.mem_map_of_mem (List.mem_append_right before List.mem_cons_self)
  have refers : Scope.Refers { ctx with aliases := s.bindings base types }.scope entry.1.name
      entry.1.type := by
    refine ⟨?_, .inl ?_⟩
    · have resolved : Dict.get? { ctx with aliases := s.bindings base types }.scope.aliases
          entry.1.name = some entry.1.type.name := bound
      rw [Scope.resolve?, resolved]
      exact typed.known entry.1 listed
    · exact Option.isSome_iff_exists.mpr ⟨_, bound⟩
  have inRow : Dict.get? row.fields entry.1.name = some (Tuple.shown entry.2) := by
    rw [fields, place, Tuple.entries, List.map_append, List.map_cons]
    exact Dict.get?_ofEntries_of_last last _
  have shown : Expr.joinedEntry? { ctx with aliases := s.bindings base types }.scope row
      entry.1.name = some (Tuple.shown entry.2) := by
    rw [Expr.joinedEntry?, inRow]
  have read := Expr.evalColumn_eq refers (some row) column
  rw [Option.map_some, Option.getD_some, Expr.readColumn_joined bindings_ne_nil, shown] at read
  refine read.trans ?_
  cases entry.1.type.origin? column <;> rfl

end

/-- Joins keep their sources apart exactly by the names of these. A row that a query with joins or
with a named source has loaded is joined from a tuple with one place for each source; it has an
entry for each source if and only if all sources have different names; and then the entries are
those of the tuple, and each source is read by its name, as its record or, where a left join has
found none, as null. Without joins and names, rows are the records themselves. -/
theorem joined_row_entries {inner : Context} {w after : World} {rows : List Record}
    {errors later : List ValidationError} {s : Select} {ctx : Context}
    (ran : w.run (s.loadRows ctx errors) = ((.ok (some (inner, rows)), later), after))
    {row : Record} (member : row ∈ rows) :
    (s.joins = [] ∧ s.base.givenName = none ∧
      ∃ d, ctx.schema.get? s.base.table = some d ∧ row ∈ ctx.reads w.store d) ∨
    ∃ t : Tuple, s.JoinedFrom ctx inner.scope w.store t row ∧
      (row.fields.length = s.sources.length ↔ (s.sources.map Source.name).Nodup) ∧
      ((s.sources.map Source.name).Nodup → row.fields = t.entries ∧
        ∀ entry ∈ t, ∀ column,
          Expr.evalColumn inner.scope (some row) entry.1.name column =
            match entry.1.type.origin? column with
            | some origin =>
              ⟨⟨Record.readEntry (some (Tuple.shown entry.2)) column, some origin⟩, []⟩
            | none =>
              .fault (.unknownColumn entry.1.name column entry.1.type.name
                entry.1.type.availableColumns) .null) := by
  cases (fetched_of_run ran).1 with
  | @records base single unnamed known => exact .inl ⟨single, unnamed, base, known, member⟩
  | @joined base types several typed =>
    right
    obtain ⟨started, inStart, continues⟩ := continues_of_mem_joinedRows _ member
    obtain ⟨first, listed, rfl⟩ := List.mem_map.mp inStart
    obtain ⟨t, continued, rfl⟩ := continues first [(⟨s.base.name, base⟩, some first)] rfl
    have joined := joinedFrom_of_continues typed listed continued
    refine ⟨t, joined, joined.length_fields_iff, fun distinct => ?_⟩
    rw [← joined.names] at distinct
    refine ⟨Dict.ofEntries_of_nodup distinct, fun entry inTuple column => ?_⟩
    -- With different names, every source is the last one of its name.
    obtain ⟨before, after, place⟩ := List.append_of_mem inTuple
    refine evalColumn_last typed continued.bindings joined.fields place ?_ column
    rw [place, Tuple.entries, List.map_append, List.map_cons, Dict.keys, List.map_append,
      List.map_cons, List.nodup_append, List.nodup_cons] at distinct
    exact distinct.2.1.1

theorem exists_rows_of_lengths {s : Select} {ctx : Context} {w : World} {lengths : List Nat}
    (counted : (w.run (s.loadRows ctx [])).1.1.toOption.bind
      (·.map (·.2.map (·.fields.length))) = some lengths)
    (clean : (w.run (s.loadRows ctx [])).1.2 = []) :
    ∃ inner rows after, w.run (s.loadRows ctx []) = ((.ok (some (inner, rows)), []), after) ∧
      rows.map (·.fields.length) = lengths := by
  generalize w.run (s.loadRows ctx []) = ran at counted clean ⊢
  obtain ⟨⟨reply, later⟩, after⟩ := ran
  obtain rfl : later = [] := clean
  rcases reply with failure | _ | ⟨inner, rows⟩
  · cases counted
  · cases counted
  · exact ⟨inner, rows, after, rfl, Option.some.inj counted⟩

theorem joined_row_entries_ownedTasks :
    ∃ inner rows after,
      crewWorld.run (ownedTasks.loadRows crewContext []) =
        ((.ok (some (inner, rows)), []), after) ∧ rows.length = 2 ∧
      ∀ row ∈ rows, ∃ t : Tuple, row.fields = t.entries ∧ t.length = 3 := by
  obtain ⟨inner, rows, after, ran, lengths⟩ : ∃ inner rows after,
      crewWorld.run (ownedTasks.loadRows crewContext []) =
        ((.ok (some (inner, rows)), []), after) ∧ rows.map (·.fields.length) = [3, 3] :=
    exists_rows_of_lengths (by decide +kernel) (by decide +kernel)
  have distinct : (ownedTasks.sources.map Source.name).Nodup := by decide +kernel
  refine ⟨inner, rows, after, ran, ?_, fun row member => ?_⟩
  · rw [← List.length_map (·.fields.length), lengths]
    rfl
  · rcases joined_row_entries ran member with ⟨single, -, -⟩ | ⟨t, joined, -, apart⟩
    · cases single
    · exact ⟨t, (apart distinct).1, joined.sources.length_eq.symm⟩

/-- The names of users, of whom none has a team, with both sources under one name. -/
def namesakes : Select :=
  { projections := [⟨.ref "users" "name", none⟩]
    base := .ofTable "users" (some "u")
    joins := [⟨.left, .ofTable "teams" (some "u"), .literal (.bool false)⟩] }

/-- Of two sources under one name only the last is kept, and nobody is told: the user is lost. -/
theorem namesakes_lost :
    (¬ ∀ (s : Select) (ctx inner : Context) (w after : World) (rows : List Record),
      w.run (s.loadRows ctx []) = ((.ok (some (inner, rows)), []), after) → s.joins ≠ [] →
        ∀ row ∈ rows, row.fields.length = s.sources.length) ∧
    (Statement.staffWorld.run (Statement.staffEngine.execute (.select namesakes))).1.toOption.map
        (fun outcome => (outcome.errors.length, outcome.result.rows.map Json.text)) =
      some (0, ["\x7b\"name\":null\x7d"]) := by
  refine ⟨fun entryPerSource => ?_, by decide +kernel⟩
  obtain ⟨inner, rows, after, ran, lengths⟩ : ∃ inner rows after,
      Statement.staffWorld.run (namesakes.loadRows (Statement.staffEngine.context ⟨1⟩) []) =
        ((.ok (some (inner, rows)), []), after) ∧ rows.map (·.fields.length) = [1] :=
    exists_rows_of_lengths (by decide +kernel) (by decide +kernel)
  have kept : 1 ∈ rows.map (·.fields.length) := by rw [lengths]; exact List.mem_singleton_self 1
  obtain ⟨row, member, one⟩ := List.mem_map.mp kept
  have two := entryPerSource _ _ _ _ _ _ ran (List.cons_ne_nil _ _) row member
  rw [one] at two
  exact absurd two (by decide)

end Select
end RecordQuery
