import RecordQuery.Proofs.Tuples
import RecordQuery.Proofs.Loading

/-!
Joins are nested loops over tuples of records. The rows that a query with joins loads show, in
order, the tuples of the nested loop (`Select.loadRows_nestedLoop`): every record of the first
source, extended by every record of the next source on which the condition is true, or for a left
join by no record where there is none. Every expression has on a joined row the value that it has on
the tuple.
-/
namespace RecordQuery

/-! ### Nested loops -/

namespace Tuple

/-- Whether a condition is the boolean true on a tuple. -/
def meets (scope : Scope) (condition : Expr) (t : Tuple) : Bool :=
  match (condition.evalWith scope reader (some t) none).value.raw with
  | .bool true => true
  | _ => false

/-- The tuples that one tuple is extended to by the records of one more source. -/
def extend (scope : Scope) (j : Join) (b : Binding) (records : List Record) (t : Tuple) :
    List Tuple :=
  let found := (records.map fun r => t ++ [(b, some r)]).filter (meets scope j.on)
  if found.isEmpty ∧ j.kind = .left then [t ++ [(b, none)]] else found

/-- The tuples that one tuple is extended to by all further sources. -/
def extendAll (scope : Scope) (records : Binding → List Record) :
    List (Join × Binding) → Tuple → List Tuple
  | [], t => [t]
  | (j, b) :: rest, t =>
    (t.extend scope j b (records b)).flatMap (extendAll scope records rest)

end Tuple

namespace Select

/-- The sources of a query that exist, each under its name and with its type. -/
def bound (s : Select) (schema : Schema) : List Binding :=
  s.sources.filterMap fun source =>
    (schema.get? source.table).map fun d => ⟨source.name, d⟩

/-- The tuples of a query with joins, over the records that its stage sees. -/
def tuples (s : Select) (ctx : Context) (store : Store) : List Tuple :=
  let records (b : Binding) := store.scan (some ctx.stage) b.type.name none
  match s.bound ctx.schema with
  | [] => []
  | base :: rest => (records base).flatMap fun r =>
    Tuple.extendAll ctx.scope records (s.joins.zip rest) [(base, some r)]

end Select

/-! ### One join -/

section
variable {scope : Scope} {bs : List Binding} {count : Nat} {row : Record} {t : Tuple}

theorem entries_concat (t : Tuple) (b : Binding) (r : Option Record) :
    Tuple.entries (t ++ [(b, r)]) = t.entries ++ [(b.name, Tuple.shown r)] := by
  simp [Tuple.entries]

/-- One more entry makes a row that shows the tuple with one more record. -/
theorem Shows.addEntry (shows : Shows bs count row t) (distinct : (bs.map Binding.name).Nodup)
    {b : Binding} (next : bs[count]? = some b) {r : Option Record}
    (plain : ∀ s, r = some s → s.Plain) :
    Shows bs (count + 1) (Select.addEntry row b.name (Tuple.shown r)) (t ++ [(b, r)]) := by
  refine ⟨?_, ?_, ?_⟩
  · have new : b.name ∉ Dict.keys row.fields := by
      have keys : Dict.keys row.fields = (bs.take count).map Binding.name := by
        rw [shows.fields, ← shows.names, Dict.keys, Tuple.entries, List.map_map]
        rfl
      have whole : ((bs.take (count + 1)).map Binding.name).Nodup := by
        rw [List.map_take]
        exact distinct.sublist (List.take_sublist _ _)
      rw [List.take_add_one, next, Option.toList_some, List.map_append, List.nodup_append] at whole
      rw [keys]
      intro listed
      exact whole.2.2 _ listed b.name (List.mem_singleton_self _) rfl
    rw [Select.addEntry, Dict.insert_of_not_mem new, shows.fields, entries_concat]
  · rw [List.map_append, shows.sources, List.take_add_one, next]
    rfl
  · intro entry member s isRecord
    rcases List.mem_append.mp member with old | new
    · exact shows.plain entry old s isRecord
    · obtain rfl := List.mem_singleton.mp new
      exact plain s isRecord

theorem Shows.passes {other : Scope} (shows : Shows bs count row t) (binds : scope.Binds bs)
    (agrees : scope.Agrees other) {condition : Expr}
    (within : ∀ ref ∈ condition.columns, RefersWithin bs count ref.1) :
    (condition.passes scope (some row) none).value = t.meets other condition := by
  have reads : Expr.ReadAlike False (Shows bs count) (Expr.evalColumn scope) Tuple.reader
      condition.columns := readAlike_shows binds fun ref listed => .inl (within ref listed)
  have same := (Expr.evalWith_alike agrees (.some shows) .none condition reads).value
  rw [← Expr.eval_eq] at same
  rw [Expr.passes, Tuple.meets]
  rw [← same]
  rfl

/-- A join adds one source to those that rows have, and its condition refers to these sources. -/
structure JoinsAs (scope other : Scope) (bs : List Binding) (count : Nat) (j : Join) (b : Binding) :
    Prop where
  binds : scope.Binds bs
  agrees : scope.Agrees other
  next : bs[count]? = some b
  name : j.source.name = b.name
  within : ∀ ref ∈ j.on.columns, RefersWithin bs (count + 1) ref.1

variable {other : Scope} {j : Join} {b : Binding} {records : List Record}

theorem Shows.matchRows (shows : Shows bs count row t) (joins : JoinsAs scope other bs count j b)
    (plain : ∀ r ∈ records, r.Plain) (path : String) : ∀ errors : List ValidationError,
      List.Forall₂ (Shows bs (count + 1))
        ((Select.matchRows scope j path row records).run errors).1
        ((records.map fun r => t ++ [(b, some r)]).filter (Tuple.meets other j.on)) := by
  induction records with
  | nil => intro errors; exact .nil
  | cons r rest ih =>
    intro errors
    have joined : Shows bs (count + 1) (Select.addEntry row j.source.name (.obj r.toRow))
        (t ++ [(b, some r)]) := by
      rw [joins.name]
      have plainRecord : ∀ s, some r = some s → s.Plain := by
        rintro s ⟨⟩
        exact plain r List.mem_cons_self
      exact shows.addEntry joins.binds.distinct joins.next plainRecord
    have verdict := joined.passes joins.binds joins.agrees joins.within
    have more := ih (fun s member => plain s (List.mem_cons_of_mem r member))
    rw [Select.matchRows_cons]
    dsimp only
    rw [verdict, List.map_cons]
    by_cases met : Tuple.meets other j.on (t ++ [(b, some r)]) = true
    · rw [if_pos met, List.filter_cons_of_pos met]
      exact .cons joined (more _)
    · rw [if_neg met, List.filter_cons_of_neg met]
      exact more _

theorem Shows.joinRows {rows : List Record} {tuples : List Tuple}
    (shows : List.Forall₂ (Shows bs count) rows tuples) (joins : JoinsAs scope other bs count j b)
    (plain : ∀ r ∈ records, r.Plain) (path : String) : ∀ errors : List ValidationError,
      List.Forall₂ (Shows bs (count + 1))
        ((Select.joinRows scope j path records rows).run errors).1
        (tuples.flatMap (Tuple.extend other j b records)) := by
  induction shows with
  | nil => intro errors; exact .nil
  | @cons row t rows tuples first _ ih =>
    intro errors
    have found := first.matchRows joins plain path errors
    rw [Select.joinRows_cons, List.flatMap_cons]
    dsimp only
    refine List.rel_append ?_ (ih _)
    rw [Tuple.extend]
    have empty : ((Select.matchRows scope j path row records).run errors).1.isEmpty =
        ((records.map fun r => t ++ [(b, some r)]).filter (Tuple.meets other j.on)).isEmpty := by
      rw [Bool.eq_iff_iff, List.isEmpty_iff_length_eq_zero, List.isEmpty_iff_length_eq_zero,
        found.length_eq]
    rw [empty]
    by_cases unmatched : ((records.map fun r => t ++ [(b, some r)]).filter
        (Tuple.meets other j.on)).isEmpty ∧ j.kind = .left
    · have kept : Shows bs (count + 1) (Select.addEntry row b.name .null) (t ++ [(b, none)]) :=
        first.addEntry (r := none) joins.binds.distinct joins.next (by simp)
      rw [if_pos unmatched, if_pos unmatched, joins.name]
      exact .cons kept .nil
    · rw [if_neg unmatched, if_neg unmatched]
      exact found

end

/-! ### All joins -/

/-- The joins of a query after its first sources, each with the source that it adds. -/
structure JoinsAll (ctx : Context) (w : World) (bs : List Binding) (count : Nat)
    (levels : List (Join × Binding)) : Prop where
  sources : bs.drop count = levels.map Prod.snd
  names : ∀ level ∈ levels, level.1.source.name = level.2.name
  within : ∀ k level, levels[k]? = some level →
    ∀ ref ∈ level.1.on.columns, RefersWithin bs (count + k + 1) ref.1
  fits : ∀ level ∈ levels, (w.store.scan (some ctx.stage) level.2.type.name none).length ≤
    ctx.limits.maxScanRows
  plain : ∀ level ∈ levels, ∀ r ∈ w.store.scan (some ctx.stage) level.2.type.name none, r.Plain

section
variable {ctx : Context} {w : World} {other : Scope} {bs : List Binding} {count : Nat}

theorem JoinsAll.head {j : Join} {b : Binding} {rest : List (Join × Binding)}
    (all : JoinsAll ctx w bs count ((j, b) :: rest)) (binds : ctx.scope.Binds bs)
    (agrees : ctx.scope.Agrees other) : JoinsAs ctx.scope other bs count j b where
  binds := binds
  agrees := agrees
  next := by
    have first : (bs.drop count)[0]? = some b := by rw [all.sources]; rfl
    simpa using first
  name := all.names (j, b) List.mem_cons_self
  within := all.within 0 (j, b) rfl

theorem JoinsAll.tail {level : Join × Binding} {rest : List (Join × Binding)}
    (all : JoinsAll ctx w bs count (level :: rest)) :
    JoinsAll ctx w bs (count + 1) rest where
  sources := by rw [← List.drop_drop, all.sources]; rfl
  names := fun next member => all.names next (List.mem_cons_of_mem level member)
  within := by
    intro k next found ref listed
    have moved : count + 1 + k + 1 = count + (k + 1) + 1 := by omega
    rw [moved]
    exact all.within (k + 1) next found ref listed
  fits := fun next member => all.fits next (List.mem_cons_of_mem level member)
  plain := fun next member => all.plain next (List.mem_cons_of_mem level member)

theorem run_joinAll (readable : w.faults.contains .scan = false) (binds : ctx.scope.Binds bs)
    (agrees : ctx.scope.Agrees other) {levels : List (Join × Binding)} :
    ∀ {count : Nat}, JoinsAll ctx w bs count levels →
      ∀ {rows : List Record} {tuples : List Tuple},
      List.Forall₂ (Shows bs count) rows tuples → ∀ (index : Nat) (errors : List ValidationError),
      ∃ joined later,
        w.run (Select.joinAll ctx index (levels.map fun level => (level.1, level.2.type)) rows
          errors) = ((.ok joined, later), w) ∧
        List.Forall₂ (Shows bs (count + levels.length)) joined
          (tuples.flatMap (Tuple.extendAll other
            (fun b => w.store.scan (some ctx.stage) b.type.name none) levels)) := by
  induction levels with
  | nil =>
    intro count all rows tuples shows index errors
    refine ⟨rows, errors, rfl, ?_⟩
    have unchanged : tuples.flatMap (Tuple.extendAll other
        (fun b => w.store.scan (some ctx.stage) b.type.name none) []) = tuples :=
      List.flatMap_singleton' tuples
    rw [unchanged]
    exact shows
  | cons level rest ih =>
    intro count all rows tuples shows index errors
    obtain ⟨j, b⟩ := level
    have fits := all.fits (j, b) List.mem_cons_self
    have plain := all.plain (j, b) List.mem_cons_self
    have next := Shows.joinRows shows (all.head binds agrees) plain
      (itemPath "select.joins" index ++ ".on") errors
    obtain ⟨joined, later, ran, related⟩ := ih all.tail next (index + 1)
      ((Select.joinRows ctx.scope j (itemPath "select.joins" index ++ ".on")
        (w.store.scan (some ctx.stage) b.type.name none) rows).run errors).2
    refine ⟨joined, later, ?_, ?_⟩
    · rw [List.map_cons, Select.joinAll,
        Exec.run_bind (run_scanTable_of_fits readable fits _ errors),
        Exec.run_bind (Exec.run_log w _ errors)]
      exact ran
    · have deeper : Tuple.extendAll other (fun b => w.store.scan (some ctx.stage) b.type.name none)
          ((j, b) :: rest) = fun t => (t.extend other j b
            (w.store.scan (some ctx.stage) b.type.name none)).flatMap (Tuple.extendAll other
              (fun b => w.store.scan (some ctx.stage) b.type.name none) rest) := rfl
      rw [deeper, ← List.flatMap_assoc, List.length_cons, Nat.add_comm rest.length, ← Nat.add_assoc]
      exact related

end

/-! ### Queries with joins -/

/-- A binding stands for a source that exists. -/
def Source.Denotes (schema : Schema) (source : Source) (b : Binding) : Prop :=
  source.name = b.name ∧ schema.get? source.table = some b.type

namespace Select

/-- The sources of a query with joins exist, fit the limit and have names of their own, and each
condition refers to the sources up to its own. -/
structure Joinable (s : Select) (ctx : Context) (store : Store) : Prop where
  joined : s.joins ≠ []
  known : ∀ source ∈ s.sources, (ctx.schema.get? source.table).isSome
  distinct : (s.sources.map Source.name).Nodup
  fits : ∀ source ∈ s.sources,
    (store.scan (some ctx.stage) source.table none).length ≤ ctx.limits.maxScanRows
  plain : ∀ source ∈ s.sources, ∀ r ∈ store.scan (some ctx.stage) source.table none, r.Plain
  within : ∀ entry ∈ s.joins.zipIdx, ∀ ref ∈ entry.1.on.columns,
    RefersWithin (s.bound ctx.schema) (entry.2 + 2) ref.1

theorem denotes_bound {schema : Schema} {sources : List Source}
    (known : ∀ source ∈ sources, (schema.get? source.table).isSome) :
    List.Forall₂ (Source.Denotes schema) sources (sources.filterMap fun source =>
      (schema.get? source.table).map fun d => ⟨source.name, d⟩) := by
  have defined : ∀ source ∈ sources,
      ((schema.get? source.table).map (Binding.mk source.name)).isSome := by
    intro source member
    rw [Option.isSome_map]
    exact known source member
  refine (forall₂_filterMap defined).imp fun source b isBound => ?_
  obtain ⟨d, typed, rfl⟩ := Option.map_eq_some_iff.mp isBound
  exact ⟨rfl, typed⟩

theorem run_joinTypes {schema : Schema} {joins : List Join} {bs : List Binding}
    (denotes : List.Forall₂ (fun j b => j.source.Denotes schema b) joins bs) :
    ∀ index errors,
      (joinTypes schema index joins).run errors = (bs.map Binding.type, errors) := by
  induction denotes with
  | nil => intro index errors; rfl
  | @cons j b rest bs first _ ih =>
    intro index errors
    have later := ih (index + 1) errors
    rw [joinTypes, first.2]
    change (b.type :: ((joinTypes schema (index + 1) rest).run errors).1,
      ((joinTypes schema (index + 1) rest).run errors).2) = _
    rw [later]
    rfl

theorem names_of_denotes {schema : Schema} {sources : List Source} {bs : List Binding}
    (denotes : List.Forall₂ (Source.Denotes schema) sources bs) :
    bs.map Binding.name = sources.map Source.name := by
  induction denotes with
  | nil => rfl
  | cons first _ ih => rw [List.map_cons, List.map_cons, first.1, ih]

theorem entries_of_denotes {schema : Schema} {joins : List Join} {bs : List Binding}
    (denotes : List.Forall₂ (fun j b => j.source.Denotes schema b) joins bs) :
    (joins.zip (bs.map Binding.type)).map (fun entry => (entry.1.source.name, entry.2.name)) =
      bs.map fun b => (b.name, b.type.name) := by
  induction denotes with
  | nil => rfl
  | cons first _ ih =>
    rw [List.map_cons, List.map_cons, List.zip_cons_cons, List.map_cons, ih, first.1]

theorem exists_of_mem_bound {s : Select} {schema : Schema} {b : Binding}
    (member : b ∈ s.bound schema) : ∃ source ∈ s.sources, source.Denotes schema b := by
  obtain ⟨source, listed, isBound⟩ := List.mem_filterMap.mp member
  obtain ⟨d, found, rfl⟩ := Option.map_eq_some_iff.mp isBound
  exact ⟨source, listed, rfl, found⟩

section
variable {s : Select} {ctx : Context} {store : Store}

/-- The context in which the rows of a query with joins are evaluated. -/
def joinedContext (s : Select) (ctx : Context) : Context :=
  { ctx with aliases := (s.bound ctx.schema).map fun b => (b.name, b.type.name) }

theorem Joinable.binds (joinable : s.Joinable ctx store) :
    (s.joinedContext ctx).scope.Binds (s.bound ctx.schema) where
  aliases := rfl
  nonempty := by
    have counted := (denotes_bound joinable.known).length_eq
    rintro (empty : s.bound ctx.schema = [])
    rw [bound] at empty
    rw [empty] at counted
    cases counted
  distinct := by
    have names := names_of_denotes (denotes_bound joinable.known)
    rw [bound, names]
    exact joinable.distinct
  known := by
    intro b member
    obtain ⟨source, -, denotes⟩ := exists_of_mem_bound member
    exact Schema.get?_own_name denotes.2

/-- The joins of a query, each with the source that it adds, carry on from the first source. -/
theorem Joinable.joinsAll {w : World} (joinable : s.Joinable ctx w.store) {base : Binding}
    {rest : List Binding} (sources : s.bound ctx.schema = base :: rest)
    (denotes : List.Forall₂ (fun j b => j.source.Denotes ctx.schema b) s.joins rest) :
    JoinsAll (s.joinedContext ctx) w (s.bound ctx.schema) 1 (s.joins.zip rest) where
  sources := by
    rw [sources, List.map_snd_zip (Nat.le_of_eq denotes.length_eq.symm)]
    rfl
  names := fun level member => (List.forall₂_zip denotes member).1
  within := by
    intro k level found ref listed
    have place := (List.getElem?_zip_eq_some.mp found).1
    have within := joinable.within (level.1, k) (List.mem_zipIdx_iff_getElem?.mpr place) ref listed
    rw [show 1 + k + 1 = k + 2 by omega]
    exact within
  fits := by
    intro level member
    obtain ⟨-, known⟩ := List.forall₂_zip denotes member
    have listed : level.1.source ∈ s.sources :=
      List.mem_cons_of_mem _ (List.mem_map_of_mem (List.of_mem_zip member).1)
    rw [Schema.name_of_get? known, Store.scan_lower]
    exact joinable.fits _ listed
  plain := by
    intro level member
    obtain ⟨-, known⟩ := List.forall₂_zip denotes member
    have listed : level.1.source ∈ s.sources :=
      List.mem_cons_of_mem _ (List.mem_map_of_mem (List.of_mem_zip member).1)
    rw [Schema.name_of_get? known, Store.scan_lower]
    exact joinable.plain _ listed

/-- The names that rows are loaded under are those of the sources, each with its type. -/
theorem Joinable.bindings_eq (joinable : s.Joinable ctx store) {base : Binding}
    {rest : List Binding} (sources : s.bound ctx.schema = base :: rest)
    (named : s.base.name = base.name)
    (denotes : List.Forall₂ (fun j b => j.source.Denotes ctx.schema b) s.joins rest) :
    s.bindings base.type (rest.map Binding.type) =
      (s.bound ctx.schema).map fun b => (b.name, b.type.name) := by
  have distinct := joinable.binds.distinct
  rw [bindings, entries_of_denotes denotes, sources, named]
  refine Dict.ofEntries_of_nodup ?_
  rw [sources] at distinct
  rw [Dict.keys, ← List.map_cons (f := fun b : Binding => (b.name, b.type.name)), List.map_map]
  exact distinct

/-- The rows of the first source alone. -/
theorem shows_entryRow {bs rest : List Binding} {base : Binding} (sources : bs = base :: rest)
    {r : Record} (plain : r.Plain) :
    Shows bs 1 (entryRow base.name r) [(base, some r)] where
  fields := rfl
  sources := by rw [sources]; rfl
  plain := by
    intro entry member t isRecord
    obtain rfl := List.mem_singleton.mp member
    cases isRecord
    exact plain

/-- A query with joins loads its rows in three steps: types, records of the first source, joins. -/
theorem run_loadRows_of_steps {w : World} {base : TypeDef} {types : List TypeDef}
    {records rows : List Record} {errors later : List ValidationError} (joined : s.joins ≠ [])
    (known : ctx.schema.get? s.base.table = some base)
    (typed : (joinTypes ctx.schema 0 s.joins).run errors = (types, errors))
    (complete : types.length = s.joins.length)
    (scanned : w.run (scanTable ctx base.name "select.from" errors) = ((.ok records, errors), w))
    (ran : w.run (joinAll { ctx with aliases := s.bindings base types } 0 (s.joins.zip types)
      (records.map (entryRow s.base.name)) errors) = ((.ok rows, later), w)) :
    w.run (s.loadRows ctx errors) =
      ((.ok (some ({ ctx with aliases := s.bindings base types }, rows)), later), w) := by
  have logged : w.run (Exec.log (joinTypes ctx.schema 0 s.joins) errors) =
      ((.ok types, errors), w) := by
    rw [Exec.run_log, typed]
  have notSingle : ¬ (s.joins.isEmpty && s.base.givenName.isNone) = true := by simp [joined]
  rw [loadRows, known]
  dsimp only
  rw [Exec.run_bind logged, if_neg (not_not_intro complete), Exec.run_bind scanned,
    if_neg notSingle, Exec.run_bind ran]
  rfl

/-- The rows that a query with joins loads show the tuples of the nested loop. -/
theorem run_loadRows {w : World} (joinable : s.Joinable ctx w.store)
    (readable : w.faults.contains .scan = false) (errors : List ValidationError) :
    ∃ rows later,
      w.run (s.loadRows ctx errors) = ((.ok (some (s.joinedContext ctx, rows)), later), w) ∧
      List.Forall₂ (Shows (s.bound ctx.schema) (s.bound ctx.schema).length) rows
        (s.tuples ctx w.store) := by
  have denotes := denotes_bound joinable.known
  rw [sources] at denotes
  obtain ⟨base, rest, first, later, equal⟩ := List.forall₂_cons_left_iff.mp denotes
  have sources : s.bound ctx.schema = base :: rest := equal
  have joins : List.Forall₂ (fun j b => j.source.Denotes ctx.schema b) s.joins rest :=
    List.forall₂_map_left_iff.mp later
  have table : w.store.scan (some ctx.stage) base.type.name none =
      w.store.scan (some ctx.stage) s.base.table none := by
    rw [Schema.name_of_get? first.2, Store.scan_lower]
  have fits := joinable.fits s.base List.mem_cons_self
  have plain := joinable.plain s.base List.mem_cons_self
  rw [← table] at fits plain
  have start : List.Forall₂ (Shows (s.bound ctx.schema) 1)
      ((w.store.scan (some ctx.stage) base.type.name none).map (entryRow s.base.name))
      ((w.store.scan (some ctx.stage) base.type.name none).map fun r => [(base, some r)]) := by
    rw [List.forall₂_map_left_iff, List.forall₂_map_right_iff, List.forall₂_same, first.1]
    exact fun r member => shows_entryRow sources (plain r member)
  have agrees : (s.joinedContext ctx).scope.Agrees ctx.scope := ⟨rfl, rfl⟩
  obtain ⟨rows, final, ran, shows⟩ := run_joinAll readable joinable.binds agrees
    (joinable.joinsAll sources joins) start 0 errors
  have count : (s.bound ctx.schema).length = 1 + (s.joins.zip rest).length := by
    rw [sources, List.length_cons, List.length_zip, joins.length_eq, Nat.min_self, Nat.add_comm]
  refine ⟨rows, final, ?_, ?_⟩
  · have levels : s.joins.zip (rest.map Binding.type) =
        (s.joins.zip rest).map fun level => (level.1, level.2.type) := List.zip_map_right
    have context : { ctx with aliases := s.bindings base.type (rest.map Binding.type) } =
        s.joinedContext ctx := by
      rw [joinedContext, joinable.bindings_eq sources first.1 joins]
    have complete : (rest.map Binding.type).length = s.joins.length := by
      rw [List.length_map, joins.length_eq]
    rw [← levels, ← context] at ran
    rw [← context]
    exact run_loadRows_of_steps joinable.joined first.2 (run_joinTypes joins 0 errors) complete
      (run_scanTable_of_fits readable fits _ errors) ran
  · have loops : s.tuples ctx w.store =
        (w.store.scan (some ctx.stage) base.type.name none).flatMap fun r =>
          Tuple.extendAll ctx.scope (fun b => w.store.scan (some ctx.stage) b.type.name none)
            (s.joins.zip rest) [(base, some r)] := by
      rw [tuples, sources]
    rw [count, loops]
    rw [List.flatMap_map] at shows
    exact shows

/-- Joins simulate nested loops. The rows have, in order, the entries of the tuples of the nested
loop, and an expression has on a row, and within a group of rows, the value that it has on the
tuples of these rows. -/
theorem loadRows_nestedLoop {w : World} (joinable : s.Joinable ctx w.store)
    (readable : Method.scan ∉ w.faults) (errors : List ValidationError) :
    ∃ inner rows later,
      w.run (s.loadRows ctx errors) = ((.ok (some (inner, rows)), later), w) ∧
      rows.map Record.fields = (s.tuples ctx w.store).map Tuple.entries ∧
      ∀ place ∈ rows.zip (s.tuples ctx w.store), ∀ group : Option (List (Record × Tuple)),
        (∀ members, group = some members → members ⊆ rows.zip (s.tuples ctx w.store)) →
        ∀ e : Expr,
          (e.eval inner.scope (some place.1) (group.map (·.map Prod.fst))).value.raw =
            (e.evalWith ctx.scope Tuple.reader (some place.2)
              (group.map (·.map Prod.snd))).value.raw := by
  have readable : w.faults.contains .scan = false := by simpa using readable
  obtain ⟨rows, later, ran, shows⟩ := run_loadRows joinable readable errors
  refine ⟨s.joinedContext ctx, rows, later, ran, ?_, ?_⟩
  · have fields := List.rel_map (fun row t (shown : Shows _ _ row t) => shown.fields) shows
    rw [List.forall₂_eq_eq_eq] at fields
    exact fields
  · intro place listed group within e
    have groups : Option.Rel (List.Forall₂ (Shows (s.bound ctx.schema) (s.bound ctx.schema).length))
        (group.map (·.map Prod.fst)) (group.map (·.map Prod.snd)) := by
      cases group with
      | none => exact .none
      | some members =>
        refine .some ?_
        rw [List.forall₂_map_left_iff, List.forall₂_map_right_iff, List.forall₂_same]
        exact fun member inside => List.forall₂_zip shows (within members rfl inside)
    have reads : Expr.ReadAlike False (Shows (s.bound ctx.schema) (s.bound ctx.schema).length)
        (Expr.evalColumn (s.joinedContext ctx).scope) Tuple.reader e.columns :=
      readAlike_shows joinable.binds fun ref _ => .inr (Nat.le_refl _)
    have agrees : (s.joinedContext ctx).scope.Agrees ctx.scope := ⟨rfl, rfl⟩
    rw [Expr.eval_eq]
    exact (Expr.evalWith_alike agrees (.some (List.forall₂_zip shows listed)) groups e reads).value

end

/-- A context for users in teams, and for the tasks that they own. -/
def crewContext : Context :=
  { schema := .ofTypes
      [.ofFields "users" [.reference "team" "teams"], .ofFields "teams" [],
        .ofFields "tasks" [.reference "owner" "users"]]
    stage := ⟨1⟩
    now := ⟨0, 0, 0⟩ }

/-- A world with two users, one of them in a team, and three tasks, one of them without an owner. -/
def crewWorld : World :=
  let now : Calendar.Instant := ⟨0, 0, 0⟩
  let users := (Store.seed {} now "users" "ann" [("team", .str "core")]).seed now "users" "bob" []
  let teams := users.seed now "teams" "core" []
  let tasks := (teams.seed now "tasks" "t1" [("owner", .str "ann")]).seed now "tasks" "t2"
    [("owner", .str "nobody")]
  { store := tasks.seed now "tasks" "t3" [("owner", .str "bob")], now, ids := fun _ => "new" }

/-- The tasks with their owners, and with the teams of these if they have one. The owners are
referred to by the name of their type. -/
def ownedTasks : Select :=
  { base := .ofTable "tasks" (some "t")
    joins :=
      [⟨.inner, .ofTable "users" (some "u"),
          .comparison .eq (.ref "t" "owner") (.ref "users" "id")⟩,
        ⟨.left, .ofTable "teams", .comparison .eq (.ref "u" "team") (.ref "teams" "id")⟩] }

theorem loadRows_nestedLoop_ownedTasks :
    ownedTasks.Joinable crewContext crewWorld.store ∧ Method.scan ∉ crewWorld.faults ∧
      ∃ inner rows later,
        crewWorld.run (ownedTasks.loadRows crewContext []) =
          ((.ok (some (inner, rows)), later), crewWorld) ∧
        rows.map Record.fields =
          (ownedTasks.tuples crewContext crewWorld.store).map Tuple.entries ∧
        (ownedTasks.tuples crewContext crewWorld.store).map
            (·.map fun entry => entry.2.map Record.id) =
          [[some "t1", some "ann", some "core"], [some "t3", some "bob", none]] := by
  have joinable : ownedTasks.Joinable crewContext crewWorld.store :=
    { joined := by decide
      known := by decide +kernel
      distinct := by decide +kernel
      fits := by decide +kernel
      plain := by decide +kernel
      within := by decide +kernel }
  have readable : Method.scan ∉ crewWorld.faults := by decide
  obtain ⟨inner, rows, later, ran, fields, -⟩ := loadRows_nestedLoop joinable readable []
  exact ⟨joinable, readable, inner, rows, later, ran, fields, by decide +kernel⟩

end Select

end RecordQuery
