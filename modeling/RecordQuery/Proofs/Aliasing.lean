import RecordQuery.Proofs.Columns
import RecordQuery.Proofs.Correspondence
import RecordQuery.Proofs.Loading

/-!
A query of one table does not depend on whether the table is given a name. Without a name the query
reads records, and with one it reads joined rows with a single entry. As long as all columns refer
to the table, both ways yield the same rows and the same errors; where the columns are referred to
by the name instead, the values stay the same in the same places (`Select.aliased_agrees`).
-/
namespace RecordQuery

/-! ### Another name for the source of all columns -/

namespace Expr

mutual

/-- The expression with all columns read from one source. -/
def requalify (source : String) : Expr → Expr
  | literal value => literal value
  | column _ name => column source name
  | binary op left right => binary op (requalify source left) (requalify source right)
  | comparison op left right => comparison op (requalify source left) (requalify source right)
  | logical op left right => logical op (requalify source left) (requalify source right)
  | not operand => not (requalify source operand)
  | negate operand => negate (requalify source operand)
  | isNull operand negated => isNull (requalify source operand) negated
  | inList operand items negated =>
    inList (requalify source operand) (requalifyAll source items) negated
  | call func args => call func (requalifyAll source args)

/-- The expressions with all columns read from one source. -/
def requalifyAll (source : String) : List Expr → List Expr
  | [] => []
  | e :: es => requalify source e :: requalifyAll source es

end

theorem length_requalifyAll (source : String) (es : List Expr) :
    (requalifyAll source es).length = es.length := by
  induction es with
  | nil => rw [requalifyAll]
  | cons e es ih => rw [requalifyAll, List.length_cons, List.length_cons, ih]

section
variable {ρ : Type} (scope : Scope) (read : ColumnReader ρ) (source : String)

mutual

/-- Another source for all columns is another way to read them. -/
theorem evalWith_requalify (row : Option ρ) (group : Option (List ρ)) :
    ∀ e : Expr, (e.requalify source).evalWith scope read row group =
      e.evalWith scope (fun row _ name => read row source name) row group
  | literal _ => by rw [requalify, evalWith, evalWith]
  | column _ _ => by rw [requalify, evalWith, evalWith]
  | binary _ left right => by
    rw [requalify, evalWith, evalWith, evalWith_requalify row group left,
      evalWith_requalify row group right]
  | comparison _ left right => by
    rw [requalify, evalWith, evalWith, evalWith_requalify row group left,
      evalWith_requalify row group right]
  | logical _ left right => by
    rw [requalify, evalWith, evalWith, evalWith_requalify row group left,
      evalWith_requalify row group right]
  | not operand => by rw [requalify, evalWith, evalWith, evalWith_requalify row group operand]
  | negate operand => by rw [requalify, evalWith, evalWith, evalWith_requalify row group operand]
  | isNull operand _ => by rw [requalify, evalWith, evalWith, evalWith_requalify row group operand]
  | inList operand items _ => by
    rw [requalify, evalWith, evalWith, evalWith_requalify row group operand,
      evalAllWith_requalify row group items]
  | call func args => by
    rw [requalify, evalWith.eq_def, evalWith.eq_def]
    simp only [length_requalifyAll, evalAllWith_requalify row group args,
      fun r => evalFirstWith_requalify r args]

theorem evalAllWith_requalify (row : Option ρ) (group : Option (List ρ)) :
    ∀ es : List Expr, evalAllWith scope read row group (requalifyAll source es) =
      evalAllWith scope (fun row _ name => read row source name) row group es
  | [] => by rw [requalifyAll, evalAllWith, evalAllWith]
  | e :: es => by
    rw [requalifyAll, evalAllWith, evalAllWith, evalWith_requalify row group e,
      evalAllWith_requalify row group es]

theorem evalFirstWith_requalify (r : ρ) :
    ∀ es : List Expr, evalFirstWith scope read r (requalifyAll source es) =
      evalFirstWith scope (fun row _ name => read row source name) r es
  | [] => by rw [requalifyAll, evalFirstWith, evalFirstWith]
  | e :: _ => by rw [requalifyAll, evalFirstWith, evalFirstWith, evalWith_requalify (some r) none e]

end

mutual

/-- Which calls aggregate does not depend on the sources of columns. -/
theorem walk_requalify (found : Bool) :
    ∀ e : Expr, (e.requalify source).walk findAggregate found = e.walk findAggregate found
  | literal _ => by rw [requalify]
  | column _ _ => by simp only [requalify, walk, findAggregate]
  | binary _ left right => by
    simp only [requalify, walk, findAggregate, walk_requalify _ left, walk_requalify _ right]
    rfl
  | comparison _ left right => by
    simp only [requalify, walk, findAggregate, walk_requalify _ left, walk_requalify _ right]
    rfl
  | logical _ left right => by
    simp only [requalify, walk, findAggregate, walk_requalify _ left, walk_requalify _ right]
    rfl
  | not operand => by
    simp only [requalify, walk, findAggregate, walk_requalify _ operand]
    rfl
  | negate operand => by
    simp only [requalify, walk, findAggregate, walk_requalify _ operand]
    rfl
  | isNull operand _ => by
    simp only [requalify, walk, findAggregate, walk_requalify _ operand]
    rfl
  | inList operand items _ => by
    simp only [requalify, walk, findAggregate, walk_requalify _ operand, walkAll_requalify _ items]
    rfl
  | call func args => by
    simp only [requalify, walk, findAggregate, length_requalifyAll, walkAll_requalify _ args]
    rfl

theorem walkAll_requalify (found : Bool) :
    ∀ es : List Expr, walkAll findAggregate found (requalifyAll source es) =
      walkAll findAggregate found es
  | [] => by rw [requalifyAll]
  | e :: es => by
    rw [requalifyAll, walkAll, walkAll, walk_requalify found e, walkAll_requalify _ es]

end

end

theorem containsAggregate_requalify (source : String) (e : Expr) :
    (e.requalify source).containsAggregate = e.containsAggregate := walk_requalify source false e

end Expr

theorem Projection.isWildcard_requalify (source : String) (p : Projection) :
    ({ p with expr := p.expr.requalify source } : Projection).isWildcard = p.isWildcard := by
  obtain ⟨e, givenName⟩ := p
  cases givenName with
  | some name => rfl
  | none => cases e <;> rfl

namespace Select

/-- The query with a name given to its first source. -/
def aliased (s : Select) (name : String) : Select :=
  { s with base := { s.base with givenName := some name } }

/-- The query with other expressions. -/
def mapExprs (g : Expr → Expr) (s : Select) : Select :=
  { s with
    projections := s.projections.map fun p => { p with expr := g p.expr }
    joins := s.joins.map fun j => { j with on := g j.on }
    filter := s.filter.map g
    groupBy := s.groupBy.map g
    orderBy := s.orderBy.map fun k => { k with expr := g k.expr } }

/-- The query with all columns read from one source. -/
def requalify (source : String) (s : Select) : Select := s.mapExprs (·.requalify source)

/-- The expressions of a query. -/
def exprs (s : Select) : List Expr :=
  s.projections.map (·.expr) ++ s.joins.map (·.on) ++ s.filter.toList ++ s.groupBy ++
    s.orderBy.map (·.expr)

theorem mapExprs_id (s : Select) : s.mapExprs id = s := by
  simp [mapExprs]

theorem mem_exprs (s : Select) (e : Expr) :
    e ∈ s.exprs ↔ (∃ p ∈ s.projections, p.expr = e) ∨ (∃ j ∈ s.joins, j.on = e) ∨
      s.filter = some e ∨ e ∈ s.groupBy ∨ ∃ k ∈ s.orderBy, k.expr = e := by
  simp [exprs]

section
variable {s : Select} {exact : Prop} {scope scope' : Scope} {R : Record → Record → Prop}
  {g : Expr → Expr}

theorem isAggregated_mapExprs (aggregates : ∀ e, (g e).containsAggregate = e.containsAggregate) :
    (s.mapExprs g).isAggregated = s.isAggregated := by
  have projections : (s.projections.map fun p => { p with expr := g p.expr }).any
      (fun p => p.expr.containsAggregate) =
        s.projections.any fun p => p.expr.containsAggregate := by
    rw [List.any_map]
    congr 1
    funext p
    exact aggregates p.expr
  rw [isAggregated, isAggregated, mapExprs, List.isEmpty_map, projections]

/-- A query whose expressions have the same values as others agrees with the query of these. -/
theorem alike_mapExprs (same : ∀ e ∈ s.exprs, e.Alike exact scope scope' R (g e))
    (wildcards : ∀ p : Projection,
      ({ p with expr := g p.expr } : Projection).isWildcard = p.isWildcard)
    (names : exact → ∀ p : Projection, ({ p with expr := g p.expr } : Projection).name = p.name)
    (aggregates : ∀ e, (g e).containsAggregate = e.containsAggregate) :
    s.Alike exact scope scope' R (s.mapExprs g) where
  projections := by
    rw [mapExprs, List.forall₂_map_right_iff, List.forall₂_same]
    intro p member
    have listed : p.expr ∈ s.exprs := (mem_exprs s _).mpr (.inl ⟨p, member, rfl⟩)
    exact ⟨same _ listed, (wildcards p).symm, fun holds => (names holds p).symm⟩
  filter := by
    rw [mapExprs]
    cases found : s.filter with
    | none => exact .none
    | some e => exact .some (same e ((mem_exprs s e).mpr (.inr (.inr (.inl found)))))
  groupBy := by
    rw [mapExprs, List.forall₂_map_right_iff, List.forall₂_same]
    intro e member
    exact same e ((mem_exprs s e).mpr (.inr (.inr (.inr (.inl member)))))
  orderBy := by
    rw [mapExprs, List.forall₂_map_right_iff, List.forall₂_same]
    intro k member
    have listed : k.expr ∈ s.exprs :=
      (mem_exprs s _).mpr (.inr (.inr (.inr (.inr ⟨k, member, rfl⟩))))
    exact ⟨same _ listed, rfl⟩
  aggregated := (isAggregated_mapExprs aggregates).symm
  offset := rfl
  limit := rfl

/-- A query whose expressions have the same values and faults on related rows answers alike. -/
theorem run_answer_of_alike (same : ∀ e ∈ s.exprs, e.Alike True scope scope' R e)
    {rows rows' : List Record} (related : List.Forall₂ R rows rows')
    (errors : List ValidationError) :
    (s.answer scope' rows').run errors = (s.answer scope rows).run errors := by
  have alike : s.Alike True scope scope' R (s.mapExprs id) :=
    alike_mapExprs same (fun _ => rfl) (fun _ _ => rfl) fun _ => rfl
  rw [mapExprs_id] at alike
  obtain ⟨rowsAlike, left⟩ := answer_alike alike related errors errors fun _ => rfl
  have equal := rowsAlike.imp (S := Eq) fun a b alike => alike.eq
  rw [List.forall₂_eq_eq_eq] at equal
  exact (Prod.ext equal (left trivial)).symm

end

end Select

/-! ### Rows with a single entry -/

/-- A row holds a record under the name of its only source. -/
def EntryOf (name : String) (r row : Record) : Prop := r.Plain ∧ row = Select.entryRow name r

/-- Two scopes for the records of one type: directly, and under a name. -/
structure SoleSource (plain named : Scope) (name : String) (d : TypeDef) : Prop where
  unnamed : plain.aliases = []
  aliases : named.aliases = [(name, d.name)]
  schema : named.schema = plain.schema
  agrees : plain.Agrees named
  known : plain.schema.get? d.name = some d
  differs : name ≠ d.name

namespace SoleSource
variable {plain named : Scope} {name : String} {d : TypeDef} (sole : SoleSource plain named name d)

include sole

theorem refers_plain : plain.Refers d.name d := by
  refine ⟨?_, .inr ?_⟩
  · rw [Scope.resolve?, sole.unnamed]
    exact sole.known
  · rw [Scope.length_aliasesOf, sole.unnamed]
    exact Nat.zero_le 1

theorem refers_named : named.Refers d.name d := by
  refine ⟨?_, .inr ?_⟩
  · rw [Scope.resolve?, sole.aliases, Dict.get?, if_neg sole.differs, sole.schema]
    exact sole.known
  · rw [Scope.length_aliasesOf, sole.aliases]
    exact List.length_filter_le _ [(name, d.name)]

theorem refers_name : named.Refers name d := by
  have bound : Dict.get? named.aliases name = some d.name := by
    rw [sole.aliases, Dict.get?, if_pos rfl]
  refine ⟨?_, .inl ?_⟩
  · rw [Scope.resolve?, bound, sole.schema]
    exact sole.known
  · rw [Dict.hasKey, bound]
    rfl

theorem readColumn_eq {r row : Record} (entry : EntryOf name r row) {source : String}
    (meant : source = d.name ∨ source = name) (column : String) :
    Expr.readColumn named row source column = Expr.readColumn plain r d.name column := by
  obtain ⟨isPlain, rfl⟩ := entry
  have joined : named.aliases ≠ [] := by rw [sole.aliases]; exact List.cons_ne_nil _ _
  have found : Expr.joinedEntry? named (Select.entryRow name r) source =
      some (.obj r.toRow) := by
    rcases meant with rfl | rfl
    · simp [Expr.joinedEntry?, Select.entryRow, Dict.get?, sole.differs, sole.aliases]
    · simp [Expr.joinedEntry?, Select.entryRow, Dict.get?]
  rw [Expr.readColumn_plain sole.unnamed, Expr.readColumn_joined joined, found,
    isPlain.readEntry]

/-- Columns of the table read the same under either kind of rows. -/
theorem readAlike {columns : List (String × String)} (qualified : ∀ ref ∈ columns, ref.1 = d.name) :
    Expr.ReadAlike True (EntryOf name) (Expr.evalColumn plain) (Expr.evalColumn named) columns := by
  intro row row' related source column listed
  obtain rfl : source = d.name := qualified _ listed
  rw [Expr.evalColumn_eq sole.refers_plain, Expr.evalColumn_eq sole.refers_named]
  cases d.origin? column with
  | none => exact Reported.alike_refl _ rfl
  | some origin =>
    refine ⟨?_, fun _ => rfl⟩
    cases related with
    | none => rfl
    | some entry => exact (sole.readColumn_eq entry (.inl rfl) column).symm

/-- Columns of the table have the same values when they are referred to by the name. -/
theorem readAlike_name {columns : List (String × String)}
    (qualified : ∀ ref ∈ columns, ref.1 = d.name) :
    Expr.ReadAlike False (EntryOf name) (Expr.evalColumn plain)
      (fun row _ column => Expr.evalColumn named row name column) columns := by
  intro row row' related source column listed
  obtain rfl : source = d.name := qualified _ listed
  dsimp only
  rw [Expr.evalColumn_eq sole.refers_plain, Expr.evalColumn_eq sole.refers_name]
  refine ⟨?_, False.elim⟩
  cases d.origin? column with
  | none => rfl
  | some origin =>
    cases related with
    | none => rfl
    | some entry => exact (sole.readColumn_eq entry (.inr rfl) column).symm

theorem expr_alike {e : Expr} (qualified : ∀ ref ∈ e.columns, ref.1 = d.name) :
    e.Alike True plain named (EntryOf name) e := fun _ _ _ _ rows groups =>
  Expr.eval_alike sole.agrees rows groups (sole.readAlike qualified)

theorem requalify_alike {e : Expr} (qualified : ∀ ref ∈ e.columns, ref.1 = d.name) :
    e.Alike False plain named (EntryOf name) (e.requalify name) := by
  intro row row' group group' rows groups
  rw [Expr.eval_eq, Expr.eval_eq, Expr.evalWith_requalify]
  exact Expr.evalWith_alike sole.agrees rows groups e (sole.readAlike_name qualified)

end SoleSource

/-! ### Queries of one table -/

namespace Select
variable {s : Select} {ctx : Context} {w : World} {base : TypeDef}

/-- The names that the only source of a query is evaluated under, and its rows. -/
def soleRows (s : Select) (base : TypeDef) (records : List Record) : Dict String × List Record :=
  if s.base.givenName.isNone then ([], records)
  else ([(s.base.name, base.name)], records.map (entryRow s.base.name))

theorem soleRows_unnamed (unnamed : s.base.givenName = none) (records : List Record) :
    s.soleRows base records = ([], records) := by
  rw [soleRows, unnamed]
  rfl

theorem soleRows_named {name : String} (named : s.base.givenName = some name)
    (records : List Record) :
    s.soleRows base records =
      ([(Text.lower name, base.name)], records.map (entryRow (Text.lower name))) := by
  rw [soleRows, Source.name, named]
  rfl

/-- The errors after the scan of a table. -/
def scanErrors (ctx : Context) (store : Store) (table : String) (errors : List ValidationError) :
    List ValidationError :=
  if ctx.limits.maxScanRows < (store.scan (some ctx.stage) table none).length then
    errors ++ [scanLimitError table ctx.limits.maxScanRows "select.from"]
  else errors

theorem run_executeEntries_unknown (unknown : ctx.schema.get? s.base.table = none)
    (errors : List ValidationError) :
    w.run (s.executeEntries ctx errors) =
      ((.ok none, errors ++ [unknownTable ctx.schema s.base.table "select.from"]), w) := by
  rw [executeEntries, loadRows, unknown]
  rfl

theorem run_loadRows_sole (single : s.joins = [])
    (known : ctx.schema.get? s.base.table = some base) (errors : List ValidationError) :
    w.run (s.loadRows ctx errors) =
      if w.faults.contains .scan then ((.error (World.outage .scan), errors), w)
      else
        let loaded := s.soleRows base
          ((w.store.scan (some ctx.stage) base.name none).take ctx.limits.maxScanRows)
        ((.ok (some ({ ctx with aliases := loaded.1 }, loaded.2)),
          scanErrors ctx w.store base.name errors), w) := by
  have typed : w.run (Exec.log (joinTypes ctx.schema 0 s.joins) errors) =
      ((.ok [], errors), w) := by
    rw [single]
    rfl
  have scanned := run_scanTable w ctx base.name "select.from" errors
  rw [loadRows, known]
  dsimp only
  rw [Exec.run_bind typed, if_neg (by simp [single])]
  by_cases fails : w.faults.contains .scan = true
  · rw [if_pos fails] at scanned ⊢
    exact Exec.run_bind_error scanned _
  · rw [if_neg fails] at scanned ⊢
    have bound : s.bindings base [] = [(s.base.name, base.name)] := by
      rw [bindings, single]
      rfl
    rw [Exec.run_bind scanned, soleRows, single, bound]
    cases named : s.base.givenName with
    | none => rfl
    | some name => rfl

theorem run_executeEntries_known (single : s.joins = [])
    (known : ctx.schema.get? s.base.table = some base) (errors : List ValidationError) :
    w.run (s.executeEntries ctx errors) =
      if w.faults.contains .scan then ((.error (World.outage .scan), errors), w)
      else
        let loaded := s.soleRows base
          ((w.store.scan (some ctx.stage) base.name none).take ctx.limits.maxScanRows)
        let answered := (s.answer { ctx with aliases := loaded.1 }.scope loaded.2).run
          (scanErrors ctx w.store base.name errors)
        ((.ok (some answered.1), answered.2), w) := by
  have known : ({ ctx with aliases := [] } : Context).schema.get? s.base.table = some base := known
  have loaded := run_loadRows_sole (w := w) single known errors
  rw [executeEntries]
  by_cases fails : w.faults.contains .scan = true
  · rw [if_pos fails] at loaded ⊢
    exact Exec.run_bind_error loaded _
  · rw [if_neg fails] at loaded ⊢
    rw [Exec.run_bind loaded]
    rfl

section
variable {plain named : Scope} {name : String} {d : TypeDef} {records : List Record}

/-- Rows with a single entry are answered from as the records themselves are. -/
theorem answer_entryRow (sole : SoleSource plain named name d)
    (qualified : ∀ e ∈ s.exprs, ∀ ref ∈ e.columns, ref.1 = d.name)
    (plainRecords : ∀ r ∈ records, r.Plain) (errors : List ValidationError) :
    (s.answer named (records.map (entryRow name))).run errors =
      (s.answer plain records).run errors := by
  have rows : List.Forall₂ (EntryOf name) records (records.map (entryRow name)) := by
    rw [List.forall₂_map_right_iff, List.forall₂_same]
    exact fun r member => ⟨plainRecords r member, rfl⟩
  exact run_answer_of_alike (fun e member => sole.expr_alike (qualified e member)) rows errors

/-- Where the columns refer to the name of the only entry, the values stay in their places. -/
theorem answer_requalify (sole : SoleSource plain named name d)
    (qualified : ∀ e ∈ s.exprs, ∀ ref ∈ e.columns, ref.1 = d.name)
    (plainRecords : ∀ r ∈ records, r.Plain) (errors : List ValidationError) :
    (((s.requalify name).answer named (records.map (entryRow name))).run errors).1.map
        (·.map Prod.snd) =
      ((s.answer plain records).run errors).1.map (·.map Prod.snd) := by
  have alike : s.Alike False plain named (EntryOf name) (s.requalify name) :=
    alike_mapExprs (fun e member => sole.requalify_alike (qualified e member))
      (Projection.isWildcard_requalify name) False.elim (Expr.containsAggregate_requalify name)
  have rows : List.Forall₂ (EntryOf name) records (records.map (entryRow name)) := by
    rw [List.forall₂_map_right_iff, List.forall₂_same]
    exact fun r member => ⟨plainRecords r member, rfl⟩
  have same := (answer_alike alike rows errors errors fun _ => rfl).1
  have values := List.rel_map (fun a b (alike : Entries.Alike False a b) => alike.values) same
  rw [List.forall₂_eq_eq_eq] at values
  exact values.symm

end

/-- A result has one row for each list of output columns. -/
theorem count_execute (s : Select) (ctx : Context) (w : World) (errors : List ValidationError) :
    (w.run (s.execute ctx errors)).1.1.map (·.rows.length) =
      ((w.run (s.executeEntries ctx errors)).1.1.map (·.map (·.map (·.map Prod.snd)))).map
        fun found => (found.getD []).length := by
  rcases ran : w.run (s.executeEntries ctx errors) with ⟨⟨reply, later⟩, after⟩
  rw [execute]
  cases reply with
  | error failure =>
    rw [Exec.run_bind_error ran]
    rfl
  | ok found =>
    rw [Exec.run_bind ran]
    cases found with
    | none => rfl
    | some entries =>
      have count : (entries.map Entries.toRow).length =
          (entries.map (·.map Prod.snd)).length := by rw [List.length_map, List.length_map]
      exact congrArg Except.ok count

section
variable {name : String} (single : s.joins = []) (unnamed : s.base.givenName = none)
  (differs : Text.lower name ≠ Text.lower s.base.table)
  (qualified : ∀ e ∈ s.exprs, ∀ ref ∈ e.columns, ref.1 = Text.lower s.base.table)
  (plain : ∀ r ∈ w.store.scan (some ctx.stage) s.base.table none, r.Plain)

include single unnamed differs qualified plain

theorem run_executeEntries_aliased (errors : List ValidationError) :
    w.run ((s.aliased name).executeEntries ctx errors) = w.run (s.executeEntries ctx errors) ∧
    (w.run (((s.aliased name).requalify (Text.lower name)).executeEntries ctx errors)).1.1.map
        (·.map (·.map (·.map Prod.snd))) =
      (w.run (s.executeEntries ctx errors)).1.1.map (·.map (·.map (·.map Prod.snd))) := by
  cases known : ctx.schema.get? s.base.table with
  | none =>
    rw [run_executeEntries_unknown (s := s) known,
      run_executeEntries_unknown (s := s.aliased name) known,
      run_executeEntries_unknown (s := (s.aliased name).requalify (Text.lower name)) known]
    exact ⟨rfl, rfl⟩
  | some d =>
    have typeName := Schema.name_of_get? known
    have noJoins : ((s.aliased name).requalify (Text.lower name)).joins = [] := by
      simp [requalify, mapExprs, aliased, single]
    rw [run_executeEntries_known (s := s) single known,
      run_executeEntries_known (s := s.aliased name) single known,
      run_executeEntries_known (s := (s.aliased name).requalify (Text.lower name)) noJoins known]
    by_cases fails : w.faults.contains .scan = true
    · rw [if_pos fails, if_pos fails, if_pos fails]
      exact ⟨rfl, rfl⟩
    · rw [if_neg fails, if_neg fails, if_neg fails]
      have sole : SoleSource { ctx with aliases := [] }.scope
          { ctx with aliases := [(Text.lower name, d.name)] }.scope (Text.lower name) d :=
        { unnamed := rfl
          aliases := rfl
          schema := rfl
          agrees := ⟨rfl, rfl⟩
          known := Schema.get?_own_name known
          differs := by rw [typeName]; exact differs }
      have ofTable : ∀ e ∈ s.exprs, ∀ ref ∈ e.columns, ref.1 = d.name := by
        rw [typeName]
        exact qualified
      have table : w.store.scan (some ctx.stage) d.name none =
          w.store.scan (some ctx.stage) s.base.table none := by
        rw [typeName, Store.scan_lower]
      have records : ∀ r ∈ (w.store.scan (some ctx.stage) d.name none).take
          ctx.limits.maxScanRows, r.Plain := by
        intro r member
        rw [table] at member
        exact plain r (List.mem_of_mem_take member)
      dsimp only
      rw [soleRows_unnamed unnamed, soleRows_named (s := s.aliased name) rfl,
        soleRows_named (s := (s.aliased name).requalify (Text.lower name)) rfl]
      constructor
      · have same := answer_entryRow sole ofTable records
          (scanErrors ctx w.store d.name errors)
        rw [← same]
        rfl
      · have same := answer_requalify sole ofTable records
          (scanErrors ctx w.store d.name errors)
        exact congrArg (fun rows => Except.ok (some rows)) same

/-- A name for the table changes nothing as long as the columns refer to the table. Where they refer
to the name instead, there are as many rows, and their output columns have the same values in the
same places. -/
theorem aliased_agrees (errors : List ValidationError) :
    w.run ((s.aliased name).executeEntries ctx errors) = w.run (s.executeEntries ctx errors) ∧
    w.run ((s.aliased name).execute ctx errors) = w.run (s.execute ctx errors) ∧
    (w.run (((s.aliased name).requalify (Text.lower name)).executeEntries ctx errors)).1.1.map
        (·.map (·.map (·.map Prod.snd))) =
      (w.run (s.executeEntries ctx errors)).1.1.map (·.map (·.map (·.map Prod.snd))) ∧
    (w.run (((s.aliased name).requalify (Text.lower name)).execute ctx errors)).1.1.map
        (·.rows.length) =
      (w.run (s.execute ctx errors)).1.1.map (·.rows.length) := by
  obtain ⟨same, values⟩ := run_executeEntries_aliased single unnamed differs qualified plain errors
  refine ⟨same, Exec.run_bind_congr same _, values, ?_⟩
  rw [count_execute, values, ← count_execute]

end

/-- A context for items of some kind. -/
def kindContext : Context :=
  { schema := .ofTypes [.ofFields "items" [.ofType "kind" .string]]
    stage := ⟨1⟩
    now := ⟨0, 0, 0⟩ }

/-- A world with four items, one of them without a kind. -/
def kindWorld : World :=
  let now : Calendar.Instant := ⟨0, 0, 0⟩
  let pens := (Store.seed {} now "items" "a" [("kind", .str "pen")]).seed now "items" "b"
    [("kind", .str "cup")]
  { store := (pens.seed now "items" "c" [("kind", .str "pen")]).seed now "items" "d" []
    now
    ids := fun _ => "new" }

/-- How many items there are of each kind. -/
def kindCounts : Select :=
  { projections := [⟨.ref "items" "kind", none⟩, ⟨.invoke "count" [.ref "items" "id"], some "n"⟩]
    base := .ofTable "Items"
    filter := some (.isNull (.ref "items" "kind") true)
    groupBy := [.ref "items" "kind"]
    orderBy := [⟨.ref "items" "kind", false⟩] }

theorem aliased_agrees_kindCounts :
    (kindCounts.joins = [] ∧ kindCounts.base.givenName = none ∧
      Text.lower "I" ≠ Text.lower kindCounts.base.table ∧
      (∀ e ∈ kindCounts.exprs, ∀ ref ∈ e.columns, ref.1 = Text.lower kindCounts.base.table) ∧
      ∀ r ∈ kindWorld.store.scan (some kindContext.stage) kindCounts.base.table none, r.Plain) ∧
    kindWorld.run ((kindCounts.aliased "I").execute kindContext []) =
      kindWorld.run (kindCounts.execute kindContext []) ∧
    (kindWorld.run (((kindCounts.aliased "I").requalify (Text.lower "I")).executeEntries kindContext
        [])).1.1.map (·.map (·.map (·.map Prod.snd))) =
      (kindWorld.run (kindCounts.executeEntries kindContext [])).1.1.map
        (·.map (·.map (·.map Prod.snd))) := by
  have differs : Text.lower "I" ≠ Text.lower kindCounts.base.table := by decide +kernel
  have qualified : ∀ e ∈ kindCounts.exprs, ∀ ref ∈ e.columns,
      ref.1 = Text.lower kindCounts.base.table := by decide +kernel
  have plain : ∀ r ∈ kindWorld.store.scan (some kindContext.stage) kindCounts.base.table none,
      r.Plain := by decide +kernel
  have agrees := aliased_agrees rfl rfl differs qualified plain []
  exact ⟨⟨rfl, rfl, differs, qualified, plain⟩, agrees.2.1, agrees.2.2.1⟩

end Select

end RecordQuery
