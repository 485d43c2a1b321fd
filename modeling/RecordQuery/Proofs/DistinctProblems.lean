import RecordQuery.Proofs.ReportedOnce
import RecordQuery.Proofs.Sources

/-!
The problems of a query, each of which is reported once. An expression is evaluated on rows, on
pairs of rows that may be joined, and on groups of rows, and each fault of each evaluation is a
problem in the clause of the expression; besides, sources may not exist, or hold more rows than may
be read. All of them, in the order in which they are met, are a function of the query and of the
world that it runs in (`Select.problems`). No place of a join is used before the join itself comes
(`Select.JoinsUntold`), so what is reported without a look at the earlier errors is new too, and a
query ends with its problems without their repetitions. The main statement is
`Select.problems_reported`.
-/
namespace RecordQuery

/-! ### Paths of items -/

/-- What stands in front of the closing bracket is the index, and nothing follows it. -/
theorem itemPath_append_inj {list rest : String} {i k : Nat}
    (same : itemPath list i ++ rest = itemPath list k) : i = k ∧ rest = "" := by
  have texts := congrArg String.toList same
  simp only [itemPath, String.toList_append, List.append_assoc, List.append_cancel_left_eq] at texts
  have digits (n : Nat) : (toString n).toList = Nat.toDigits 10 n := Nat.toList_repr
  have closes : ']' ∉ (toString k).toList := by
    intro listed
    rw [digits] at listed
    exact absurd (Nat.isDigit_of_mem_toDigits (by decide) (by decide) listed) (by decide)
  obtain ⟨index, -, ends⟩ :=
    (List.append_cons_inj_of_notMem closes List.not_mem_nil).mp texts.symm
  rw [digits, digits] at index
  have value := congrArg (Nat.ofDigitChars 10 · 0) index
  simp only [Nat.ofDigitChars_ten_toDigits] at value
  exact ⟨value.symm, String.toList_eq_nil_iff.mp ends.symm⟩

/-- What is written behind a text leaves its first letters. -/
theorem take_append {text : String} {count : Nat} (long : count ≤ text.toList.length)
    (rest : String) : (text ++ rest).toList.take count = text.toList.take count := by
  rw [String.toList_append, List.take_append_of_le_length long]

theorem take_itemPath_append {list : String} {count : Nat} (long : count ≤ list.toList.length)
    (index : Nat) (rest : String) :
    (itemPath list index ++ rest).toList.take count = list.toList.take count := by
  rw [itemPath, String.append_assoc, String.append_assoc, String.append_assoc, take_append long]

theorem from_ne_itemPath (i : Nat) : "select.from" ≠ itemPath "select.joins" i := by
  refine mt (congrArg fun path : String => path.toList.take 8) ?_
  rw [← @String.append_empty (itemPath _ _), take_itemPath_append (by decide)]
  decide

/-! ### The problems of a query -/

/-- A table that holds more records than may be read is a problem. -/
def Context.scanProblems (ctx : Context) (store : Store) (table path : String) :
    List ValidationError :=
  if ctx.limits.maxScanRows < (store.scan (some ctx.stage) table none).length then
    [scanLimitError table ctx.limits.maxScanRows path]
  else []

theorem Context.eq_of_mem_scanProblems {ctx : Context} {store : Store} {table path : String}
    {e : ValidationError} (listed : e ∈ ctx.scanProblems store table path) :
    e = scanLimitError table ctx.limits.maxScanRows path := by
  rw [scanProblems] at listed
  split at listed
  · exact List.mem_singleton.mp listed
  · cases listed

/-- The problems of projections on a row or a group, the first of which has the given index. -/
def projectionProblems (scope : Scope) (row : Option Record) (group : Option (List Record))
    (clause : String) (index : Nat) (ps : List Projection) : List ValidationError :=
  (ps.zipIdx index).flatMap fun entry =>
    (entry.1.expr.eval scope row group).problems (itemPath clause entry.2)

theorem projectFrom_reports (scope : Scope) (row : Option Record) (group : Option (List Record))
    (clause : String) (ps : List Projection) : ∀ index,
    (projectFrom scope row group clause index ps).Reports
      (projectionProblems scope row group clause index ps) := by
  induction ps with
  | nil => intro index; exact Log.reports_pure []
  | cons p rest ih =>
    intro index
    rw [projectionProblems, List.zipIdx_cons, List.flatMap_cons]
    exact ((Log.reports_within _ (p.expr.eval scope row group)).bind_pure _).bind fun entries =>
      (ih (index + 1)).bind_pure _

namespace Select

/-- The sources of joins that do not exist, the first join having the given index. -/
def unknownJoins (schema : Schema) (index : Nat) (joins : List Join) : List ValidationError :=
  ((joins.zipIdx index).filter fun entry => (schema.get? entry.1.source.table).isNone).map
    fun entry => unknownTable schema entry.1.source.table (itemPath "select.joins" entry.2)

/-- The problems of joins, one after another: each reads its table, and its condition is evaluated
on every pair of a row so far and a record. -/
def joinProblems (ctx : Context) (store : Store) :
    Nat → List (Join × TypeDef) → List Record → List ValidationError
  | _, [], _ => []
  | index, (j, d) :: rest, rows =>
    let path := itemPath "select.joins" index
    let right := ctx.reads store d
    ctx.scanProblems store d.name path ++
      (rows.flatMap fun row => right.flatMap fun candidate =>
        (j.on.passes ctx.scope (some (addEntry row j.source.name (.obj candidate.toRow)))
          none).problems (path ++ ".on")) ++
      joinProblems ctx store (index + 1) rest (rows.flatMap (extensions ctx.scope j right))

section
variable (s : Select) (ctx : Context) (store : Store) (base : TypeDef) (types : List TypeDef)

/-- What a query loads from its sources, with the context of the rows. -/
def fetched : Context × List Record :=
  if s.joins.isEmpty && s.base.givenName.isNone then
    ({ ctx with aliases := [] }, ctx.reads store base)
  else
    let inner := { ctx with aliases := s.bindings base types }
    (inner, joinedRows inner store (s.joins.zip types)
      ((ctx.reads store base).map (entryRow s.base.name)))

/-- The problems of loading the sources of a query. -/
def sourceProblems : List ValidationError :=
  ctx.scanProblems store base.name "select.from" ++
    joinProblems { ctx with aliases := s.bindings base types } store 0 (s.joins.zip types)
      ((ctx.reads store base).map (entryRow s.base.name))

end

section
variable (s : Select) (scope : Scope)

/-- The problems of computing one output row, on a row or on a group. -/
def outputProblems (row : Option Record) (group : Option (List Record)) : List ValidationError :=
  projectionProblems scope row group "select.projections" 0 s.projections ++
    s.orderBy.flatMap fun key => (key.expr.eval scope row group).problems "select.order_by"

/-- The problems of answering a query from its rows: those of the condition on each row, and on the
rows that pass, those of the keys of groups and of the output rows. -/
def answerProblems (rows : List Record) : List ValidationError :=
  let kept := s.kept scope rows
  (rows.flatMap fun row => s.filter.toList.flatMap fun e =>
      (e.passes scope (some row) none).problems "select.where") ++
    if s.isAggregated then
      (kept.flatMap fun row =>
        (Expr.evalAll scope (some row) none s.groupBy).problems "select.group_by") ++
      (groupsOf scope s.groupBy kept).flatMap fun members =>
        s.outputProblems scope members.head? (some members)
    else kept.flatMap fun row => s.outputProblems scope (some row) none

end

/-- All problems of a query, in the order in which they are met. A query with a source that does not
exist is given up, and so is one whose tables cannot be read. -/
def problems (s : Select) (ctx : Context) (w : World) : List ValidationError :=
  match ctx.schema.get? s.base.table with
  | none => [unknownTable ctx.schema s.base.table "select.from"]
  | some base =>
    let types := s.joins.filterMap fun j => ctx.schema.get? j.source.table
    if types.length ≠ s.joins.length then unknownJoins ctx.schema 0 s.joins
    else if w.faults.contains .scan then []
    else
      let loaded := s.fetched ctx w.store base types
      s.sourceProblems ctx w.store base types ++ s.answerProblems loaded.1.scope loaded.2

/-! ### Reporting the problems of a query -/

section
variable (s : Select) (scope : Scope)

theorem filterRows_reports (rows : List Record) :
    (filterRows scope s.filter rows).Reports (rows.flatMap fun row => s.filter.toList.flatMap
      fun e => (e.passes scope (some row) none).problems "select.where") := by
  cases s.filter with
  | none => exact Log.reports_pure_of_eq_nil (List.flatMap_eq_nil_iff.mpr fun _ _ => rfl) rows
  | some e =>
    refine Log.Reports.filterM (fun row => ?_) rows
    rw [Option.toList_some, List.flatMap_singleton]
    exact Log.reports_within "select.where" (e.passes scope (some row) none)

theorem outputRow_reports (row : Option Record) (group : Option (List Record)) :
    (s.outputRow scope row group).Reports (s.outputProblems scope row group) := by
  have one (key : SortKey) : Log.Reports
      ((key.expr.eval scope row group).problems "select.order_by")
      (do return (← Log.within "select.order_by" (key.expr.eval scope row group)).raw) :=
    (Log.reports_within "select.order_by" (key.expr.eval scope row group)).bind_pure _
  have values := Log.Reports.mapM one s.orderBy
  exact (projectFrom_reports scope row group "select.projections" s.projections 0).bind fun _ =>
    values.bind_pure _

theorem groupRows_reports (exprs : List Expr) (rows : List Record) :
    (groupRows scope exprs rows).Reports (rows.flatMap fun row =>
      (Expr.evalAll scope (some row) none exprs).problems "select.group_by") := by
  rw [groupRows]
  split
  · rename_i ungrouped
    obtain rfl := List.isEmpty_iff.mp ungrouped
    exact Log.reports_pure_of_eq_nil (List.flatMap_eq_nil_iff.mpr fun _ _ => rfl) [rows]
  · have key (row : Record) : (groupKey scope exprs row).Reports
        ((Expr.evalAll scope (some row) none exprs).problems "select.group_by") :=
      (Log.reports_within "select.group_by" _).bind_pure _
    exact (Log.Reports.foldlM (fun groups row => (key row).bind_pure _) rows []).bind_pure _

theorem outputRows_reports (rows : List Record) :
    (s.outputRows scope rows).Reports
      (if s.isAggregated then
        (rows.flatMap fun row =>
          (Expr.evalAll scope (some row) none s.groupBy).problems "select.group_by") ++
        (groupsOf scope s.groupBy rows).flatMap fun members =>
          s.outputProblems scope members.head? (some members)
      else rows.flatMap fun row => s.outputProblems scope (some row) none) := by
  rw [outputRows]
  split
  · refine (groupRows_reports scope s.groupBy rows).bind_of_yields
      (groupRows_yields scope rows s.groupBy) ?_
    exact Log.Reports.mapM (fun members => s.outputRow_reports scope _ _) _
  · exact Log.Reports.mapM (fun row => s.outputRow_reports scope _ _) rows

/-- Answering a query from its rows reports each problem once. -/
theorem answer_reports (rows : List Record) :
    (s.answer scope rows).Reports (s.answerProblems scope rows) :=
  (s.filterRows_reports scope rows).bind_of_yields (s.filterRows_yields scope rows)
    ((s.outputRows_reports scope (s.kept scope rows)).bind_pure _)

end

section
variable (scope : Scope) (j : Join) (path : String)

theorem matchRows_reports (row : Record) (right : List Record) :
    (matchRows scope j path row right).Reports (right.flatMap fun candidate =>
      (j.on.passes scope (some (addEntry row j.source.name (.obj candidate.toRow)))
        none).problems path) := by
  induction right with
  | nil => exact Log.reports_pure []
  | cons candidate rest ih =>
    rw [List.flatMap_cons]
    exact (Log.reports_within path _).bind fun keep => ih.bind_pure _

theorem joinRows_reports (right rows : List Record) :
    (joinRows scope j path right rows).Reports (rows.flatMap fun row =>
      right.flatMap fun candidate =>
        (j.on.passes scope (some (addEntry row j.source.name (.obj candidate.toRow)))
          none).problems path) := by
  induction rows with
  | nil => exact Log.reports_pure []
  | cons row rest ih =>
    rw [List.flatMap_cons]
    exact (matchRows_reports scope j path row right).bind fun found => ih.bind_pure _

end

/-- No error is at the place of a join from the given one on. -/
def JoinsUntold (index : Nat) (errors : List ValidationError) : Prop :=
  ∀ e ∈ errors, ∀ i, index ≤ i → e.path ≠ itemPath "select.joins" i

theorem JoinsUntold.later {index : Nat} {errors : List ValidationError}
    (untold : JoinsUntold index errors) : JoinsUntold (index + 1) errors :=
  fun e member i after => untold e member i (Nat.le_of_succ_le after)

/-- Errors at one join and inside it leave the later ones untold. -/
theorem JoinsUntold.reportAll {index : Nat} {errors problems : List ValidationError}
    (untold : JoinsUntold index errors)
    (here : ∀ e ∈ problems, ∃ rest, e.path = itemPath "select.joins" index ++ rest) :
    JoinsUntold (index + 1) (reportAll errors problems) := by
  intro e listed i after same
  rcases mem_of_mem_reportAll listed with earlier | new
  · exact untold.later e earlier i after same
  · obtain ⟨rest, located⟩ := here e new
    obtain ⟨equal, -⟩ := itemPath_append_inj (located.symm.trans same)
    omega

theorem joinTypes_reports (schema : Schema) (joins : List Join) :
    ∀ {index : Nat} {errors : List ValidationError}, JoinsUntold index errors →
      ((joinTypes schema index joins).run errors).2 =
        reportAll errors (unknownJoins schema index joins) := by
  induction joins with
  | nil => intro index errors _; rfl
  | cons j rest ih =>
    intro index errors untold
    rw [joinTypes, unknownJoins, List.zipIdx_cons, List.filter_cons]
    cases schema.get? j.source.table with
    | some d => exact ih untold.later
    | none =>
      have new : reportAll errors [unknownTable schema j.source.table
          (itemPath "select.joins" index)] = _ :=
        reportAll_of_new fun e member => untold e member index (Nat.le_refl index)
      have later : JoinsUntold (index + 1) (errors ++ [unknownTable schema j.source.table
          (itemPath "select.joins" index)]) := by
        rw [← new]
        refine untold.reportAll fun e listed => ⟨"", ?_⟩
        obtain rfl := List.mem_singleton.mp listed
        exact (String.append_empty).symm
      exact (ih later).trans (by rw [← new]; exact (reportAll_append errors [_] _).symm)

theorem run_scanTable_reports (ctx : Context) {w : World} (d : TypeDef) {path : String}
    {errors : List ValidationError} (readable : w.faults.contains .scan = false)
    (untold : ∀ e ∈ errors, e.path ≠ path) :
    w.run (scanTable ctx d.name path errors) =
      ((.ok (ctx.reads w.store d), reportAll errors (ctx.scanProblems w.store d.name path)),
        w) := by
  rw [run_scanTable, if_neg (by rw [readable]; exact Bool.false_ne_true), Context.scanProblems]
  split
  · rw [reportAll_of_new untold]
    rfl
  · rfl

theorem run_joinAll_reports {ctx : Context} {w : World} (readable : w.faults.contains .scan = false)
    (levels : List (Join × TypeDef)) :
    ∀ {index : Nat} {rows : List Record} {errors : List ValidationError},
      JoinsUntold index errors →
        w.run (joinAll ctx index levels rows errors) =
          ((.ok (joinedRows ctx w.store levels rows),
            reportAll errors (joinProblems ctx w.store index levels rows)), w) := by
  induction levels with
  | nil => intro index rows errors _; rfl
  | cons level rest ih =>
    intro index rows errors untold
    obtain ⟨j, d⟩ := level
    have scanned := run_scanTable_reports ctx d readable
      fun e member => untold e member index (Nat.le_refl index)
    rw [joinAll, Exec.run_bind scanned, Exec.run_bind (Exec.run_log w _ _), joinRows_value,
      joinRows_reports, ← reportAll_append, ih (untold.reportAll fun e listed => ?_),
      ← reportAll_append]
    · rfl
    · rcases List.mem_append.mp listed with more | faulty
      · obtain rfl := Context.eq_of_mem_scanProblems more
        exact ⟨"", String.append_empty.symm⟩
      · obtain ⟨row, -, faulty⟩ := List.mem_flatMap.mp faulty
        obtain ⟨candidate, -, faulty⟩ := List.mem_flatMap.mp faulty
        obtain ⟨inner, -, located⟩ := Reported.inside_of_mem_problems faulty
        exact ⟨".on" ++ "." ++ inner, located.trans (by simp only [String.append_assoc])⟩

/-- Loading the sources of a query finds its problems, and it is stopped where tables cannot be
read. -/
theorem run_loadRows_reports (s : Select) (ctx : Context) (w : World) :
    w.run (s.loadRows ctx []) =
      match ctx.schema.get? s.base.table with
      | none => ((.ok none, [unknownTable ctx.schema s.base.table "select.from"]), w)
      | some base =>
        let types := s.joins.filterMap fun j => ctx.schema.get? j.source.table
        if types.length ≠ s.joins.length then
          ((.ok none, reportAll [] (unknownJoins ctx.schema 0 s.joins)), w)
        else if w.faults.contains .scan then ((.error (World.outage .scan), []), w)
        else
          ((.ok (some (s.fetched ctx w.store base types)),
            reportAll [] (s.sourceProblems ctx w.store base types)), w) := by
  have untold : JoinsUntold 0 [] := List.forall_mem_nil _
  rw [loadRows]
  cases ctx.schema.get? s.base.table with
  | none => rfl
  | some base =>
    dsimp only
    have typed := Exec.run_log w (joinTypes ctx.schema 0 s.joins) []
    by_cases missing : (s.joins.filterMap fun j => ctx.schema.get? j.source.table).length ≠
        s.joins.length
    · rw [joinTypes_value, joinTypes_reports ctx.schema s.joins untold] at typed
      rw [Exec.run_bind typed, if_pos missing, if_pos missing]
      rfl
    · rw [errors_of_joinTypes s.joins 0 [] (by rw [joinTypes_value]; exact not_not.mp missing),
        joinTypes_value] at typed
      rw [Exec.run_bind typed, if_neg missing, if_neg missing]
      cases readable : w.faults.contains .scan with
      | true =>
        have stopped := run_scanTable w ctx base.name "select.from" []
        rw [if_pos readable] at stopped
        exact Exec.run_bind_error stopped _
      | false =>
        have scanned := run_scanTable_reports ctx base readable
          (List.forall_mem_nil fun e : ValidationError => e.path ≠ "select.from")
        rw [Exec.run_bind scanned, fetched, sourceProblems, reportAll_append]
        split
        · rename_i alone
          have single : s.joins = [] := List.isEmpty_iff.mp (Bool.and_eq_true_iff.mp alone).1
          rw [single]
          rfl
        · have untold : JoinsUntold 0
              (reportAll [] (ctx.scanProblems w.store base.name "select.from")) := by
            intro e listed i _
            obtain rfl := Context.eq_of_mem_scanProblems
              ((mem_of_mem_reportAll listed).resolve_left List.not_mem_nil)
            exact from_ne_itemPath i
          rw [Exec.run_bind (run_joinAll_reports readable _ untold)]
          rfl

/-- The errors of a query are its problems without repetitions. -/
theorem errors_of_executeEntries (s : Select) (ctx : Context) (w : World) :
    (w.run (s.executeEntries ctx [])).1.2 = reportAll [] (s.problems ctx w) := by
  have loaded := s.run_loadRows_reports { ctx with aliases := [] } w
  rw [problems]
  -- Whether the query is given up, is stopped, or goes on is settled by what it loads.
  cases known : ctx.schema.get? s.base.table with
  | none =>
    rw [show ({ ctx with aliases := [] } : Context).schema.get? _ = none from known] at loaded
    rw [executeEntries, Exec.run_bind loaded]
    rfl
  | some base =>
    rw [show ({ ctx with aliases := [] } : Context).schema.get? _ = some base from known] at loaded
    dsimp only at loaded ⊢
    split at loaded
    · rename_i missing
      rw [if_pos missing, executeEntries, Exec.run_bind loaded]
      rfl
    · rename_i complete
      rw [if_neg complete]
      split at loaded
      · rename_i stopped
        rw [if_pos stopped, executeEntries, Exec.run_bind_error loaded]
        rfl
      · rename_i readable
        rw [if_neg readable, run_executeEntries loaded, answer_reports, reportAll_append]
        rfl

theorem errors_execute (s : Select) (ctx : Context) (w : World) (errors : List ValidationError) :
    (w.run (s.execute ctx errors)).1.2 = (w.run (s.executeEntries ctx errors)).1.2 := by
  rcases ran : w.run (s.executeEntries ctx errors) with ⟨⟨failure | found, later⟩, after⟩
  · rw [execute, Exec.run_bind_error ran]
  · rw [execute, Exec.run_bind ran]
    cases found <;> rfl

/-! ### What problems there are -/

/-- A clause of a query that is evaluated on its rows or on groups of them. -/
inductive RowClause : String → Prop
  | filter : RowClause "select.where"
  | groupBy : RowClause "select.group_by"
  | orderBy : RowClause "select.order_by"
  | projection (index : Nat) : RowClause (itemPath "select.projections" index)

theorem fault_of_mem_outputProblems {s : Select} {scope : Scope} {row : Option Record}
    {group : Option (List Record)} {e : ValidationError}
    (listed : e ∈ s.outputProblems scope row group) :
    ∃ (f : Fault) (clause : String), RowClause clause ∧ e = f.error.within clause := by
  rcases List.mem_append.mp listed with projected | sorted
  · obtain ⟨⟨p, index⟩, -, faulty⟩ := List.mem_flatMap.mp projected
    obtain ⟨f, -, rfl⟩ := List.mem_map.mp faulty
    exact ⟨f, _, .projection index, rfl⟩
  · obtain ⟨key, -, faulty⟩ := List.mem_flatMap.mp sorted
    obtain ⟨f, -, rfl⟩ := List.mem_map.mp faulty
    exact ⟨f, _, .orderBy, rfl⟩

/-- The problems of answering a query from its rows are faults of evaluations. -/
theorem fault_of_mem_answerProblems {s : Select} {scope : Scope} {rows : List Record}
    {e : ValidationError} (listed : e ∈ s.answerProblems scope rows) :
    ∃ (f : Fault) (clause : String), RowClause clause ∧ e = f.error.within clause := by
  rcases List.mem_append.mp listed with filtered | put
  · obtain ⟨row, -, faulty⟩ := List.mem_flatMap.mp filtered
    obtain ⟨condition, -, faulty⟩ := List.mem_flatMap.mp faulty
    obtain ⟨f, -, rfl⟩ := List.mem_map.mp faulty
    exact ⟨f, _, .filter, rfl⟩
  · split at put
    · rcases List.mem_append.mp put with grouped | put
      · obtain ⟨row, -, faulty⟩ := List.mem_flatMap.mp grouped
        obtain ⟨f, -, rfl⟩ := List.mem_map.mp faulty
        exact ⟨f, _, .groupBy, rfl⟩
      · obtain ⟨members, -, faulty⟩ := List.mem_flatMap.mp put
        exact fault_of_mem_outputProblems faulty
    · obtain ⟨row, -, faulty⟩ := List.mem_flatMap.mp put
      exact fault_of_mem_outputProblems faulty

/-- The problems of joins are tables that are too long and faults of conditions. -/
theorem cases_of_mem_joinProblems {ctx : Context} {store : Store} {e : ValidationError}
    (levels : List (Join × TypeDef)) : ∀ {index : Nat} {rows : List Record},
    e ∈ joinProblems ctx store index levels rows →
      ∃ i j d, levels[i]? = some (j, d) ∧
        (e ∈ ctx.scanProblems store d.name (itemPath "select.joins" (index + i)) ∨
          ∃ f : Fault, e = f.error.within (itemPath "select.joins" (index + i) ++ ".on")) := by
  induction levels with
  | nil => intro index rows listed; cases listed
  | cons level rest ih =>
    intro index rows listed
    obtain ⟨j, d⟩ := level
    rcases List.mem_append.mp listed with here | later
    · refine ⟨0, j, d, rfl, (List.mem_append.mp here).imp_right fun faulty => ?_⟩
      obtain ⟨row, -, faulty⟩ := List.mem_flatMap.mp faulty
      obtain ⟨candidate, -, faulty⟩ := List.mem_flatMap.mp faulty
      obtain ⟨f, -, same⟩ := List.mem_map.mp faulty
      exact ⟨f, same.symm⟩
    · obtain ⟨i, j, d, found, origin⟩ := ih later
      rw [Nat.add_right_comm] at origin
      exact ⟨i + 1, j, d, found, origin⟩

/-- All problems of a query are plain. -/
theorem plain_of_mem_problems {s : Select} {ctx : Context} {w : World} {e : ValidationError}
    (listed : e ∈ s.problems ctx w) : e.Plain := by
  have bare {e : ValidationError} (none : e.metadata = none) : e.Plain := by
    intro tree kept
    rw [none] at kept
    cases kept
  have long {e : ValidationError} {ctx : Context} {store : Store} {table path : String}
      (listed : e ∈ ctx.scanProblems store table path) : e.Plain := by
    rw [Context.eq_of_mem_scanProblems listed]
    exact bare rfl
  rw [problems] at listed
  split at listed
  · rw [List.mem_singleton.mp listed]
    exact bare rfl
  · dsimp only at listed
    split at listed
    · obtain ⟨entry, -, rfl⟩ := List.mem_map.mp listed
      exact bare rfl
    · split at listed
      · cases listed
      · rcases List.mem_append.mp listed with loading | answering
        · rcases List.mem_append.mp loading with first | joining
          · exact long first
          · obtain ⟨i, j, d, -, more | ⟨f, rfl⟩⟩ := cases_of_mem_joinProblems _ joining
            · exact long more
            · exact f.plain_error _
        · obtain ⟨f, clause, -, rfl⟩ := fault_of_mem_answerProblems answering
          exact f.plain_error clause

/-- A query reports every distinct problem once. Started without errors, it ends with the problems
of all its evaluations in the order in which they are met, without the repetitions: no two of its
errors are equal, each of its problems is one of them, and they are problems; so there is no error
only if there is no problem. -/
theorem problems_reported (s : Select) (ctx : Context) (w : World) :
    let errors := (w.run (s.execute ctx [])).1.2
    errors = (s.problems ctx w).eraseDups ∧ errors.Nodup ∧
      (∀ e, e ∈ errors ↔ e ∈ s.problems ctx w) ∧ (errors = [] ↔ s.problems ctx w = []) := by
  dsimp only
  have plain : ∀ e ∈ s.problems ctx w, e.Plain := fun e => plain_of_mem_problems
  have member (e : ValidationError) :
      e ∈ reportAll [] (s.problems ctx w) ↔ e ∈ s.problems ctx w := by
    rw [mem_reportAll_iff plain, or_iff_right List.not_mem_nil]
  rw [errors_execute, errors_of_executeEntries]
  refine ⟨reportAll_nil _, nodup_reportAll plain List.nodup_nil, member, ?_⟩
  rw [List.eq_nil_iff_forall_not_mem, List.eq_nil_iff_forall_not_mem]
  exact forall_congr' fun e => not_congr (member e)

/-- All columns of the users whose names are below a number. -/
def weighedUsers : Select where
  projections := [⟨.ref "users" "*", none⟩]
  base := .ofTable "users"
  filter := some (.comparison .lt (.ref "users" "name") (.literal (.ofNat 1)))

/-- Each of two users is a problem for the condition, and it is reported once. -/
example : (weighedUsers.problems usersContext
      (usersWorld [("name", .str "Ann")] [("name", .str "Bob")])).map (·.path) =
        ["select.where.(<)", "select.where.(<)"] ∧
    ((usersWorld [("name", .str "Ann")] [("name", .str "Bob")]).run
      (weighedUsers.execute usersContext [])).1.2.map (·.path) = ["select.where.(<)"] := by
  decide +kernel

end Select

end RecordQuery
