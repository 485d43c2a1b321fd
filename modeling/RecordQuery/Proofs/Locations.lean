import RecordQuery.Engine
import RecordQuery.Proofs.AddedErrors
import RecordQuery.Proofs.Headers

/-!
Where errors are located. Faults of evaluation have short paths of their own, and each place where a
statement evaluates moves them into its clause; what else is reported has the path of a clause. So
every error of a statement is at one of its clauses or inside one, and every index in its path is
one of an item that the statement has (`Statement.errors_located`). The errors of a query that
yields rows to insert are moved once more; should the query fail, it does so before it has found an
error (`Select.errors_of_failed`).
-/
namespace RecordQuery

/-- A path leads to a place inside a clause. -/
def Inside (clause path : String) : Prop := ∃ inner, inner ≠ "" ∧ path = clause ++ "." ++ inner

/-! ### Faults -/

theorem Inside.ne_empty {clause path : String} (inside : Inside clause path) : path ≠ "" := by
  obtain ⟨inner, full, rfl⟩ := inside
  simp [full]

theorem Fault.error_path_ne_empty (f : Fault) : f.error.path ≠ "" := by
  cases f <;> simp [Fault.error, Expr.columnLabel, Expr.operatorLabel, Expr.callLabel]

/-- An error with a path is moved inside a clause. -/
theorem ValidationError.inside_within (clause : String) {e : ValidationError} (full : e.path ≠ "") :
    (e.within clause).path = clause ++ "." ++ e.path := by
  have located : e.path.isEmpty = false := by simpa using full
  rw [within, located]
  rfl

theorem Log.adds_inside {α : Type} {P : ValidationError → Prop} {clause : String} (x : Reported α)
    (inside : ∀ e : ValidationError, Inside clause e.path → P e) : (within clause x).Adds P := by
  refine adds_within fun f _ => inside _ ⟨f.error.path, f.error_path_ne_empty, ?_⟩
  exact ValidationError.inside_within clause f.error_path_ne_empty

/-! ### Shared steps -/

section
variable {P : ValidationError → Prop} (scope : Scope) {clause : String}

theorem projectFrom_adds (row : Option Record) (group : Option (List Record))
    (ps : List Projection) : ∀ index,
    (∀ i < index + ps.length, ∀ e : ValidationError, Inside (itemPath clause i) e.path → P e) →
      (projectFrom scope row group clause index ps).Adds P := by
  induction ps with
  | nil => intro index _; exact Log.adds_pure []
  | cons p rest ih =>
    intro index inside
    rw [List.length_cons] at inside
    refine ((Log.adds_inside _ (inside index (by omega))).bind fun _ => Log.adds_pure _).bind ?_
    intro entries
    refine (ih (index + 1) fun i listed => inside i (by omega)).bind fun more => Log.adds_pure _

theorem returningRows_adds (ps : List Projection) (records : List Record)
    (inside : ∀ i < ps.length, ∀ e : ValidationError, Inside (itemPath clause i) e.path → P e) :
    (returningRows scope clause ps records).Adds P := by
  rw [returningRows]
  split
  · exact Log.adds_pure []
  · refine Log.Adds.mapM fun r _ => ?_
    refine (projectFrom_adds scope (some r) none ps 0 ?_).bind fun _ => Log.adds_pure _
    rwa [Nat.zero_add]

end

/-- Reading a table reports at most that there is more to read. -/
theorem scanTable_adds {P : ValidationError → Prop} (ctx : Context) (table : String) {path : String}
    (located : ∀ e : ValidationError, e.path = path → P e) (w : World)
    (errors : List ValidationError) : (scanTable ctx table path).Adds P w errors := by
  refine (Exec.adds_attempt _).bind fun records later after _ => ?_
  split
  · refine (Exec.adds_log (Log.adds_report (located _ rfl))).bind fun _ _ _ _ => Exec.adds_pure _
  · exact Exec.adds_pure _

/-! ### Queries -/

namespace Select

/-- Where the errors of a query are located. -/
inductive Located (s : Select) : String → Prop
  | source : Located s "select.from"
  | join {index : Nat} (listed : index < s.joins.length) :
      Located s (itemPath "select.joins" index)
  | on {index : Nat} {path : String} (listed : index < s.joins.length)
      (inside : Inside (itemPath "select.joins" index ++ ".on") path) : Located s path
  | filter {path : String} (given : s.filter ≠ none) (inside : Inside "select.where" path) :
      Located s path
  | groupBy {path : String} (given : s.groupBy ≠ []) (inside : Inside "select.group_by" path) :
      Located s path
  | orderBy {path : String} (given : s.orderBy ≠ []) (inside : Inside "select.order_by" path) :
      Located s path
  | projection {index : Nat} {path : String} (listed : index < s.projections.length)
      (inside : Inside (itemPath "select.projections" index) path) : Located s path

theorem Located.ne_empty {s : Select} {path : String} (located : s.Located path) : path ≠ "" := by
  cases located with
  | source => decide
  | join => simp [itemPath]
  | on _ inside | filter _ inside | groupBy _ inside | orderBy _ inside | projection _ inside =>
    exact inside.ne_empty

section
variable {P : ValidationError → Prop}

theorem joinTypes_adds (schema : Schema) (joins : List Join) : ∀ index,
    (∀ i < index + joins.length, ∀ e : ValidationError, e.path = itemPath "select.joins" i → P e) →
      (joinTypes schema index joins).Adds P := by
  induction joins with
  | nil => intro index _; exact Log.adds_pure []
  | cons j rest ih =>
    intro index located
    rw [List.length_cons] at located
    have later := ih (index + 1) fun i listed => located i (by omega)
    rw [joinTypes]
    split
    · exact later.bind fun types => Log.adds_pure _
    · exact (Log.adds_report (located index (by omega) _ rfl)).bind fun _ => later

theorem matchRows_adds (scope : Scope) (j : Join) {path : String}
    (inside : ∀ e : ValidationError, Inside path e.path → P e) (row : Record)
    (candidates : List Record) : (matchRows scope j path row candidates).Adds P := by
  induction candidates with
  | nil => exact Log.adds_pure []
  | cons candidate rest ih =>
    exact (Log.adds_inside _ inside).bind fun keep => ih.bind fun more => Log.adds_pure _

theorem joinRows_adds (scope : Scope) (j : Join) {path : String}
    (inside : ∀ e : ValidationError, Inside path e.path → P e) (right rows : List Record) :
    (joinRows scope j path right rows).Adds P := by
  induction rows with
  | nil => exact Log.adds_pure []
  | cons row rest ih =>
    exact (matchRows_adds scope j inside row right).bind fun found =>
      ih.bind fun more => Log.adds_pure _

theorem joinAll_adds (ctx : Context) (levels : List (Join × TypeDef)) : ∀ index rows w errors,
    (∀ i < index + levels.length, ∀ e : ValidationError, e.path = itemPath "select.joins" i ∨
      Inside (itemPath "select.joins" i ++ ".on") e.path → P e) →
      (joinAll ctx index levels rows).Adds P w errors := by
  induction levels with
  | nil => intro index rows w errors _; exact Exec.adds_pure rows
  | cons level rest ih =>
    intro index rows w errors located
    rw [List.length_cons] at located
    have here := located index (by omega)
    refine (scanTable_adds ctx level.2.name (fun e at_ => here e (.inl at_)) w errors).bind ?_
    intro right later after _
    refine Exec.Adds.bind (Exec.adds_log ?_) fun found _ _ _ => ?_
    · exact joinRows_adds ctx.scope level.1 (fun e inside => here e (.inr inside)) right rows
    · exact ih (index + 1) found _ _ fun i listed => located i (by omega)

end

variable (s : Select)

/-- What loading the sources adds is at the sources, or inside the conditions of joins. -/
theorem loadRows_adds_of {P : ValidationError → Prop}
    (first : ∀ e : ValidationError, e.path = "select.from" → P e)
    (joined : ∀ i < s.joins.length, ∀ e : ValidationError, e.path = itemPath "select.joins" i ∨
      Inside (itemPath "select.joins" i ++ ".on") e.path → P e)
    (ctx : Context) (w : World) (errors : List ValidationError) :
    (s.loadRows ctx).Adds P w errors := by
  rw [loadRows]
  split
  · exact (Exec.adds_log (Log.adds_report (first _ rfl))).bind fun _ _ _ _ => Exec.adds_pure _
  · rename_i base known
    refine Exec.Adds.bind (Exec.adds_log (joinTypes_adds ctx.schema s.joins 0 ?_)) ?_
    · intro i listed e located
      rw [Nat.zero_add] at listed
      exact joined i listed e (.inl located)
    · intro types later after _
      split
      · exact Exec.adds_pure _
      · refine (scanTable_adds ctx base.name first after later).bind ?_
        intro records later after _
        split
        · exact Exec.adds_pure _
        · refine (joinAll_adds _ _ 0 _ _ _ fun i listed => joined i ?_).bind fun _ _ _ _ =>
            Exec.adds_pure _
          rw [Nat.zero_add, List.length_zip] at listed
          omega

theorem loadRows_adds (ctx : Context) (w : World) (errors : List ValidationError) :
    (s.loadRows ctx).Adds (fun e => s.Located e.path) w errors := by
  refine s.loadRows_adds_of (fun e located => located ▸ .source) ?_ ctx w errors
  rintro i known e (here | inside)
  · exact here ▸ .join known
  · exact .on known inside

theorem filterRows_adds (scope : Scope) (rows : List Record) :
    (filterRows scope s.filter rows).Adds fun e => s.Located e.path := by
  cases given : s.filter with
  | none => exact Log.adds_pure rows
  | some condition =>
    refine Log.Adds.filterM fun row _ => Log.adds_inside _ fun e inside => ?_
    exact .filter (by simp [given]) inside

theorem outputRow_adds (scope : Scope) (row : Option Record) (group : Option (List Record)) :
    (s.outputRow scope row group).Adds fun e => s.Located e.path := by
  refine (projectFrom_adds scope row group s.projections 0 fun i listed e inside => ?_).bind ?_
  · rw [Nat.zero_add] at listed
    exact .projection listed inside
  · intro entries
    refine (Log.Adds.mapM fun key listed => ?_).bind fun _ => Log.adds_pure _
    refine (Log.adds_inside _ fun e inside => ?_).bind fun _ => Log.adds_pure _
    exact .orderBy (List.ne_nil_of_mem listed) inside

theorem groupRows_adds (scope : Scope) (rows : List Record) :
    (groupRows scope s.groupBy rows).Adds fun e => s.Located e.path := by
  rw [groupRows]
  split
  · exact Log.adds_pure _
  · rename_i given
    refine (Log.Adds.foldlM (fun groups row => ?_) rows []).bind fun _ => Log.adds_pure _
    refine ((Log.adds_inside _ fun e inside => ?_).bind fun _ => Log.adds_pure _).bind fun _ =>
      Log.adds_pure _
    exact .groupBy (by simpa using given) inside

theorem outputRows_adds (scope : Scope) (rows : List Record) :
    (s.outputRows scope rows).Adds fun e => s.Located e.path := by
  rw [outputRows]
  split
  · exact (s.groupRows_adds scope rows).bind fun groups =>
      Log.Adds.mapM fun members _ => s.outputRow_adds scope members.head? (some members)
  · exact Log.Adds.mapM fun row _ => s.outputRow_adds scope (some row) none

theorem executeEntries_adds (ctx : Context) (w : World) (errors : List ValidationError) :
    (s.executeEntries ctx).Adds (fun e => s.Located e.path) w errors := by
  refine (s.loadRows_adds _ w errors).bind fun loaded later after _ => ?_
  split
  · exact Exec.adds_pure _
  · refine Exec.Adds.bind (Exec.adds_log ?_) fun _ _ _ _ => Exec.adds_pure _
    exact (s.filterRows_adds _ _).bind fun kept => s.outputRows_adds _ kept

/-- Sources that all exist are found without an error. -/
theorem errors_of_joinTypes {schema : Schema} (joins : List Join) : ∀ index errors,
    ((joinTypes schema index joins).run errors).1.length = joins.length →
      ((joinTypes schema index joins).run errors).2 = errors := by
  induction joins with
  | nil => intro index errors _; rfl
  | cons j rest ih =>
    intro index errors
    rw [joinTypes]
    split
    · intro counted
      exact ih (index + 1) errors (Nat.succ.inj counted)
    · rename_i unknown
      intro counted
      have fewer (found : List ValidationError) :
          ((joinTypes schema (index + 1) rest).run found).1.length ≤ rest.length :=
        joinTypes_value schema rest _ _ ▸ List.length_filterMap_le _ rest
      exact absurd (Nat.le_trans (Nat.le_of_eq counted.symm) (fewer _)) (Nat.not_succ_le_self _)

section
variable {ctx : Context} {w : World}

/-- Where tables cannot be read, a query is stopped by the first of them, if not by a source that
does not exist. -/
theorem run_loadRows_of_unreadable (unreadable : w.faults.contains .scan = true)
    (errors : List ValidationError) :
    (∃ later, w.run (s.loadRows ctx errors) = ((.ok none, later), w)) ∨
      w.run (s.loadRows ctx errors) = ((.error (World.outage .scan), errors), w) := by
  rw [loadRows]
  cases ctx.schema.get? s.base.table with
  | none => exact .inl ⟨_, rfl⟩
  | some base =>
    dsimp only
    rw [Exec.run_bind (Exec.run_log w _ errors)]
    by_cases complete : ((joinTypes ctx.schema 0 s.joins).run errors).1.length = s.joins.length
    · have scanned := run_scanTable w ctx base.name "select.from" errors
      rw [if_pos unreadable] at scanned
      rw [if_neg (not_not.mpr complete), errors_of_joinTypes s.joins 0 errors complete]
      exact .inr (Exec.run_bind_error scanned _)
    · rw [if_pos complete]
      exact .inl ⟨_, rfl⟩

section
variable (readable : w.faults.contains .scan = false)

include readable

theorem run_scanTable_of_readable (ctx : Context) (table path : String)
    (errors : List ValidationError) :
    ∃ records later, w.run (scanTable ctx table path errors) = ((.ok records, later), w) := by
  rw [run_scanTable, if_neg (by rw [readable]; decide)]
  exact ⟨_, _, rfl⟩

theorem run_joinAll_of_readable (levels : List (Join × TypeDef)) : ∀ index rows errors,
    ∃ joined later, w.run (joinAll ctx index levels rows errors) = ((.ok joined, later), w) := by
  induction levels with
  | nil => intro index rows errors; exact ⟨rows, errors, rfl⟩
  | cons level rest ih =>
    intro index rows errors
    obtain ⟨right, found, scanned⟩ :=
      run_scanTable_of_readable readable ctx level.2.name (itemPath "select.joins" index) errors
    rw [joinAll, Exec.run_bind scanned, Exec.run_bind (Exec.run_log w _ _)]
    exact ih (index + 1) _ _

/-- Where tables can be read, a query comes to its end. -/
theorem run_loadRows_of_readable (errors : List ValidationError) :
    ∃ loaded later, w.run (s.loadRows ctx errors) = ((.ok loaded, later), w) := by
  rw [loadRows]
  cases ctx.schema.get? s.base.table with
  | none => exact ⟨_, _, rfl⟩
  | some base =>
    dsimp only
    rw [Exec.run_bind (Exec.run_log w _ errors)]
    split
    · exact ⟨_, _, rfl⟩
    · obtain ⟨records, found, scanned⟩ :=
        run_scanTable_of_readable readable ctx base.name "select.from" _
      rw [Exec.run_bind scanned]
      split
      · exact ⟨_, _, rfl⟩
      · obtain ⟨joined, later, ran⟩ := run_joinAll_of_readable readable _ 0 _ _
        rw [Exec.run_bind ran]
        exact ⟨_, _, rfl⟩

end

/-- A query that fails has found no error: its first source is read before anything is evaluated,
and if that can be read then the others can. -/
theorem errors_of_failed {after : World} {failure : Failure} {errors later : List ValidationError}
    (ran : w.run (s.executeEntries ctx errors) = ((.error failure, later), after)) :
    later = errors := by
  rw [executeEntries] at ran
  cases readable : w.faults.contains .scan with
  | true =>
    rcases s.run_loadRows_of_unreadable readable errors with ⟨found, none⟩ | stopped
    · rw [Exec.run_bind none] at ran
      cases ran
    · rw [Exec.run_bind_error stopped] at ran
      cases ran
      rfl
  | false =>
    obtain ⟨loaded, found, done⟩ := s.run_loadRows_of_readable readable errors
    rw [Exec.run_bind done] at ran
    cases loaded <;> cases ran

end

end Select

/-! ### Insertions -/

namespace Insert

/-- How many rows an insertion is given. -/
def rowCount (s : Insert) (ctx : Context) (w : World) : Nat :=
  match s.source with
  | .values rows => rows.length
  | .query q =>
    match (w.run (q.executeEntries ctx [])).1.1 with
    | .ok (some rows) => rows.length
    | _ => 0

/-- Where the errors of an insertion are located. -/
inductive Located (s : Insert) (ctx : Context) (w : World) : String → Prop
  | table : Located s ctx w "insert"
  | query {q : Select} {path : String} (given : s.source = .query q) (located : q.Located path) :
      Located s ctx w ("insert." ++ path)
  | row {index : Nat} (listed : index < s.rowCount ctx w) : Located s ctx w (rowPath index)
  | value {rows : List (List Expr)} {index : Nat} {path : String}
      (given : s.source = .values rows) (listed : index < rows.length)
      (inside : Inside (rowPath index) path) : Located s ctx w path
  | column {index : Nat} {column : String} (listed : index < s.rowCount ctx w)
      (named : column ∈ s.columns) : Located s ctx w (rowPath index ++ "." ++ Text.lower column)
  | required {index : Nat} {d : TypeDef} {field : Field} (listed : index < s.rowCount ctx w)
      (typed : ctx.schema.get? s.table = some d) (declared : field ∈ d.fields)
      (needed : field.nullable = false) : Located s ctx w (rowPath index ++ "." ++ field.name)
  | returning {index : Nat} {path : String} (listed : index < s.returning.length)
      (inside : Inside (itemPath "insert.returning" index) path) : Located s ctx w path

section
variable {P : ValidationError → Prop}

theorem literalRows_adds (scope : Scope) (expected : Nat) (rows : List (List Expr)) : ∀ index,
    (∀ i < index + rows.length, ∀ e : ValidationError,
      e.path = rowPath i ∨ Inside (rowPath i) e.path → P e) →
      (literalRows scope expected index rows).Adds P := by
  induction rows with
  | nil => intro index _; exact Log.adds_pure []
  | cons row rest ih =>
    intro index located
    rw [List.length_cons] at located
    have here := located index (by omega)
    have later (values : Option (List Json)) :
        Log.Adds P (do return values :: (← literalRows scope expected (index + 1) rest)) :=
      (ih (index + 1) fun i listed => located i (by omega)).bind fun more => Log.adds_pure _
    rw [literalRows]
    split
    · exact ((Log.adds_inside _ fun e inside => here e (.inr inside)).map some).bind later
    · exact ((Log.adds_report (here _ (.inl rfl))).bind fun _ => Log.adds_pure none).bind later

theorem queryRows_adds (expected : Nat) (rows : List Entries) : ∀ index,
    (∀ i < index + rows.length, ∀ e : ValidationError, e.path = rowPath i → P e) →
      (queryRows expected index rows).Adds P := by
  induction rows with
  | nil => intro index _; exact Log.adds_pure []
  | cons row rest ih =>
    intro index located
    rw [List.length_cons] at located
    have later := ih (index + 1) fun i listed => located i (by omega)
    rw [queryRows]
    refine Log.Adds.bind ?_ fun values => later.bind fun more => Log.adds_pure _
    rw [checkArity]
    split
    · exact Log.adds_pure _
    · exact (Log.adds_report (located index (by omega) _ rfl)).bind fun _ => Log.adds_pure none

theorem stageColumns_adds (ctx : Context) (d : TypeDef) (path : String)
    (pairs : List (String × Json)) : ∀ fields w errors,
    (∀ pair ∈ pairs, ∀ e : ValidationError, e.path = path ++ "." ++ Text.lower pair.1 → P e) →
      (stageColumns ctx d path fields pairs).Adds P w errors := by
  induction pairs with
  | nil => intro fields w errors _; exact Exec.adds_pure fields
  | cons pair rest ih =>
    intro fields w errors located
    have here := located pair List.mem_cons_self
    rw [stageColumns]
    refine Exec.Adds.bind ?_ fun found later after _ =>
      ih found after later fun other listed => located other (List.mem_cons_of_mem pair listed)
    rw [stageColumn]
    split
    · exact (Exec.adds_log (Log.adds_report (here _ rfl))).bind fun _ _ _ _ => Exec.adds_pure _
    · split
      · exact (Exec.adds_log (Log.adds_report (here _ rfl))).bind fun _ _ _ _ => Exec.adds_pure _
      · refine (Exec.adds_script _).bind fun refusal later after _ => ?_
        split
        · exact Exec.adds_pure _
        · exact (Exec.adds_log (Log.adds_report (here _ rfl))).bind fun _ _ _ _ => Exec.adds_pure _

end

section
variable (s : Insert) (ctx : Context) {w : World}

theorem stageRow_adds {d : TypeDef} (typed : ctx.schema.get? s.table = some d) {index : Nat}
    (listed : index < s.rowCount ctx w) (values : List Json) (v : World)
    (errors : List ValidationError) :
    (s.stageRow ctx d (rowPath index) values).Adds (fun e => s.Located ctx w e.path) v errors := by
  rw [stageRow]
  refine Exec.Adds.bind (stageColumns_adds ctx d _ _ [] v errors ?_) fun fields later after _ => ?_
  · intro pair inside e located
    exact located ▸ .column listed (List.of_mem_zip inside).1
  · refine (Exec.adds_log (Log.adds_forM_report fun e missing => ?_)).bind fun _ _ _ _ =>
      Exec.adds_pure _
    obtain ⟨field, member, rfl⟩ := List.mem_map.mp missing
    obtain ⟨declared, needed⟩ := List.mem_filter.mp member
    refine .required listed typed declared ?_
    simp only [Bool.and_eq_true, Bool.not_eq_true'] at needed
    exact needed.1

theorem stageRows_adds {d : TypeDef} (typed : ctx.schema.get? s.table = some d)
    (sets : List (Option (List Json))) : ∀ index v errors,
    index + sets.length ≤ s.rowCount ctx w →
      (s.stageRows ctx d index sets).Adds (fun e => s.Located ctx w e.path) v errors := by
  induction sets with
  | nil => intro index v errors _; exact Exec.adds_pure []
  | cons set rest ih =>
    intro index v errors within
    rw [List.length_cons] at within
    cases set with
    | none => exact ih (index + 1) v errors (by omega)
    | some values =>
      rw [stageRows]
      refine (s.stageRow_adds ctx typed (by omega) values v errors).bind fun fields _ _ _ => ?_
      refine (Exec.adds_script _).bind fun id _ _ _ => ?_
      refine (Exec.adds_attempt _).bind fun r later after _ => ?_
      exact (ih (index + 1) after later (by omega)).bind fun _ _ _ _ => Exec.adds_pure _

end

theorem valueRows_adds (s : Insert) (ctx : Context) (w : World) :
    (s.valueRows ctx).Adds (fun e => s.Located ctx w e.path) w [] := by
  rw [valueRows]
  split
  · rename_i rows given
    refine Exec.adds_log (literalRows_adds ctx.scope _ rows 0 fun i listed e located => ?_)
    rw [Nat.zero_add] at listed
    rcases located with here | inside
    · exact here ▸ .row (by rwa [rowCount, given])
    · exact .value given listed inside
  · rename_i q given
    have moved : (Exec.within "insert" (q.executeEntries ctx)).Adds
        (fun e => s.Located ctx w e.path) w [] := by
      refine (q.executeEntries_adds ctx w []).within (fun e inner => ?_)
        fun failure later after => q.errors_of_failed
      rw [ValidationError.inside_within "insert" inner.ne_empty, String.append_assoc]
      exact .query given inner
    refine moved.bind fun rows later after ran => ?_
    obtain ⟨found, yielded⟩ := Exec.run_within_inv ran
    refine Exec.adds_log (queryRows_adds _ _ 0 fun i listed e here => ?_)
    rw [Nat.zero_add] at listed
    have counted : i < s.rowCount ctx w := by
      rw [rowCount, given]
      dsimp only
      rw [yielded]
      cases rows with
      | none => exact listed
      | some rows => exact listed
    exact here ▸ .row counted

theorem length_of_valueRows {s : Insert} {ctx : Context} {w after : World}
    {sets : List (Option (List Json))} {later : List ValidationError}
    (ran : w.run (s.valueRows ctx []) = ((.ok sets, later), after)) :
    sets.length = s.rowCount ctx w := by
  rw [valueRows] at ran
  cases given : s.source with
  | values rows =>
    rw [given] at ran
    obtain ⟨read, -⟩ := Exec.run_log_inv ran
    have yielded := literalRows_yields ctx.scope s.columns.length rows 0 []
    have counted := congrArg List.length (read ▸ yielded)
    rw [rowCount, given]
    exact counted.trans (List.length_map _)
  | query q =>
    rw [given] at ran
    obtain ⟨rows, mid, between, inside, rest⟩ := Exec.run_bind_inv ran
    obtain ⟨found, queried⟩ := Exec.run_within_inv inside
    obtain ⟨read, -⟩ := Exec.run_log_inv rest
    have yielded := queryRows_yields s.columns.length (rows.getD []) 0 mid
    have counted := (congrArg List.length (read ▸ yielded)).trans (List.length_map _)
    rw [rowCount, given]
    dsimp only
    rw [queried]
    cases rows <;> exact counted

theorem execute_adds (s : Insert) (ctx : Context) (w : World) :
    (s.execute ctx).Adds (fun e => s.Located ctx w e.path) w [] := by
  rw [execute]
  split
  · refine (Exec.adds_log (Log.adds_report .table)).bind fun _ _ _ _ => Exec.adds_pure _
  · rename_i d typed
    refine (s.valueRows_adds ctx w).bind fun sets later after ran => ?_
    refine (s.stageRows_adds ctx typed sets 0 after later ?_).bind fun records later after _ => ?_
    · rw [Nat.zero_add, length_of_valueRows ran]
    · refine Exec.Adds.bind (Exec.adds_log ?_) fun rows _ _ _ => Exec.adds_pure _
      exact returningRows_adds ctx.scope s.returning records fun i listed e inside =>
        .returning listed inside

end Insert

/-! ### Updates -/

namespace Update

/-- Where the errors of an update are located. -/
inductive Located (s : Update) : String → Prop
  | table : Located s "update"
  | scan : Located s "update.where"
  | filter {path : String} (given : s.filter ≠ none) (inside : Inside "update.where" path) :
      Located s path
  | column {column : String} (assigned : ∃ a ∈ s.assignments,
      Text.lower column = Text.lower a.column) : Located s (columnPath column)
  | value {a : Assignment} {path : String} (assigned : a ∈ s.assignments)
      (inside : Inside (columnPath (Text.lower a.column)) path) : Located s path
  | returning {index : Nat} {path : String} (listed : index < s.returning.length)
      (inside : Inside (itemPath "update.returning" index) path) : Located s path

section
variable {P : ValidationError → Prop}

theorem targets_adds (d : TypeDef) (assignments : List Assignment)
    (located : ∀ a ∈ assignments, ∀ e : ValidationError, e.path = columnPath a.column → P e) :
    (targets d assignments).Adds P := by
  induction assignments with
  | nil => exact Log.adds_pure []
  | cons a rest ih =>
    have later := ih fun b member => located b (List.mem_cons_of_mem a member)
    have here := located a List.mem_cons_self
    rw [targets]
    split
    · exact (Log.adds_report (here _ rfl)).bind fun _ => later
    · split
      · exact (Log.adds_report (here _ rfl)).bind fun _ => later
      · exact later.bind fun found => Log.adds_pure _

theorem changes_adds (ctx : Context) (r : Record) (pairs : List (Field × Expr))
    (located : ∀ pair ∈ pairs, ∀ e : ValidationError, e.path = columnPath pair.1.name ∨
      Inside (columnPath pair.1.name) e.path → P e) :
    ∀ found w errors, (changes ctx r found pairs).Adds P w errors := by
  induction pairs with
  | nil => intro found w errors; exact Exec.adds_pure found
  | cons pair rest ih =>
    intro found w errors
    have here := located pair List.mem_cons_self
    have later := ih fun other member => located other (List.mem_cons_of_mem pair member)
    rw [changes]
    refine (Exec.adds_log (Log.adds_inside _ fun e inside => here e (.inr inside))).bind ?_
    intro value _ _ _
    refine (Exec.adds_script _).bind fun refusal _ _ _ => ?_
    split
    · exact later _ _ _
    · exact (Exec.adds_log (Log.adds_once (here _ (.inl rfl)))).bind fun _ _ _ _ => later _ _ _

theorem updateRecords_adds (s : Update) (ctx : Context) (d : TypeDef) (pairs : List (Field × Expr))
    (tested : s.filter ≠ none → ∀ e : ValidationError, Inside "update.where" e.path → P e)
    (located : ∀ pair ∈ pairs, ∀ e : ValidationError, e.path = columnPath pair.1.name ∨
      Inside (columnPath pair.1.name) e.path → P e) (records : List Record) : ∀ w errors,
    (s.updateRecords ctx d pairs records).Adds P w errors := by
  induction records with
  | nil => intro w errors; exact Exec.adds_pure []
  | cons r rest ih =>
    intro w errors
    have passes : (selects ctx.scope s.filter r).Adds P := by
      cases given : s.filter with
      | none => exact Log.adds_pure true
      | some condition => exact Log.adds_inside _ (tested (by simp [given]))
    rw [updateRecords]
    refine (Exec.adds_log passes).bind fun selected _ _ _ => ?_
    split
    · refine (changes_adds ctx r pairs located [] _ _).bind fun found _ _ _ => ?_
      split
      · exact ih _ _
      · refine (Exec.adds_attempt _).bind fun r _ _ _ => ?_
        exact (ih _ _).bind fun _ _ _ _ => Exec.adds_pure _
    · exact ih _ _

end

/-- A field that is assigned to goes by the name of an assigned column. -/
theorem name_of_mem_targets {d : TypeDef} (assignments : List Assignment) : ∀ errors,
    ∀ target ∈ ((targets d assignments).run errors).1,
      ∃ a ∈ assignments, target.1.name = Text.lower a.column := by
  induction assignments with
  | nil => intro errors target none; cases none
  | cons a rest ih =>
    have later (errors : List ValidationError) : ∀ target ∈ ((targets d rest).run errors).1,
        ∃ b ∈ a :: rest, target.1.name = Text.lower b.column := by
      intro target member
      obtain ⟨b, listed, named⟩ := ih errors target member
      exact ⟨b, List.mem_cons_of_mem a listed, named⟩
    intro errors
    rw [targets]
    split
    · exact later _
    · split
      · exact later _
      · rename_i field found
        intro target member
        rcases List.mem_cons.mp member with rfl | more
        · exact ⟨a, List.mem_cons_self, TypeDef.name_of_field? found⟩
        · exact later errors target more

theorem execute_adds (s : Update) (ctx : Context) (w : World) (errors : List ValidationError) :
    (s.execute ctx).Adds (fun e => s.Located e.path) w errors := by
  rw [execute]
  split
  · refine (Exec.adds_log (Log.adds_report .table)).bind fun _ _ _ _ => Exec.adds_pure _
  · rename_i d typed
    refine Exec.Adds.bind (Exec.adds_log (targets_adds d s.assignments ?_)) ?_
    · exact fun a listed e located => located ▸ .column ⟨a, listed, rfl⟩
    · intro pairs later after ran
      have assigned := name_of_mem_targets (d := d) s.assignments errors
      obtain ⟨read, -⟩ := Exec.run_log_inv ran
      rw [read] at assigned
      have scanned : (scanTable ctx d.name "update.where").Adds (fun e => s.Located e.path) after
          later := scanTable_adds ctx d.name (fun e located => located ▸ .scan) after later
      refine scanned.bind fun records _ _ _ => ?_
      refine Exec.Adds.bind ?_ fun updated _ _ _ => ?_
      · refine s.updateRecords_adds ctx d pairs (fun given e inside => .filter given inside) ?_
          records _ _
        intro pair member e located
        obtain ⟨a, listed, named⟩ := assigned pair member
        rw [named] at located
        rcases located with here | inside
        · exact here ▸ .column ⟨a, listed, Text.lower_lower a.column⟩
        · exact .value listed inside
      · refine Exec.Adds.bind (Exec.adds_log ?_) fun rows _ _ _ => Exec.adds_pure _
        exact returningRows_adds ctx.scope s.returning updated fun i listed e inside =>
          .returning listed inside

end Update

/-! ### Statements -/

namespace Statement

/-- Where the errors of a statement are located. -/
def Located (ctx : Context) (w : World) : Statement → String → Prop
  | select s => s.Located
  | insert s => s.Located ctx w
  | update s => s.Located

theorem Located.ne_empty {ctx : Context} {w : World} {s : Statement} {path : String}
    (located : s.Located ctx w path) : path ≠ "" := by
  cases s with
  | select s => exact Select.Located.ne_empty located
  | insert s =>
    cases located with
    | table => decide
    | query | row | column | required => simp [Insert.rowPath, itemPath]
    | value _ _ inside | returning _ inside => exact inside.ne_empty
  | update s =>
    cases located with
    | table | scan => decide
    | column => simp [Update.columnPath]
    | filter _ inside | value _ inside | returning _ inside => exact inside.ne_empty

/-- Every error of a statement that starts without one is located: its path is that of a clause
where clauses are checked, or leads to a place inside a clause where expressions are evaluated, and
it is not empty. -/
theorem errors_located {s : Statement} {ctx : Context} {w after : World}
    {reply : Except Failure Result} {errors : List ValidationError}
    (ran : w.run (s.execute ctx []) = ((reply, errors), after)) :
    ∀ e ∈ errors, s.Located ctx w e.path ∧ e.path ≠ "" := by
  have adds : (s.execute ctx).Adds (fun e => s.Located ctx w e.path) w [] := by
    cases s with
    | select s =>
      refine (s.executeEntries_adds ctx w []).bind fun rows later after _ => ?_
      cases rows with
      | none => exact Exec.adds_pure _
      | some rows => exact Exec.adds_pure _
    | insert s => exact s.execute_adds ctx w
    | update s => exact s.execute_adds ctx w []
  obtain ⟨added, same, located⟩ := adds
  rw [ran] at same
  obtain rfl : errors = added := same
  exact fun e listed => ⟨located e listed, (located e listed).ne_empty⟩

/-- A context for members, who have an age. -/
def memberContext : Context :=
  { schema := .ofTypes
      [.ofFields "members" [.ofType "name" .string, (Field.ofType "age" .number).require]]
    stage := ⟨1⟩
    now := ⟨0, 0, 0⟩ }

/-- A world with a member whose age is missing. -/
def memberWorld : World :=
  { store := Store.seed {} ⟨0, 0, 0⟩ "members" "m" [("name", .str "Ann")]
    now := ⟨0, 0, 0⟩
    ids := fun n => "new" ++ toString n }

/-- The insertion of what members are called, most of which does not fit. -/
def misfits : Statement :=
  .insert
    { Insert.into "members" ["Name", "NICK"] (.query
        { projections :=
            [⟨.negate (.ref "members" "name"), none⟩, ⟨.ref "members" "nick", none⟩]
          base := .ofTable "members"
          filter := some (.comparison .eq (.ref "members" "name") (.literal (.str "Ann"))) })
      with returning := [⟨.ref "members" "id", none⟩, ⟨.ref "teams" "id", none⟩] }

theorem errors_located_misfits :
    ∃ reply errors after,
      memberWorld.run (misfits.execute memberContext []) = ((reply, errors), after) ∧
      errors.map ValidationError.path =
        ["insert.select.projections[0].(neg)", "insert.select.projections[1].members.nick",
          "insert.values[0].nick", "insert.values[0].age", "insert.returning[1].teams.id"] ∧
      ∀ e ∈ errors, misfits.Located memberContext memberWorld e.path ∧ e.path ≠ "" := by
  have paths : (memberWorld.run (misfits.execute memberContext [])).1.2.map ValidationError.path =
      ["insert.select.projections[0].(neg)", "insert.select.projections[1].members.nick",
        "insert.values[0].nick", "insert.values[0].age", "insert.returning[1].teams.id"] := by
    decide +kernel
  rcases ran : memberWorld.run (misfits.execute memberContext []) with ⟨⟨reply, errors⟩, after⟩
  rw [ran] at paths
  exact ⟨reply, errors, after, rfl, paths, errors_located ran⟩

end Statement
end RecordQuery
