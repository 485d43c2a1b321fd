import RecordQuery.Proofs.DistinctProblems
import RecordQuery.Proofs.UpdatedRecords

/-!
How far tables are read. A scan asks for one row more than the limit, and so it sees whether there
is more, even where the count of rows asked for is capped (`run_scanTable_exact`,
`run_scanFetching`). A query and an update work on the first rows of their tables, as many as the
limit admits, and each table that holds more is reported once at the path of its scan, where nothing
else is reported (`Select.errors_at_scan`, `Update.errors_at_scan`). A statement that reports
something is not committed, so one that is committed has read whole tables
(`Statement.fits_of_clean`). The main statement is `Engine.scan_limit_exact`.
-/
namespace RecordQuery

/-! ### One scan -/

/-- Reading a table where a given number of rows is asked for. -/
def scanFetching (fetch : Nat) (ctx : Context) (table path : String) : Exec (List Record) := do
  let limit := ctx.limits.maxScanRows
  let records ← Exec.attempt (Script.ask (.scan (some ctx.stage) table (some fetch)))
  if limit < records.length then
    Exec.log (Log.report (scanLimitError table limit path))
    return records.take limit
  else return records

theorem scanTable_eq_fetching (ctx : Context) :
    scanTable ctx = scanFetching (ctx.limits.maxScanRows + 1) ctx := rfl

section
variable (w : World) (ctx : Context) (table path : String) (errors : List ValidationError)

/-- A scan yields the first rows, and it reports exactly if there are more of them. -/
theorem run_scanTable_exact (readable : .scan ∉ w.faults) :
    w.run (scanTable ctx table path errors) =
      let shown := w.store.scan (some ctx.stage) table none
      ((.ok (shown.take (min shown.length ctx.limits.maxScanRows)),
        errors ++ ctx.scanProblems w.store table path), w) := by
  rw [run_scanTable, if_neg (mt List.contains_iff_mem.mp readable), Context.scanProblems]
  dsimp only
  rw [Nat.min_comm, ← List.take_take, List.take_length]
  split
  · rfl
  · rw [List.append_nil]

/-- Where rows are counted up to a greatest number only, asking for one more than the limit may come
to asking for the limit itself; there is no row beyond it then. -/
theorem run_scanFetching {most : Nat} (limited : ctx.limits.maxScanRows ≤ most)
    (counted : (w.store.scan (some ctx.stage) table none).length ≤ most) :
    w.run (scanFetching (min (ctx.limits.maxScanRows + 1) most) ctx table path errors) =
      w.run (scanTable ctx table path errors) := by
  rw [scanTable_eq_fetching]
  have fetched : w.store.scan (some ctx.stage) table
      (some (min (ctx.limits.maxScanRows + 1) most)) =
        w.store.scan (some ctx.stage) table (some (ctx.limits.maxScanRows + 1)) := by
    rw [Store.scan_some, Store.scan_some, List.take_eq_take_iff]
    omega
  have answered : w.run (Exec.attempt (Script.ask (.scan (some ctx.stage) table
      (some (min (ctx.limits.maxScanRows + 1) most)))) errors) =
        w.run (Exec.attempt (Script.ask (.scan (some ctx.stage) table
          (some (ctx.limits.maxScanRows + 1)))) errors) := by
    rw [Exec.run_attempt, Exec.run_attempt, World.run_ask, World.run_ask, World.answer_scan_eq,
      World.answer_scan_eq, fetched]
  exact Exec.run_bind_congr answered _

end

theorem Context.length_scanProblems_le (ctx : Context) (store : Store) (table path : String) :
    (ctx.scanProblems store table path).length ≤ 1 := by
  rw [scanProblems]
  split
  · exact Nat.le_refl 1
  · exact Nat.zero_le 1

theorem Context.scanProblems_eq_nil_iff {ctx : Context} {store : Store} {table path : String} :
    ctx.scanProblems store table path = [] ↔
      (store.scan (some ctx.stage) table none).length ≤ ctx.limits.maxScanRows := by
  rw [scanProblems, ite_eq_right_iff, ← Nat.not_lt]
  exact ⟨fun none more => List.cons_ne_nil _ _ (none more), fun fits more => absurd more fits⟩

theorem Context.path_of_mem_scanProblems {ctx : Context} {store : Store} {table path : String}
    {e : ValidationError} (listed : e ∈ ctx.scanProblems store table path) : e.path = path := by
  rw [eq_of_mem_scanProblems listed]
  rfl

/-- The errors at a path, if they are one at most, are known by their members. -/
theorem filter_path_eq {errors own : List ValidationError} {path : String}
    (distinct : errors.Nodup) (single : own.length ≤ 1)
    (same : ∀ e, e ∈ own ↔ e ∈ errors ∧ e.path = path) :
    errors.filter (·.path == path) = own := by
  have perm (apart : own.Nodup) : (errors.filter (·.path == path)).Perm own := by
    refine (List.perm_ext_iff_of_nodup (distinct.filter _) apart).mpr fun e => ?_
    rw [same, List.mem_filter, beq_iff_eq]
  cases own with
  | nil => exact List.perm_nil.mp (perm List.nodup_nil)
  | cons e rest =>
    obtain rfl : rest = [] := by simpa using single
    exact List.perm_singleton.mp (perm (List.nodup_singleton e))

/-! ### Paths -/

namespace Select

/-- Clauses that are evaluated on rows begin otherwise than the places where tables are read. -/
theorem RowClause.opening {clause : String} (ofRows : RowClause clause) (rest : String) :
    (clause ++ rest).toList.take 8 ∈
      [['s', 'e', 'l', 'e', 'c', 't', '.', 'w'], ['s', 'e', 'l', 'e', 'c', 't', '.', 'g'],
        ['s', 'e', 'l', 'e', 'c', 't', '.', 'o'], ['s', 'e', 'l', 'e', 'c', 't', '.', 'p']] := by
  cases ofRows with
  | filter | groupBy | orderBy =>
    rw [take_append (by decide)]
    decide
  | projection index =>
    rw [take_itemPath_append (by decide)]
    decide

theorem opening_itemPath (i : Nat) (rest : String) :
    (itemPath "select.joins" i ++ rest).toList.take 8 =
      ['s', 'e', 'l', 'e', 'c', 't', '.', 'j'] := by
  rw [take_itemPath_append (by decide)]
  decide

/-- A path at which a query reads a table. -/
def AtSource (path : String) : Prop :=
  path = "select.from" ∨ ∃ i, path = itemPath "select.joins" i

theorem not_atSource_of_answering {s : Select} {scope : Scope} {rows : List Record}
    {e : ValidationError} (listed : e ∈ s.answerProblems scope rows) : ¬ AtSource e.path := by
  obtain ⟨f, clause, ofRows, rfl⟩ := fault_of_mem_answerProblems listed
  -- The letter behind "select." tells the clauses of rows from those of sources.
  have opens := ofRows.opening ("." ++ f.error.path)
  rw [← String.append_assoc, ← ValidationError.inside_within clause f.error_path_ne_empty] at opens
  rintro (same | ⟨i, same⟩)
  · rw [same] at opens
    exact absurd opens (by decide)
  · have joins := opening_itemPath i ""
    rw [String.append_empty, ← same] at joins
    rw [joins] at opens
    exact absurd opens (by decide)

theorem not_atSource_of_condition (f : Fault) (i : Nat) :
    ¬ AtSource (f.error.within (itemPath "select.joins" i ++ ".on")).path := by
  rw [ValidationError.inside_within _ f.error_path_ne_empty, String.append_assoc,
    String.append_assoc]
  rintro (same | ⟨k, same⟩)
  · have joins := opening_itemPath i (".on" ++ ("." ++ f.error.path))
    rw [same] at joins
    exact absurd joins (by decide)
  · obtain ⟨-, none⟩ := itemPath_append_inj same
    simp at none

/-! ### Queries -/

/-- The places where a query reads tables, each with the type of the table. -/
def scans (base : TypeDef) (types : List TypeDef) : List (String × TypeDef) :=
  ("select.from", base) :: types.zipIdx.map fun entry => (itemPath "select.joins" entry.2, entry.1)

section
variable {base : TypeDef} {types : List TypeDef}

theorem mem_scans_iff {scan : String × TypeDef} : scan ∈ scans base types ↔
    scan = ("select.from", base) ∨
      ∃ i d, types[i]? = some d ∧ scan = (itemPath "select.joins" i, d) := by
  rw [scans, List.mem_cons, List.mem_map]
  refine or_congr_right ⟨?_, ?_⟩
  · rintro ⟨⟨d, i⟩, listed, rfl⟩
    exact ⟨i, d, List.mem_zipIdx_iff_getElem?.mp listed, rfl⟩
  · rintro ⟨i, d, found, rfl⟩
    exact ⟨(d, i), List.mem_zipIdx_iff_getElem?.mpr found, rfl⟩

theorem atSource_of_mem_scans {scan : String × TypeDef} (listed : scan ∈ scans base types) :
    AtSource scan.1 := by
  rcases mem_scans_iff.mp listed with rfl | ⟨i, d, -, rfl⟩
  · exact .inl rfl
  · exact .inr ⟨i, rfl⟩

/-- No two tables are read at one place. -/
theorem scans_inj {one two : String × TypeDef} (first : one ∈ scans base types)
    (second : two ∈ scans base types) (same : one.1 = two.1) : one = two := by
  rcases mem_scans_iff.mp first with rfl | ⟨i, d, found, rfl⟩ <;>
    rcases mem_scans_iff.mp second with rfl | ⟨k, e, other, rfl⟩
  · rfl
  · exact absurd same (from_ne_itemPath k)
  · exact absurd same.symm (from_ne_itemPath i)
  · obtain ⟨rfl, -⟩ := itemPath_append_inj ((String.append_empty).trans same)
    rw [Option.some.inj (found.symm.trans other)]

end

theorem mem_joinProblems_of_scan {ctx : Context} {store : Store} {e : ValidationError} {j : Join}
    {d : TypeDef} (levels : List (Join × TypeDef)) :
    ∀ {index i : Nat} {rows : List Record}, levels[i]? = some (j, d) →
      e ∈ ctx.scanProblems store d.name (itemPath "select.joins" (index + i)) →
        e ∈ joinProblems ctx store index levels rows := by
  induction levels with
  | nil => intro index i rows found; cases found
  | cons level rest ih =>
    intro index i rows found listed
    cases i with
    | zero =>
      cases found
      exact List.mem_append_left _ (List.mem_append_left _ listed)
    | succ i =>
      rw [← Nat.add_assoc, Nat.add_right_comm] at listed
      exact List.mem_append_right _ (ih found listed)

section
variable {s : Select} {ctx : Context} {store : Store} {base : TypeDef} {types : List TypeDef}
  {rows : List Record} {scope : Scope} {e : ValidationError}

/-- What is told of a query is told of the length of a table at the place where it is read, or it is
told elsewhere. -/
theorem cases_of_mem_sourceProblems (listed : e ∈ s.sourceProblems ctx store base types) :
    (∃ scan ∈ scans base types, e ∈ ctx.scanProblems store scan.2.name scan.1) ∨
      ¬ AtSource e.path := by
  rcases List.mem_append.mp listed with first | joining
  · exact .inl ⟨_, mem_scans_iff.mpr (.inl rfl), first⟩
  · obtain ⟨i, j, d, found, more | ⟨f, rfl⟩⟩ := cases_of_mem_joinProblems _ joining
    · obtain ⟨-, typed⟩ := List.getElem?_zip_eq_some.mp found
      rw [Nat.zero_add] at more
      exact .inl ⟨_, mem_scans_iff.mpr (.inr ⟨i, d, typed, rfl⟩), more⟩
    · exact .inr (not_atSource_of_condition f _)

theorem mem_sourceProblems_of_scan (typed : s.Typed ctx.schema base types)
    {scan : String × TypeDef} (reads : scan ∈ scans base types)
    (listed : e ∈ ctx.scanProblems store scan.2.name scan.1) :
    e ∈ s.sourceProblems ctx store base types := by
  rcases mem_scans_iff.mp reads with rfl | ⟨i, d, found, rfl⟩
  · exact List.mem_append_left _ listed
  · have within : i < s.joins.length := by
      rw [typed.joins.length_eq]
      exact (List.getElem?_eq_some_iff.mp found).1
    have level : (s.joins.zip types)[i]? = some (s.joins[i], d) :=
      List.getElem?_zip_eq_some.mpr ⟨List.getElem?_eq_getElem within, found⟩
    refine List.mem_append_right _ (mem_joinProblems_of_scan _ level ?_)
    rwa [Nat.zero_add]

/-- What is told at a place where a query reads a table is that the table is too long. -/
theorem mem_scanProblems_iff (typed : s.Typed ctx.schema base types) {scan : String × TypeDef}
    (reads : scan ∈ scans base types) : e ∈ ctx.scanProblems store scan.2.name scan.1 ↔
      e ∈ s.sourceProblems ctx store base types ++ s.answerProblems scope rows ∧
        e.path = scan.1 := by
  constructor
  · intro listed
    exact ⟨List.mem_append_left _ (mem_sourceProblems_of_scan typed reads listed),
      Context.path_of_mem_scanProblems listed⟩
  · rintro ⟨listed, here⟩
    have source : AtSource e.path := here ▸ atSource_of_mem_scans reads
    rcases List.mem_append.mp listed with loading | answering
    · rcases cases_of_mem_sourceProblems loading with ⟨other, more, long⟩ | elsewhere
      · have place : e.path = other.1 := Context.path_of_mem_scanProblems long
        rwa [scans_inj reads more (here.symm.trans place)]
      · exact absurd source elsewhere
    · exact absurd source (not_atSource_of_answering answering)

end

section
variable {s : Select} {ctx : Context} {w : World} {base : TypeDef} {types : List TypeDef}

/-- A query whose sources exist and can be read is answered from what it reads of them. -/
theorem run_executeEntries_of_typed (typed : s.Typed ctx.schema base types)
    (readable : w.faults.contains .scan = false) :
    let loaded := s.fetched ctx w.store base types
    w.run (s.executeEntries ctx []) =
      ((.ok (some (s.entriesOf loaded.1.scope loaded.2)),
        reportAll [] (s.sourceProblems ctx w.store base types ++
          s.answerProblems loaded.1.scope loaded.2)), w) := by
  have loads := s.run_loadRows_reports { ctx with aliases := [] } w
  rw [show ({ ctx with aliases := [] } : Context).schema.get? s.base.table = some base from
    typed.base] at loads
  dsimp only at loads ⊢
  rw [filterMap_of_forall₂ typed.joins, if_neg (not_not_intro typed.joins.length_eq.symm), readable,
    if_neg Bool.false_ne_true] at loads
  rw [run_executeEntries loads, answer_reports, ← reportAll_append]
  rfl

/-- The problems of such a query are those of its sources and of its answer. -/
theorem problems_of_typed (typed : s.Typed ctx.schema base types)
    (readable : w.faults.contains .scan = false) :
    s.problems ctx w = s.sourceProblems ctx w.store base types ++
      s.answerProblems (s.fetched ctx w.store base types).1.scope
        (s.fetched ctx w.store base types).2 := by
  rw [problems, typed.base]
  dsimp only
  rw [filterMap_of_forall₂ typed.joins, if_neg (not_not_intro typed.joins.length_eq.symm), readable,
    if_neg Bool.false_ne_true]

/-- At each place where a query reads a table it tells only if there are more records than it has
read. -/
theorem errors_at_scan (typed : s.Typed ctx.schema base types)
    (readable : w.faults.contains .scan = false) {scan : String × TypeDef}
    (reads : scan ∈ scans base types) :
    (w.run (s.executeEntries ctx [])).1.2.filter (·.path == scan.1) =
      ctx.scanProblems w.store scan.2.name scan.1 := by
  have plain : ∀ e ∈ s.problems ctx w, e.Plain := fun e => plain_of_mem_problems
  rw [errors_of_executeEntries]
  refine filter_path_eq (nodup_reportAll plain List.nodup_nil)
    (ctx.length_scanProblems_le w.store scan.2.name scan.1) fun e => ?_
  rw [mem_reportAll_iff plain, or_iff_right List.not_mem_nil, problems_of_typed typed readable]
  exact mem_scanProblems_iff typed reads

/-- Every table of a query is read at one of these places. -/
theorem exists_scan_of_mem_tables (typed : s.Typed ctx.schema base types) {table : String}
    (listed : table ∈ s.tables) :
    ∃ scan ∈ scans base types, ctx.schema.get? table = some scan.2 := by
  rcases List.mem_cons.mp listed with rfl | joined
  · exact ⟨_, mem_scans_iff.mpr (.inl rfl), typed.base⟩
  · obtain ⟨j, member, rfl⟩ := List.mem_map.mp joined
    obtain ⟨i, within, rfl⟩ := List.mem_iff_getElem.mp member
    have also : i < types.length := typed.joins.length_eq ▸ within
    exact ⟨_, mem_scans_iff.mpr (.inr ⟨i, types[i], List.getElem?_eq_getElem also, rfl⟩),
      typed.joins.get within also⟩

/-- The sources of a query that yields rows exist and have been read. -/
theorem typed_of_run {after : World} {outputs : List Entries} {errors : List ValidationError}
    (ran : w.run (s.executeEntries ctx []) = ((.ok (some outputs), errors), after)) :
    ∃ base types, s.Typed ctx.schema base types ∧ w.faults.contains .scan = false := by
  obtain ⟨inner, rows, found, loaded, -⟩ := run_executeEntries_inv ran
  rw [run_loadRows_reports] at loaded
  split at loaded
  · cases loaded
  · rename_i base known
    dsimp only at loaded
    split at loaded
    · cases loaded
    · rename_i complete
      split at loaded
      · cases loaded
      · rename_i readable
        have all := List.filterMap_length_eq_length.mp (not_not.mp complete)
        exact ⟨base, _, ⟨known, forall₂_filterMap all⟩, Bool.eq_false_iff.mpr readable⟩

/-- A query that reports nothing has read all of its tables as a whole. -/
theorem fits_of_clean {after : World} {found : Option (List Entries)}
    (ran : w.run (s.executeEntries ctx []) = ((.ok found, []), after)) :
    ∀ table ∈ s.tables,
      (w.store.scan (some ctx.stage) table none).length ≤ ctx.limits.maxScanRows := by
  intro table listed
  have ends := (s.executeEntries_reads ctx []).run w
  rw [ran] at ends
  cases found with
  | none => exact absurd rfl ((ends.2 none rfl) rfl)
  | some outputs =>
    obtain ⟨base, types, typed, readable⟩ := typed_of_run ran
    obtain ⟨scan, reads, known⟩ := exists_scan_of_mem_tables typed listed
    have told := errors_at_scan typed readable reads
    rw [ran, List.filter_nil] at told
    have fits := Context.scanProblems_eq_nil_iff.mp told.symm
    rwa [Schema.name_of_get? known, Store.scan_lower] at fits

end

end Select

/-! ### Updates -/

namespace Update

/-- An update of given records, with what it shows of them. -/
def finishOn (s : Update) (ctx : Context) (d : TypeDef) (targets : List (Field × Expr))
    (records : List Record) : Exec Result := do
  let updated ← s.updateRecords ctx d targets records
  Result.finish (← Exec.log (returningRows ctx.scope "update.returning" s.returning updated))

section
variable {s : Update} {ctx : Context} {d : TypeDef} {w : World}

/-- An update works on the records that it has read of its table. -/
theorem run_execute_of_known (known : ctx.schema.get? s.table = some d)
    (readable : w.faults.contains .scan = false) (errors : List ValidationError) :
    let resolved := (targets d s.assignments).run errors
    w.run (s.execute ctx errors) =
      w.run (s.finishOn ctx d resolved.1 (ctx.reads w.store d)
        (resolved.2 ++ ctx.scanProblems w.store d.name "update.where")) := by
  have scanned := run_scanTable w ctx d.name "update.where" ((targets d s.assignments).run errors).2
  rw [if_neg (by rw [readable]; exact Bool.false_ne_true)] at scanned
  rw [execute, known]
  dsimp only
  rw [Exec.run_bind (Exec.run_log w _ errors), Exec.run_bind scanned, Context.scanProblems]
  split
  · rfl
  · rw [List.append_nil]
    rfl

/-- Paths of assigned columns begin otherwise than the place where the table is read. -/
theorem columnPath_append_ne (column rest : String) :
    columnPath column ++ rest ≠ "update.where" := by
  refine mt (congrArg fun path : String => path.toList.take 8) ?_
  rw [columnPath, String.append_assoc, take_append (by decide)]
  decide

theorem columnPath_ne (column : String) : columnPath column ≠ "update.where" := by
  rw [← @String.append_empty (columnPath column)]
  exact columnPath_append_ne column ""

theorem returning_append_ne (index : Nat) (rest : String) :
    itemPath "update.returning" index ++ rest ≠ "update.where" := by
  refine mt (congrArg fun path : String => path.toList.take 8) ?_
  rw [take_itemPath_append (by decide)]
  decide

theorem ne_of_inside_where {path : String} (inside : Inside "update.where" path) :
    path ≠ "update.where" := by
  obtain ⟨inner, -, rfl⟩ := inside
  refine mt (congrArg String.toList) ?_
  simp

/-- An update of given records tells nothing at the place where the table is read. -/
theorem finishOn_adds (targets : List (Field × Expr)) (records : List Record) (w : World)
    (errors : List ValidationError) : (s.finishOn ctx d targets records).Adds
      (fun e => e.path ≠ "update.where") w errors := by
  refine Exec.Adds.bind (s.updateRecords_adds ctx d targets
    (fun _ e inside => ne_of_inside_where inside) ?_ records w errors) fun updated _ _ _ => ?_
  · rintro pair - e (here | ⟨inner, -, inside⟩)
    · rw [here]
      exact columnPath_ne _
    · rw [inside, String.append_assoc]
      exact columnPath_append_ne _ _
  · refine Exec.Adds.bind (Exec.adds_log ?_) fun rows _ _ _ => Exec.adds_pure _
    refine returningRows_adds ctx.scope s.returning updated ?_
    rintro i - e ⟨inner, -, inside⟩
    rw [inside, String.append_assoc]
    exact returning_append_ne _ _

/-- At that place it tells only if there are more records than it has read. -/
theorem errors_at_scan (known : ctx.schema.get? s.table = some d)
    (readable : w.faults.contains .scan = false) :
    (w.run (s.execute ctx [])).1.2.filter (·.path == "update.where") =
      ctx.scanProblems w.store d.name "update.where" := by
  have elsewhere {errors : List ValidationError} (none : ∀ e ∈ errors, e.path ≠ "update.where") :
      errors.filter (·.path == "update.where") = [] :=
    List.filter_eq_nil_iff.mpr fun e listed => by simpa using none e listed
  have here : ∀ e ∈ ctx.scanProblems w.store d.name "update.where",
      (e.path == "update.where") = true := fun e listed =>
    beq_iff_eq.mpr (Context.path_of_mem_scanProblems listed)
  obtain ⟨refused, same, columns⟩ := targets_adds (P := fun e => e.path ≠ "update.where") d
    s.assignments (fun a _ e located => located ▸ columnPath_ne a.column) []
  rw [List.nil_append] at same
  obtain ⟨added, later, others⟩ := @finishOn_adds s ctx d ((targets d s.assignments).run []).1
    (ctx.reads w.store d) w (refused ++ ctx.scanProblems w.store d.name "update.where")
  rw [run_execute_of_known known readable, same, later, List.filter_append, List.filter_append,
    elsewhere columns, elsewhere others, List.filter_eq_self.mpr here, List.nil_append,
    List.append_nil]

/-- An update that reports nothing has read the whole table. -/
theorem fits_of_clean {after : World} {result : Result}
    (ran : w.run (s.execute ctx []) = ((.ok result, []), after)) :
    (w.store.scan (some ctx.stage) s.table none).length ≤ ctx.limits.maxScanRows := by
  cases known : ctx.schema.get? s.table with
  | none =>
    rw [execute, known] at ran
    cases ran
  | some d =>
    cases readable : w.faults.contains .scan with
    | true =>
      have stopped := run_scanTable w ctx d.name "update.where"
        ((targets d s.assignments).run []).2
      rw [if_pos readable] at stopped
      rw [execute, known] at ran
      dsimp only at ran
      rw [Exec.run_bind (Exec.run_log w _ []), Exec.run_bind_error stopped] at ran
      cases ran
    | false =>
      have told := errors_at_scan known readable
      rw [ran, List.filter_nil] at told
      have fits := Context.scanProblems_eq_nil_iff.mp told.symm
      rwa [Schema.name_of_get? known, Store.scan_lower] at fits

end

end Update

/-! ### Insertions -/

/-- Errors are not lost when they are moved into a clause. -/
theorem eq_nil_of_scopeErrors {clause : String} {found : List ValidationError}
    (none : scopeErrors 0 clause found = []) : found = [] := by
  cases found with
  | nil => rfl
  | cons e rest =>
    have moved : reportAll [] ((e :: rest).map fun e => e.within clause) = [] := by
      rw [reportAll, List.foldl_map]
      exact (scopeErrors_eq_foldl clause [] (e :: rest)).symm.trans none
    rw [reportAll_nil, List.map_cons, List.eraseDups_cons] at moved
    cases moved

/-- An insertion of the rows of a query that reports nothing has read all tables of the query as a
whole. -/
theorem Insert.fits_of_clean {s : Insert} {q : Select} {ctx : Context} {w after : World}
    {result : Result} (given : s.source = .query q)
    (ran : w.run (s.execute ctx []) = ((.ok result, []), after)) :
    ∀ table ∈ q.tables,
      (w.store.scan (some ctx.stage) table none).length ≤ ctx.limits.maxScanRows := by
  rw [execute] at ran
  cases known : ctx.schema.get? s.table with
  | none =>
    rw [known] at ran
    cases ran
  | some d =>
    rw [known] at ran
    obtain ⟨rows, found, reads, evaluates, ran⟩ := Exec.run_bind_inv ran
    obtain ⟨records, staged, between, stages, ran⟩ := Exec.run_bind_inv ran
    -- No error that has been found is dropped later, so none was found by the query.
    have shows := returningRows_extends ctx.scope "insert.returning" s.returning records staged
    have puts := ((s.stageRows_serves ctx d rows 0 found).run reads).1
    rw [stages] at puts
    obtain rfl : found = [] :=
      clean_of_later puts (clean_of_later shows (Prod.mk.inj (Prod.mk.inj ran).1).2)
    rw [valueRows, given] at evaluates
    obtain ⟨outputs, mid, inner, inside, counts⟩ := Exec.run_bind_inv evaluates
    obtain ⟨counted, rfl⟩ := Exec.run_log_inv counts
    have checks := queryRows_extends s.columns.length (outputs.getD []) 0 mid
    rw [counted] at checks
    obtain ⟨told, queried⟩ := Exec.run_within_inv inside
    rw [Exec.run_within queried] at inside
    have moved : scopeErrors 0 "insert" told = mid := (Prod.mk.inj (Prod.mk.inj inside).1).2
    obtain rfl := eq_nil_of_scopeErrors (moved.trans (List.prefix_nil.mp checks))
    exact q.fits_of_clean queried

/-! ### Statements -/

namespace Statement

/-- The tables whose records a statement goes through. -/
def scanned : Statement → List String
  | select q => q.tables
  | insert s => match s.source with
    | .values _ => []
    | .query q => q.tables
  | update s => [s.table]

/-- A statement that reports nothing has read all tables that it goes through as a whole. -/
theorem fits_of_clean {s : Statement} {ctx : Context} {w after : World} {result : Result}
    (ran : w.run (s.execute ctx []) = ((.ok result, []), after)) :
    ∀ table ∈ s.scanned,
      (w.store.scan (some ctx.stage) table none).length ≤ ctx.limits.maxScanRows := by
  cases s with
  | select q =>
    obtain ⟨found, later, between, queried, ran⟩ := Exec.run_bind_inv ran
    cases found <;> cases ran <;> exact q.fits_of_clean queried
  | insert q =>
    rw [scanned]
    cases given : q.source with
    | values rows => exact List.forall_mem_nil _
    | query select => exact q.fits_of_clean given ran
  | update q =>
    intro table listed
    obtain rfl := List.mem_singleton.mp listed
    exact q.fits_of_clean ran

end Statement

namespace Engine

/-- A statement that has read only a part of a table is not committed. -/
theorem uncommitted_of_more (engine : Engine) {s : Statement} (w : World) {table : String}
    (listed : table ∈ s.scanned)
    (more : engine.limits.maxScanRows <
      ((begun w).store.scan (some w.store.openStage.1) table none).length) :
    (w.run (engine.execute s)).2.store.committed = w.store.committed ∧
      ∀ outcome, (w.run (engine.execute s)).1 = .ok outcome →
        outcome.result.canCommit = false ∧ outcome.committed = 0 := by
  have refused : ∀ outcome, (w.run (engine.execute s)).1 = .ok outcome →
      outcome.result.canCommit = false ∧ outcome.committed = 0 := by
    intro outcome replied
    have ends := conclude_cases (engine.finished s w) w.store.openStage.1 (engine.yielded s w)
    rw [← run_execute, replied] at ends
    rcases ends with ⟨failure, failed, -⟩ | ⟨result, errors, yields, may, -, -⟩ |
      ⟨result, errors, -, mayNot, same, -⟩
    · cases failed
    · obtain rfl := (engine.canCommit_iff s yields).mp may
      have ran : (begun w).run (s.execute (engine.context w.store.openStage.1) []) =
          ((.ok result, []), engine.finished s w) := Prod.ext yields rfl
      exact absurd more (Nat.not_lt.mpr (Statement.fits_of_clean ran table listed))
    · cases same
      exact ⟨mayNot, rfl⟩
  refine ⟨?_, refused⟩
  rcases execute_committed (Prod.mk.eta (p := w.run (engine.execute s))).symm with
    same | ⟨⟨outcome, replied, may⟩, -⟩
  · exact same
  · rw [(refused outcome replied).1] at may
    cases may

/-- The limit on the rows that are read of a table is exact. Where tables can be read, a scan yields
the first rows, as many as there are and the limit admits, and it reports an error, one and at its
own path, exactly if there are more; that it asks for one row more than the limit does no harm where
rows cannot be counted that far. A query whose sources exist is answered from what it has read of
them, an update works on what it has read of its table, and each place where a table is read has
just the error of its scan. So no statement that goes through a table and has read only a part of it
is ever committed. -/
theorem scan_limit_exact (w : World) :
    (∀ ctx : Context, .scan ∉ w.faults →
      (∀ table path errors,
        let shown := w.store.scan (some ctx.stage) table none
        w.run (scanTable ctx table path errors) =
          ((.ok (shown.take (min shown.length ctx.limits.maxScanRows)),
            errors ++ ctx.scanProblems w.store table path), w) ∧
        ∀ most, ctx.limits.maxScanRows ≤ most → shown.length ≤ most →
          w.run (scanFetching (min (ctx.limits.maxScanRows + 1) most) ctx table path errors) =
            w.run (scanTable ctx table path errors)) ∧
      (∀ s base types, Select.Typed s ctx.schema base types →
        let loaded := s.fetched ctx w.store base types
        ∃ errors, w.run (s.executeEntries ctx []) =
            ((.ok (some (s.entriesOf loaded.1.scope loaded.2)), errors), w) ∧
          ∀ scan ∈ Select.scans base types,
            errors.filter (·.path == scan.1) = ctx.scanProblems w.store scan.2.name scan.1) ∧
      ∀ (s : Update) d, ctx.schema.get? s.table = some d →
        let resolved := (Update.targets d s.assignments).run []
        w.run (s.execute ctx []) = w.run (s.finishOn ctx d resolved.1 (ctx.reads w.store d)
            (resolved.2 ++ ctx.scanProblems w.store d.name "update.where")) ∧
          (w.run (s.execute ctx [])).1.2.filter (·.path == "update.where") =
            ctx.scanProblems w.store d.name "update.where") ∧
    ∀ (engine : Engine) (s : Statement), ∀ table ∈ s.scanned,
      engine.limits.maxScanRows <
        ((begun w).store.scan (some w.store.openStage.1) table none).length →
      (w.run (engine.execute s)).2.store.committed = w.store.committed ∧
        ∀ outcome, (w.run (engine.execute s)).1 = .ok outcome →
          outcome.result.canCommit = false ∧ outcome.committed = 0 := by
  refine ⟨fun ctx works => ⟨?_, ?_, ?_⟩, ?_⟩
  · intro table path errors
    exact ⟨run_scanTable_exact w ctx table path errors works, fun most limited counted =>
      run_scanFetching w ctx table path errors limited counted⟩
  · intro s base types typed
    have readable : w.faults.contains .scan = false := by simpa using works
    have ran := Select.run_executeEntries_of_typed typed readable
    refine ⟨_, ran, fun scan reads => ?_⟩
    have told := Select.errors_at_scan typed readable reads
    rwa [ran] at told
  · intro s d known
    have readable : w.faults.contains .scan = false := by simpa using works
    exact ⟨Update.run_execute_of_known known readable [], Update.errors_at_scan known readable⟩
  · intro engine s table listed more
    exact engine.uncommitted_of_more w listed more

/-- An engine that reads two records of a table. -/
def pairsEngine : Engine where
  schema := Update.pairsContext.schema
  limits := { maxScanRows := 2 }
  now := ⟨1, 0, 0⟩

/-- A world with three pairs. -/
def threePairs : World where
  store := .load {} "pairs" [Update.pair "p" 1 2, Update.pair "q" 2 3, Update.pair "r" 5 6]
  now := ⟨1, 0, 0⟩
  ids := fun _ => "new"

/-- The pairs that carry on from others. -/
def pairsChained : Select where
  projections := [⟨.ref "next" "b", none⟩]
  base := .ofTable "pairs"
  joins := [⟨.inner, .ofTable "pairs" (some "next"),
    .comparison .eq (.ref "pairs" "b") (.ref "next" "a")⟩]

theorem scan_limit_exact_threePairs :
    .scan ∉ threePairs.faults ∧
    (∃ outputs errors, threePairs.run (pairsChained.executeEntries (pairsEngine.context ⟨1⟩) []) =
        ((.ok (some outputs), errors), threePairs) ∧
      errors.filter (·.path == "select.from") = [scanLimitError "pairs" 2 "select.from"] ∧
      errors.filter (·.path == itemPath "select.joins" 0) =
        [scanLimitError "pairs" 2 (itemPath "select.joins" 0)]) ∧
    (threePairs.run (Update.pairsSwap.execute (pairsEngine.context ⟨1⟩) [])).1.2.filter
      (·.path == "update.where") = [scanLimitError "pairs" 2 "update.where"] ∧
    ∀ s ∈ [Statement.update Update.pairsSwap,
        .insert (.into "pairs" ["b"] (.query pairsChained))],
      (threePairs.run (pairsEngine.execute s)).2.store.committed = threePairs.store.committed := by
  have works : .scan ∉ threePairs.faults := by decide
  have known : (pairsEngine.context ⟨1⟩).schema.get? "pairs" = some Update.pairsType := by
    decide +kernel
  have three : (threePairs.store.scan (some ⟨1⟩) "pairs" none).length = 3 := by decide +kernel
  have more (path : String) : (pairsEngine.context ⟨1⟩).scanProblems threePairs.store "pairs" path =
      [scanLimitError "pairs" 2 path] := by
    rw [Context.scanProblems]
    exact if_pos (Nat.lt_of_lt_of_eq (Nat.lt_succ_self 2) three.symm)
  obtain ⟨reads, never⟩ := scan_limit_exact threePairs
  obtain ⟨-, queries, updates⟩ := reads (pairsEngine.context ⟨1⟩) works
  have typed : Select.Typed pairsChained (pairsEngine.context ⟨1⟩).schema Update.pairsType
      [Update.pairsType] := ⟨known, .cons known .nil⟩
  obtain ⟨errors, ran, told⟩ := queries _ _ _ typed
  refine ⟨works, ⟨_, errors, ran, ?_, ?_⟩, ?_, ?_⟩
  · exact (told _ (List.mem_cons_self)).trans (more _)
  · exact (told _ (List.mem_cons_of_mem _ List.mem_cons_self)).trans (more _)
  · exact (updates Update.pairsSwap _ known).2.trans (more _)
  · intro s listed
    have exceeds : pairsEngine.limits.maxScanRows < ((begun threePairs).store.scan
        (some threePairs.store.openStage.1) "pairs" none).length := by decide +kernel
    refine (never pairsEngine s "pairs" ?_ exceeds).1
    rcases List.mem_cons.mp listed with rfl | listed
    · exact List.mem_cons_self
    · obtain rfl := List.mem_singleton.mp listed
      decide +kernel

end Engine
end RecordQuery
