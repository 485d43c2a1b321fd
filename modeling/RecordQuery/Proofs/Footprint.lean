import RecordQuery.Engine
import RecordQuery.Proofs.Calls
import RecordQuery.Proofs.Contracts
import RecordQuery.Proofs.LowerCase

/-!
What statements can do to a store, whatever it replies. A query only reads, as its stage sees the
store; an insertion or an update writes to its stage and its table only; and a result may be
committed exactly if no error has been found (`Statement.execute_serves`).
-/
namespace RecordQuery

/-- What only reads belongs to a statement that writes to any table. -/
theorem Exec.Ensures.serves {α : Type} {stage : StageId} {x : Exec α}
    {post : α → List ValidationError → Prop} {errors : List ValidationError}
    (ensures : x.Ensures (Call.Reads stage) post errors) (name : String) :
    x.Ensures (Call.Serves stage name) post errors :=
  ensures.mono (fun _ reads => reads.serves name) fun _ _ holds => holds

/-! ### Results -/

/-- A finished statement may be committed if no error has been found. -/
theorem Result.ensures_finish {calls : Call → Prop} (rows : List Json)
    (errors : List ValidationError) :
    (Result.finish rows).Ensures calls
      (fun result later => result.canCommit = true ↔ later = []) errors := by
  refine ⟨List.prefix_refl errors, ?_⟩
  rintro result ⟨⟩
  exact List.isEmpty_iff

/-- A statement that is given up for a reported error may not be committed. -/
theorem Result.ensures_rejected {calls : Call → Prop} (e : ValidationError)
    (errors : List ValidationError) :
    Exec.Ensures calls (fun (result : Result) later => result.canCommit = true ↔ later = [])
      (do Exec.log (Log.report e); return Result.rejected) errors := by
  refine (Exec.ensures_log (Log.extends_report e) errors).bind fun _ later _ reported => ?_
  obtain ⟨-, rfl⟩ := Prod.mk.inj reported
  exact Exec.ensures_pure (by simp [Result.rejected])

/-! ### Shared steps -/

section
variable (scope : Scope) (row : Option Record) (group : Option (List Record)) (clause : String)

theorem projectOne_extends (path : String) (p : Projection) :
    (projectOne scope row group path p).Extends :=
  (Log.extends_within path _).bind fun _ => Log.extends_pure _

theorem projectFrom_extends (ps : List Projection) :
    ∀ index, (projectFrom scope row group clause index ps).Extends := by
  induction ps with
  | nil => intro index; exact Log.extends_pure []
  | cons p rest ih =>
    intro index
    refine (projectOne_extends scope row group _ p).bind fun entries => ?_
    exact (ih (index + 1)).bind fun more => Log.extends_pure _

theorem returningRows_extends (ps : List Projection) (records : List Record) :
    (returningRows scope clause ps records).Extends := by
  rw [returningRows]
  split
  · exact Log.extends_pure []
  · refine Log.Extends.mapM (fun r => ?_) records
    exact (projectFrom_extends scope (some r) none clause ps 0).bind fun _ => Log.extends_pure _

end

theorem scanTable_reads (ctx : Context) (table path : String) (errors : List ValidationError) :
    (scanTable ctx table path).Ensures (Call.Reads ctx.stage) (fun _ _ => True) errors := by
  have reads : (Call.scan (some ctx.stage) table (some (ctx.limits.maxScanRows + 1))).Reads
      ctx.stage := rfl
  refine (Exec.ensures_attempt (Script.ensures_ask reads) errors).bind fun records found _ _ => ?_
  split
  · refine (Exec.ensures_log (Log.extends_report _) found).bind fun _ later _ _ => ?_
    exact Exec.ensures_pure trivial
  · exact Exec.ensures_pure trivial

/-! ### Queries -/

namespace Select

theorem joinTypes_extends (schema : Schema) (joins : List Join) :
    ∀ index, (joinTypes schema index joins).Extends := by
  induction joins with
  | nil => intro index; exact Log.extends_pure []
  | cons j rest ih =>
    intro index
    rw [joinTypes]
    split
    · exact (ih (index + 1)).bind fun types => Log.extends_pure _
    · exact (Log.extends_report _).bind fun _ => ih (index + 1)

/-- A source that is left out is reported. -/
theorem joinTypes_complete (schema : Schema) (joins : List Join) :
    ∀ index errors, ((joinTypes schema index joins).run errors).2 = [] →
      ((joinTypes schema index joins).run errors).1.length = joins.length := by
  induction joins with
  | nil => intro index errors _; rfl
  | cons j rest ih =>
    intro index errors
    rw [joinTypes]
    split
    · intro clean
      have counted := ih (index + 1) errors clean
      exact congrArg (· + 1) counted
    · rename_i unknown
      intro clean
      have grown := joinTypes_extends schema rest (index + 1)
        (errors ++ [unknownTable schema j.source.table (itemPath "select.joins" index)])
      have empty := clean_of_later grown clean
      simp at empty

theorem matchRows_extends (scope : Scope) (j : Join) (path : String) (row : Record)
    (candidates : List Record) : (matchRows scope j path row candidates).Extends := by
  induction candidates with
  | nil => exact Log.extends_pure []
  | cons candidate rest ih =>
    refine (Log.extends_within path _).bind fun keep => ?_
    exact ih.bind fun more => Log.extends_pure _

theorem joinRows_extends (scope : Scope) (j : Join) (path : String) (right rows : List Record) :
    (joinRows scope j path right rows).Extends := by
  induction rows with
  | nil => exact Log.extends_pure []
  | cons row rest ih =>
    refine (matchRows_extends scope j path row right).bind fun found => ?_
    exact ih.bind fun more => Log.extends_pure _

theorem joinAll_reads (ctx : Context) (joins : List (Join × TypeDef)) :
    ∀ index rows errors,
      (joinAll ctx index joins rows).Ensures (Call.Reads ctx.stage) (fun _ _ => True) errors := by
  induction joins with
  | nil => intro index rows errors; exact Exec.ensures_pure trivial
  | cons entry rest ih =>
    intro index rows errors
    obtain ⟨j, d⟩ := entry
    refine (scanTable_reads ctx d.name _ errors).bind fun right found _ _ => ?_
    refine (Exec.ensures_log (joinRows_extends _ j _ right rows) found).bind ?_
    intro joined later _ _
    exact ih (index + 1) joined later

/-- The sources are read, or one of them is reported. -/
theorem loadRows_reads (s : Select) (ctx : Context) (errors : List ValidationError) :
    (s.loadRows ctx).Ensures (Call.Reads ctx.stage)
      (fun found later => found = none → later ≠ []) errors := by
  rw [loadRows]
  split
  · refine (Exec.ensures_log (Log.extends_report _) errors).bind fun _ later _ reported => ?_
    refine Exec.ensures_pure fun _ clean => ?_
    obtain ⟨-, rfl⟩ := Prod.mk.inj reported
    simp at clean
  · rename_i base known
    refine (Exec.ensures_log (joinTypes_extends ctx.schema s.joins 0) errors).bind ?_
    intro types later _ typed
    split
    · rename_i missing
      refine Exec.ensures_pure fun _ clean => missing ?_
      have counted := joinTypes_complete ctx.schema s.joins 0 errors
      rw [typed] at counted
      exact counted clean
    · refine (scanTable_reads ctx base.name "select.from" later).bind fun records found _ _ => ?_
      split
      · exact Exec.ensures_pure (by simp)
      · have joined := joinAll_reads { ctx with aliases := s.bindings base types }
        refine (joined (s.joins.zip types) 0 _ found).bind fun rows after _ _ => ?_
        exact Exec.ensures_pure (by simp)

theorem filterRows_extends (scope : Scope) (condition : Option Expr) (rows : List Record) :
    (filterRows scope condition rows).Extends := by
  cases condition with
  | none => exact Log.extends_pure rows
  | some e => exact Log.Extends.filterM (fun row => Log.extends_within _ _) rows

theorem outputRow_extends (s : Select) (scope : Scope) (row : Option Record)
    (group : Option (List Record)) : (s.outputRow scope row group).Extends := by
  refine (projectFrom_extends scope row group _ s.projections 0).bind fun entries => ?_
  refine Log.Extends.bind ?_ fun values => Log.extends_pure _
  refine Log.Extends.mapM (fun key => ?_) s.orderBy
  exact (Log.extends_within _ _).bind fun value => Log.extends_pure _

theorem groupRows_extends (scope : Scope) (exprs : List Expr) (rows : List Record) :
    (groupRows scope exprs rows).Extends := by
  have key (row : Record) : (groupKey scope exprs row).Extends :=
    (Log.extends_within _ _).bind fun values => Log.extends_pure _
  rw [groupRows]
  split
  · exact Log.extends_pure [rows]
  · refine Log.Extends.bind ?_ fun groups => Log.extends_pure _
    refine Log.Extends.foldlM (fun groups row => ?_) rows []
    exact (key row).bind fun k => Log.extends_pure _

theorem outputRows_extends (s : Select) (scope : Scope) (rows : List Record) :
    (s.outputRows scope rows).Extends := by
  rw [outputRows]
  split
  · refine (groupRows_extends scope s.groupBy rows).bind fun groups => ?_
    exact Log.Extends.mapM (fun members => s.outputRow_extends scope _ _) groups
  · exact Log.Extends.mapM (fun row => s.outputRow_extends scope _ _) rows

theorem executeEntries_reads (s : Select) (ctx : Context) (errors : List ValidationError) :
    (s.executeEntries ctx).Ensures (Call.Reads ctx.stage)
      (fun found later => found = none → later ≠ []) errors := by
  refine (s.loadRows_reads { ctx with aliases := [] } errors).bind fun loaded later _ reported => ?_
  cases loaded with
  | none => exact Exec.ensures_pure fun _ => reported rfl
  | some entry =>
    obtain ⟨inner, rows⟩ := entry
    have outputs := (filterRows_extends inner.scope s.filter rows).bind fun kept =>
      s.outputRows_extends inner.scope kept
    refine (Exec.ensures_log outputs later).bind fun found after _ _ => ?_
    exact Exec.ensures_pure (by simp)

/-- A query only reads, and it may be committed exactly if it reports no error. -/
theorem execute_reads (s : Select) (ctx : Context) (errors : List ValidationError) :
    (s.execute ctx).Ensures (Call.Reads ctx.stage)
      (fun result later => result.canCommit = true ↔ later = []) errors := by
  refine (s.executeEntries_reads ctx errors).bind fun found later _ reported => ?_
  cases found with
  | none =>
    refine Exec.ensures_pure ⟨fun may => ?_, fun clean => absurd clean (reported rfl)⟩
    cases may
  | some rows => exact Result.ensures_finish _ later

end Select

/-! ### Insertions -/

/-- Checking a value looks at most for the record that it refers to. -/
theorem Field.refusal?_reads (field : Field) (stage : StageId) (value : Json) :
    (field.refusal? stage value).Ensures (Call.Reads stage) fun _ => True := by
  rw [refusal?]
  split
  · trivial
  · trivial
  · refine ⟨rfl, fun reply => ?_⟩
    rcases reply with failure | found
    · trivial
    · cases found <;> trivial

namespace Insert

theorem literalRows_extends (scope : Scope) (expected : Nat) (rows : List (List Expr)) :
    ∀ index, (literalRows scope expected index rows).Extends := by
  induction rows with
  | nil => intro index; exact Log.extends_pure []
  | cons row rest ih =>
    intro index
    have more (values : Option (List Json)) :
        Log.Extends (do return values :: (← literalRows scope expected (index + 1) rest)) :=
      (ih (index + 1)).bind fun later => Log.extends_pure _
    rw [literalRows]
    split
    · exact ((Log.extends_within _ _).map some).bind more
    · exact ((Log.extends_report _).bind fun _ => Log.extends_pure none).bind more

theorem queryRows_extends (expected : Nat) (rows : List Entries) :
    ∀ index, (queryRows expected index rows).Extends := by
  induction rows with
  | nil => intro index; exact Log.extends_pure []
  | cons row rest ih =>
    intro index
    have checked : (checkArity expected index (row.map (·.2))).Extends := by
      rw [checkArity]
      split
      · exact Log.extends_pure _
      · exact (Log.extends_report _).bind fun _ => Log.extends_pure none
    exact checked.bind fun values => (ih (index + 1)).bind fun later => Log.extends_pure _

theorem valueRows_reads (s : Insert) (ctx : Context) (errors : List ValidationError) :
    (s.valueRows ctx).Ensures (Call.Reads ctx.stage) (fun _ _ => True) errors := by
  rw [valueRows]
  split
  · rename_i rows _
    have literal := literalRows_extends ctx.scope s.columns.length rows 0
    exact (Exec.ensures_log literal errors).mono (fun _ reads => reads) fun _ _ _ => trivial
  · rename_i select _
    refine (select.executeEntries_reads ctx errors).within.bind fun rows later _ _ => ?_
    have queried := queryRows_extends s.columns.length (rows.getD []) 0
    exact (Exec.ensures_log queried later).mono (fun _ reads => reads) fun _ _ _ => trivial

theorem stageColumn_reads (ctx : Context) (d : TypeDef) (path : String) (fields : Dict Json)
    (column : String) (value : Json) (errors : List ValidationError) :
    (stageColumn ctx d path fields column value).Ensures (Call.Reads ctx.stage)
      (fun _ _ => True) errors := by
  have reported (e : ValidationError) (errors : List ValidationError) :
      Exec.Ensures (Call.Reads ctx.stage) (fun _ _ => True)
        (do Exec.log (Log.report e); return fields) errors :=
    (Exec.ensures_log (Log.extends_report e) errors).bind fun _ _ _ _ => Exec.ensures_pure trivial
  rw [stageColumn]
  split
  · exact reported _ errors
  · split
    · exact reported _ errors
    · rename_i field _
      have checked := Exec.ensures_script (field.refusal?_reads ctx.stage value) errors
      refine checked.bind fun refusal later _ _ => ?_
      cases refusal with
      | none => exact Exec.ensures_pure trivial
      | some reason => exact reported _ later

theorem stageColumns_reads (ctx : Context) (d : TypeDef) (path : String)
    (pairs : List (String × Json)) : ∀ fields errors,
      (stageColumns ctx d path fields pairs).Ensures (Call.Reads ctx.stage)
        (fun _ _ => True) errors := by
  induction pairs with
  | nil => intro fields errors; exact Exec.ensures_pure trivial
  | cons pair rest ih =>
    intro fields errors
    obtain ⟨column, value⟩ := pair
    refine (stageColumn_reads ctx d path fields column value errors).bind ?_
    intro found later _ _
    exact ih found later

theorem stageRow_reads (s : Insert) (ctx : Context) (d : TypeDef) (path : String)
    (values : List Json) (errors : List ValidationError) :
    (s.stageRow ctx d path values).Ensures (Call.Reads ctx.stage) (fun _ _ => True) errors := by
  refine (stageColumns_reads ctx d path _ [] errors).bind fun fields later _ _ => ?_
  have reported := Log.Extends.forM Log.extends_report
    (missingFields d path ((s.columns.zip values).map (·.1)))
  refine (Exec.ensures_log reported later).bind fun _ _ _ _ => ?_
  exact Exec.ensures_pure trivial

theorem stageRows_serves (s : Insert) (ctx : Context) (d : TypeDef)
    (rows : List (Option (List Json))) : ∀ index errors,
    (s.stageRows ctx d index rows).Ensures (Call.Serves ctx.stage (Text.lower d.name))
      (fun _ _ => True) errors := by
  induction rows with
  | nil => intro index errors; exact Exec.ensures_pure trivial
  | cons row rest ih =>
    intro index errors
    cases row with
    | none => exact ih (index + 1) errors
    | some values =>
      refine ((s.stageRow_reads ctx d (rowPath index) values errors).serves _).bind ?_
      intro fields found _ _
      refine (Exec.ensures_script (Script.ensures_ask trivial) found).bind fun id named _ _ => ?_
      refine (Exec.ensures_attempt (Script.ensures_ask ⟨rfl, rfl⟩) named).bind fun r later _ _ => ?_
      refine (ih (index + 1) later).bind fun records _ _ _ => ?_
      exact Exec.ensures_pure trivial

/-- An insertion reads and writes in its stage, writes to its table only, and may be committed
exactly if it reports no error. -/
theorem execute_serves (s : Insert) (ctx : Context) (errors : List ValidationError) :
    (s.execute ctx).Ensures (Call.Serves ctx.stage (Text.lower s.table))
      (fun result later => result.canCommit = true ↔ later = []) errors := by
  rw [execute]
  split
  · exact Result.ensures_rejected _ errors
  · rename_i d known
    rw [← Schema.lower_name_of_get? known]
    refine ((s.valueRows_reads ctx errors).serves _).bind fun values found _ _ => ?_
    refine (s.stageRows_serves ctx d values 0 found).bind fun records later _ _ => ?_
    have returned := returningRows_extends ctx.scope "insert.returning" s.returning records
    refine (Exec.ensures_log returned later).bind fun rows after _ _ => ?_
    exact Result.ensures_finish rows after

end Insert

/-! ### Updates -/

namespace Update

theorem targets_extends (d : TypeDef) (assignments : List Assignment) :
    (targets d assignments).Extends := by
  induction assignments with
  | nil => exact Log.extends_pure []
  | cons a rest ih =>
    rw [targets]
    split
    · exact (Log.extends_report _).bind fun _ => ih
    · split
      · exact (Log.extends_report _).bind fun _ => ih
      · exact ih.bind fun found => Log.extends_pure _

theorem changes_reads (ctx : Context) (r : Record) (targets : List (Field × Expr)) :
    ∀ found errors,
      (changes ctx r found targets).Ensures (Call.Reads ctx.stage) (fun _ _ => True) errors := by
  induction targets with
  | nil => intro found errors; exact Exec.ensures_pure trivial
  | cons target rest ih =>
    intro found errors
    obtain ⟨field, e⟩ := target
    refine (Exec.ensures_log (Log.extends_within _ _) errors).bind fun value evaluated _ _ => ?_
    have checked := Exec.ensures_script (field.refusal?_reads ctx.stage value.raw) evaluated
    refine checked.bind fun refusal later _ _ => ?_
    cases refusal with
    | none => exact ih _ later
    | some reason =>
      refine (Exec.ensures_log (Log.extends_once _) later).bind fun _ after _ _ => ?_
      exact ih found after

theorem selects_extends (scope : Scope) (condition : Option Expr) (r : Record) :
    (selects scope condition r).Extends := by
  cases condition with
  | none => exact Log.extends_pure true
  | some e => exact Log.extends_within _ _

theorem updateRecords_serves (s : Update) (ctx : Context) (d : TypeDef)
    (targets : List (Field × Expr)) (records : List Record) : ∀ errors,
    (s.updateRecords ctx d targets records).Ensures (Call.Serves ctx.stage (Text.lower d.name))
      (fun _ _ => True) errors := by
  induction records with
  | nil => intro errors; exact Exec.ensures_pure trivial
  | cons r rest ih =>
    intro errors
    rw [updateRecords]
    refine (Exec.ensures_log (selects_extends ctx.scope s.filter r) errors).bind ?_
    intro selected tested _ _
    split
    · refine ((changes_reads ctx r targets [] tested).serves _).bind fun found later _ _ => ?_
      split
      · exact ih later
      · refine (Exec.ensures_attempt (Script.ensures_ask ⟨rfl, rfl⟩) later).bind ?_
        intro updated after _ _
        refine (ih after).bind fun more _ _ _ => ?_
        exact Exec.ensures_pure trivial
    · exact ih tested

/-- An update reads and writes in its stage, writes to its table only, and may be committed exactly
if it reports no error. -/
theorem execute_serves (s : Update) (ctx : Context) (errors : List ValidationError) :
    (s.execute ctx).Ensures (Call.Serves ctx.stage (Text.lower s.table))
      (fun result later => result.canCommit = true ↔ later = []) errors := by
  rw [execute]
  split
  · exact Result.ensures_rejected _ errors
  · rename_i d known
    rw [← Schema.lower_name_of_get? known]
    refine (Exec.ensures_log (targets_extends d s.assignments) errors).bind ?_
    intro targets found _ _
    refine ((scanTable_reads ctx d.name _ found).serves _).bind fun records later _ _ => ?_
    refine (s.updateRecords_serves ctx d targets records later).bind fun updated after _ _ => ?_
    have returned := returningRows_extends ctx.scope "update.returning" s.returning updated
    refine (Exec.ensures_log returned after).bind fun rows last _ _ => ?_
    exact Result.ensures_finish rows last

end Update

/-! ### Statements -/

namespace Statement

/-- A statement reads and writes in its stage, writes to its table only, and may be committed
exactly if it reports no error. -/
theorem execute_serves (s : Statement) (ctx : Context) (errors : List ValidationError) :
    (s.execute ctx).Ensures (Call.Serves ctx.stage (Text.lower s.table))
      (fun result later => result.canCommit = true ↔ later = []) errors := by
  cases s with
  | select q =>
    exact (q.execute_reads ctx errors).serves _
  | insert q => exact q.execute_serves ctx errors
  | update q => exact q.execute_serves ctx errors

end Statement
end RecordQuery
