import RecordQuery.Proofs.Footprint
import RecordQuery.Proofs.MovedErrors

/-!
What happens to the errors while a statement runs. A statement never looks at the errors that it
finds: in each world it reports and moves errors in one certain sequence of events, whatever has
been reported before (`Log.Follows`, `Exec.Follows`, `Statement.follows`). Each clause that begins
in the sequence ends in it, unless a failure stops the statement. So what is true of all sequences
of events is true of every statement: no clause disturbs what is in front of its mark, and a
statement that has found an error is not committed (`scopeErrors_relocates`).
-/
namespace RecordQuery

/-! ### Parts that only add errors -/

namespace Ledger

theorem run_report (errors found : List ValidationError) (marks : List (List ValidationError)) :
    run ⟨errors, marks⟩ (found.map .report) = ⟨errors ++ found, marks⟩ := by
  induction found generalizing errors with
  | nil => rw [List.append_nil]; rfl
  | cons e rest ih =>
    have later := ih (errors ++ [e])
    rw [List.append_assoc, List.singleton_append] at later
    exact later

end Ledger

namespace Log
variable {α β : Type}

/-- Whatever errors the computation finds, it yields the same, and the same events happen to the
errors. These leave no clause open. -/
def Follows (x : Log α) : Prop := ∃ a events, ∀ errors, ∃ later,
  x.run errors = (a, later) ∧ ∀ marks, Ledger.run ⟨errors, marks⟩ events = ⟨later, marks⟩

theorem follows_pure (a : α) : Follows (pure a) :=
  ⟨a, [], fun errors => ⟨errors, rfl, fun _ => rfl⟩⟩

theorem follows_report (e : ValidationError) : (report e).Follows :=
  ⟨(), [.report e], fun errors => ⟨errors ++ [e], rfl, fun _ => rfl⟩⟩

theorem follows_once (e : ValidationError) : (once e).Follows :=
  ⟨(), [.once e], fun errors => ⟨reportOnce errors e, rfl, fun _ => rfl⟩⟩

theorem Follows.bind {x : Log α} {f : α → Log β} (first : x.Follows)
    (second : ∀ a, (f a).Follows) : (x >>= f).Follows := by
  obtain ⟨a, before, one⟩ := first
  obtain ⟨b, after, two⟩ := second a
  refine ⟨b, before ++ after, fun errors => ?_⟩
  obtain ⟨mid, ran, happened⟩ := one errors
  obtain ⟨later, yielded, next⟩ := two mid
  refine ⟨later, ?_, fun marks => by rw [Ledger.run_append, happened, next]⟩
  change (f (x.run errors).1).run (x.run errors).2 = _
  rw [ran, yielded]

theorem Follows.map {x : Log α} (f : α → β) (follows : x.Follows) : (f <$> x).Follows :=
  follows.bind fun a => follows_pure (f a)

/-- The faults of an evaluation are reported in a clause of their own. -/
theorem follows_within (clause : String) (x : Reported α) : (within clause x).Follows := by
  refine ⟨x.value, .enter :: ((x.faults.map Fault.error).map .report ++ [.leave clause]), ?_⟩
  refine fun errors => ⟨_, rfl, fun marks => ?_⟩
  have entered : Ledger.step ⟨errors, marks⟩ .enter = ⟨errors, errors :: marks⟩ := rfl
  rw [Ledger.run, List.foldl_cons, entered, ← Ledger.run, Ledger.run_concat, Ledger.run_report]
  rfl

theorem Follows.mapM {f : α → Log β} (each : ∀ a, (f a).Follows) (items : List α) :
    (items.mapM f).Follows := by
  induction items with
  | nil => rw [List.mapM_nil]; exact follows_pure []
  | cons a rest ih =>
    rw [List.mapM_cons]
    exact (each a).bind fun b => ih.bind fun bs => follows_pure _

theorem Follows.forM {f : α → Log PUnit} (each : ∀ a, (f a).Follows) (items : List α) :
    (items.forM f).Follows := by
  induction items with
  | nil => exact follows_pure _
  | cons a rest ih => exact (each a).bind fun _ => ih

theorem Follows.foldlM {f : β → α → Log β} (each : ∀ b a, (f b a).Follows) (items : List α) :
    ∀ b, (items.foldlM f b).Follows := by
  induction items with
  | nil => intro b; exact follows_pure b
  | cons a rest ih =>
    intro b
    rw [List.foldlM_cons]
    exact (each b a).bind ih

theorem Follows.filterM {p : α → Log Bool} (each : ∀ a, (p a).Follows) (items : List α) :
    (items.filterM p).Follows := by
  have kept : ∀ found, (items.filterAuxM p found).Follows := by
    induction items with
    | nil => intro found; exact follows_pure found
    | cons a rest ih => intro found; exact (each a).bind fun keep => ih _
  exact (kept []).bind fun _ => follows_pure _

end Log

/-! ### Parts that call the store -/

namespace Exec
variable {α β : Type}

/-- In each world, whatever errors the computation finds, it yields the same and leaves the same
world, and the same events happen to the errors. Only a failure leaves clauses open. -/
def Follows (x : Exec α) : Prop := ∀ w : World, ∃ reply after events, ∀ errors, ∃ later,
  w.run (x errors) = ((reply, later), after) ∧ ∀ marks, ∃ opened,
    Ledger.run ⟨errors, marks⟩ events = ⟨later, opened ++ marks⟩ ∧ ∀ a, reply = .ok a → opened = []

theorem follows_log {x : Log α} (follows : x.Follows) : (log x).Follows := by
  intro w
  obtain ⟨a, events, each⟩ := follows
  refine ⟨.ok a, w, events, fun errors => ?_⟩
  obtain ⟨later, ran, happened⟩ := each errors
  exact ⟨later, by rw [run_log, ran], fun marks => ⟨[], happened marks, fun _ _ => rfl⟩⟩

theorem follows_pure (a : α) : Follows (pure a) :=
  fun w => ⟨.ok a, w, [], fun errors => ⟨errors, rfl, fun _ => ⟨[], rfl, fun _ _ => rfl⟩⟩⟩

theorem follows_script (s : Script α) : (script s).Follows := by
  intro w
  have ran (errors : List ValidationError) :
      w.run (script s errors) = ((.ok (w.run s).1, errors), (w.run s).2) := w.run_bind s _
  exact ⟨_, _, [], fun errors => ⟨errors, ran errors, fun _ => ⟨[], rfl, fun _ _ => rfl⟩⟩⟩

theorem follows_attempt (s : Script (Except Failure α)) : (attempt s).Follows :=
  fun w => ⟨_, _, [], fun errors =>
    ⟨errors, run_attempt w s errors, fun _ => ⟨[], rfl, fun _ _ => rfl⟩⟩⟩

theorem Follows.bind {x : Exec α} {f : α → Exec β} (first : x.Follows)
    (second : ∀ a, (f a).Follows) : (x >>= f).Follows := by
  intro w
  obtain ⟨reply, between, before, one⟩ := first w
  cases reply with
  | error failure =>
    refine ⟨.error failure, between, before, fun errors => ?_⟩
    obtain ⟨later, ran, happened⟩ := one errors
    refine ⟨later, run_bind_error ran f, fun marks => ?_⟩
    obtain ⟨opened, same, -⟩ := happened marks
    exact ⟨opened, same, by simp⟩
  | ok a =>
    obtain ⟨reply, ended, after, two⟩ := second a between
    refine ⟨reply, ended, before ++ after, fun errors => ?_⟩
    obtain ⟨mid, ran, happened⟩ := one errors
    obtain ⟨later, yielded, next⟩ := two mid
    refine ⟨later, (run_bind ran f).trans yielded, fun marks => ?_⟩
    obtain ⟨opened, same, closed⟩ := happened marks
    obtain rfl := closed a rfl
    rw [Ledger.run_append, same]
    exact next marks

/-- The errors of a computation are moved at the end of the clause that begins with it. -/
theorem Follows.within {x : Exec α} (follows : x.Follows) (clause : String) :
    (within clause x).Follows := by
  intro w
  obtain ⟨reply, after, events, each⟩ := follows w
  have entered (errors : List ValidationError) (marks : List (List ValidationError)) :
      Ledger.run ⟨errors, marks⟩ (.enter :: events) =
        Ledger.run ⟨errors, errors :: marks⟩ events := rfl
  cases reply with
  | error failure =>
    refine ⟨.error failure, after, .enter :: events, fun errors => ?_⟩
    obtain ⟨later, ran, happened⟩ := each errors
    refine ⟨later, run_bind_error ran _, fun marks => ?_⟩
    obtain ⟨opened, same, -⟩ := happened (errors :: marks)
    exact ⟨opened ++ [errors], by rw [entered, same, List.append_assoc]; rfl, by simp⟩
  | ok a =>
    refine ⟨.ok a, after, .enter :: events ++ [.leave clause], fun errors => ?_⟩
    obtain ⟨later, ran, happened⟩ := each errors
    refine ⟨_, run_within ran clause, fun marks => ⟨[], ?_, fun _ _ => rfl⟩⟩
    obtain ⟨opened, same, closed⟩ := happened (errors :: marks)
    obtain rfl := closed a rfl
    rw [Ledger.run_concat, entered, same]
    rfl

end Exec

/-! ### Shared steps -/

section
variable (scope : Scope) (row : Option Record) (group : Option (List Record)) (clause : String)

theorem projectFrom_follows (ps : List Projection) :
    ∀ index, (projectFrom scope row group clause index ps).Follows := by
  induction ps with
  | nil => intro index; exact Log.follows_pure []
  | cons p rest ih =>
    intro index
    have one : (projectOne scope row group (itemPath clause index) p).Follows :=
      (Log.follows_within _ _).bind fun _ => Log.follows_pure _
    exact one.bind fun entries => (ih (index + 1)).bind fun more => Log.follows_pure _

theorem returningRows_follows (ps : List Projection) (records : List Record) :
    (returningRows scope clause ps records).Follows := by
  rw [returningRows]
  split
  · exact Log.follows_pure []
  · refine Log.Follows.mapM (fun r => ?_) records
    exact (projectFrom_follows scope (some r) none clause ps 0).bind fun _ => Log.follows_pure _

end

theorem scanTable_follows (ctx : Context) (table path : String) :
    (scanTable ctx table path).Follows := by
  refine (Exec.follows_attempt _).bind fun records => ?_
  split
  · exact (Exec.follows_log (Log.follows_report _)).bind fun _ => Exec.follows_pure _
  · exact Exec.follows_pure _

/-! ### Queries -/

namespace Select

theorem joinTypes_follows (schema : Schema) (joins : List Join) :
    ∀ index, (joinTypes schema index joins).Follows := by
  induction joins with
  | nil => intro index; exact Log.follows_pure []
  | cons j rest ih =>
    intro index
    rw [joinTypes]
    split
    · exact (ih (index + 1)).bind fun types => Log.follows_pure _
    · exact (Log.follows_report _).bind fun _ => ih (index + 1)

theorem matchRows_follows (scope : Scope) (j : Join) (path : String) (row : Record)
    (candidates : List Record) : (matchRows scope j path row candidates).Follows := by
  induction candidates with
  | nil => exact Log.follows_pure []
  | cons candidate rest ih =>
    exact (Log.follows_within path _).bind fun keep => ih.bind fun more => Log.follows_pure _

theorem joinRows_follows (scope : Scope) (j : Join) (path : String) (right rows : List Record) :
    (joinRows scope j path right rows).Follows := by
  induction rows with
  | nil => exact Log.follows_pure []
  | cons row rest ih =>
    refine (matchRows_follows scope j path row right).bind fun found => ?_
    exact ih.bind fun more => Log.follows_pure _

theorem joinAll_follows (ctx : Context) (joins : List (Join × TypeDef)) :
    ∀ index rows, (joinAll ctx index joins rows).Follows := by
  induction joins with
  | nil => intro index rows; exact Exec.follows_pure rows
  | cons entry rest ih =>
    intro index rows
    refine (scanTable_follows ctx entry.2.name _).bind fun right => ?_
    have joined := joinRows_follows ctx.scope entry.1 (itemPath "select.joins" index ++ ".on") right
    exact (Exec.follows_log (joined rows)).bind fun found => ih _ found

theorem loadRows_follows (s : Select) (ctx : Context) : (s.loadRows ctx).Follows := by
  rw [loadRows]
  split
  · exact (Exec.follows_log (Log.follows_report _)).bind fun _ => Exec.follows_pure none
  · rename_i base _
    refine (Exec.follows_log (joinTypes_follows ctx.schema s.joins 0)).bind fun types => ?_
    split
    · exact Exec.follows_pure none
    · refine (scanTable_follows ctx base.name "select.from").bind fun records => ?_
      split
      · exact Exec.follows_pure _
      · have joined := joinAll_follows { ctx with aliases := s.bindings base types }
        exact (joined (s.joins.zip types) 0 _).bind fun rows => Exec.follows_pure _

theorem filterRows_follows (scope : Scope) (condition : Option Expr) (rows : List Record) :
    (filterRows scope condition rows).Follows := by
  cases condition with
  | none => exact Log.follows_pure rows
  | some e => exact Log.Follows.filterM (fun row => Log.follows_within _ _) rows

theorem outputRow_follows (s : Select) (scope : Scope) (row : Option Record)
    (group : Option (List Record)) : (s.outputRow scope row group).Follows := by
  refine (projectFrom_follows scope row group _ s.projections 0).bind fun entries => ?_
  refine Log.Follows.bind ?_ fun values => Log.follows_pure _
  refine Log.Follows.mapM (fun key => ?_) s.orderBy
  exact (Log.follows_within _ _).bind fun value => Log.follows_pure _

theorem groupRows_follows (scope : Scope) (exprs : List Expr) (rows : List Record) :
    (groupRows scope exprs rows).Follows := by
  have key (row : Record) : (groupKey scope exprs row).Follows :=
    (Log.follows_within _ _).bind fun values => Log.follows_pure _
  rw [groupRows]
  split
  · exact Log.follows_pure [rows]
  · refine Log.Follows.bind ?_ fun groups => Log.follows_pure _
    refine Log.Follows.foldlM (fun groups row => ?_) rows []
    exact (key row).bind fun k => Log.follows_pure _

theorem outputRows_follows (s : Select) (scope : Scope) (rows : List Record) :
    (s.outputRows scope rows).Follows := by
  rw [outputRows]
  split
  · refine (groupRows_follows scope s.groupBy rows).bind fun groups => ?_
    exact Log.Follows.mapM (fun members => s.outputRow_follows scope _ _) groups
  · exact Log.Follows.mapM (fun row => s.outputRow_follows scope _ _) rows

theorem executeEntries_follows (s : Select) (ctx : Context) : (s.executeEntries ctx).Follows := by
  refine (s.loadRows_follows { ctx with aliases := [] }).bind fun loaded => ?_
  cases loaded with
  | none => exact Exec.follows_pure none
  | some entry =>
    obtain ⟨inner, rows⟩ := entry
    have outputs := (filterRows_follows inner.scope s.filter rows).bind fun kept =>
      s.outputRows_follows inner.scope kept
    exact (Exec.follows_log outputs).bind fun found => Exec.follows_pure _

end Select

/-! ### Insertions -/

namespace Insert

theorem literalRows_follows (scope : Scope) (expected : Nat) (rows : List (List Expr)) :
    ∀ index, (literalRows scope expected index rows).Follows := by
  induction rows with
  | nil => intro index; exact Log.follows_pure []
  | cons row rest ih =>
    intro index
    have more (values : Option (List Json)) :
        Log.Follows (do return values :: (← literalRows scope expected (index + 1) rest)) :=
      (ih (index + 1)).bind fun later => Log.follows_pure _
    rw [literalRows]
    split
    · exact ((Log.follows_within _ _).map some).bind more
    · exact ((Log.follows_report _).bind fun _ => Log.follows_pure none).bind more

theorem queryRows_follows (expected : Nat) (rows : List Entries) :
    ∀ index, (queryRows expected index rows).Follows := by
  induction rows with
  | nil => intro index; exact Log.follows_pure []
  | cons row rest ih =>
    intro index
    have checked : (checkArity expected index (row.map (·.2))).Follows := by
      rw [checkArity]
      split
      · exact Log.follows_pure _
      · exact (Log.follows_report _).bind fun _ => Log.follows_pure none
    exact checked.bind fun values => (ih (index + 1)).bind fun later => Log.follows_pure _

theorem valueRows_follows (s : Insert) (ctx : Context) : (s.valueRows ctx).Follows := by
  rw [valueRows]
  split
  · exact Exec.follows_log (literalRows_follows ctx.scope s.columns.length _ 0)
  · rename_i select _
    refine ((select.executeEntries_follows ctx).within "insert").bind fun rows => ?_
    exact Exec.follows_log (queryRows_follows s.columns.length (rows.getD []) 0)

theorem stageColumn_follows (ctx : Context) (d : TypeDef) (path : String) (fields : Dict Json)
    (column : String) (value : Json) : (stageColumn ctx d path fields column value).Follows := by
  have reported (e : ValidationError) :
      Exec.Follows (do Exec.log (Log.report e); return fields) :=
    (Exec.follows_log (Log.follows_report e)).bind fun _ => Exec.follows_pure fields
  rw [stageColumn]
  split
  · exact reported _
  · split
    · exact reported _
    · refine (Exec.follows_script _).bind fun refusal => ?_
      cases refusal with
      | none => exact Exec.follows_pure _
      | some reason => exact reported _

theorem stageColumns_follows (ctx : Context) (d : TypeDef) (path : String)
    (pairs : List (String × Json)) : ∀ fields, (stageColumns ctx d path fields pairs).Follows := by
  induction pairs with
  | nil => intro fields; exact Exec.follows_pure fields
  | cons pair rest ih =>
    intro fields
    exact (stageColumn_follows ctx d path fields pair.1 pair.2).bind ih

theorem stageRow_follows (s : Insert) (ctx : Context) (d : TypeDef) (path : String)
    (values : List Json) : (s.stageRow ctx d path values).Follows := by
  refine (stageColumns_follows ctx d path _ []).bind fun fields => ?_
  have reported := Log.Follows.forM Log.follows_report
    (missingFields d path ((s.columns.zip values).map (·.1)))
  exact (Exec.follows_log reported).bind fun _ => Exec.follows_pure fields

theorem stageRows_follows (s : Insert) (ctx : Context) (d : TypeDef)
    (rows : List (Option (List Json))) : ∀ index, (s.stageRows ctx d index rows).Follows := by
  induction rows with
  | nil => intro index; exact Exec.follows_pure []
  | cons row rest ih =>
    intro index
    cases row with
    | none => exact ih (index + 1)
    | some values =>
      refine (s.stageRow_follows ctx d (rowPath index) values).bind fun fields => ?_
      refine (Exec.follows_script _).bind fun id => (Exec.follows_attempt _).bind fun r => ?_
      exact (ih (index + 1)).bind fun records => Exec.follows_pure _

end Insert

/-! ### Updates -/

namespace Update

theorem targets_follows (d : TypeDef) (assignments : List Assignment) :
    (targets d assignments).Follows := by
  induction assignments with
  | nil => exact Log.follows_pure []
  | cons a rest ih =>
    rw [targets]
    split
    · exact (Log.follows_report _).bind fun _ => ih
    · split
      · exact (Log.follows_report _).bind fun _ => ih
      · exact ih.bind fun found => Log.follows_pure _

theorem changes_follows (ctx : Context) (r : Record) (targets : List (Field × Expr)) :
    ∀ found, (changes ctx r found targets).Follows := by
  induction targets with
  | nil => intro found; exact Exec.follows_pure found
  | cons target rest ih =>
    intro found
    refine (Exec.follows_log (Log.follows_within _ _)).bind fun value => ?_
    refine (Exec.follows_script _).bind fun refusal => ?_
    cases refusal with
    | none => exact ih _
    | some reason => exact (Exec.follows_log (Log.follows_once _)).bind fun _ => ih found

theorem selects_follows (scope : Scope) (condition : Option Expr) (r : Record) :
    (selects scope condition r).Follows := by
  cases condition with
  | none => exact Log.follows_pure true
  | some e => exact Log.follows_within _ _

theorem updateRecords_follows (s : Update) (ctx : Context) (d : TypeDef)
    (targets : List (Field × Expr)) (records : List Record) :
    (s.updateRecords ctx d targets records).Follows := by
  induction records with
  | nil => exact Exec.follows_pure []
  | cons r rest ih =>
    rw [updateRecords]
    refine (Exec.follows_log (selects_follows ctx.scope s.filter r)).bind fun selected => ?_
    split
    · refine (changes_follows ctx r targets []).bind fun found => ?_
      split
      · exact ih
      · refine (Exec.follows_attempt _).bind fun updated => ?_
        exact ih.bind fun more => Exec.follows_pure _
    · exact ih

end Update

/-! ### Statements -/

/-- A statement that is given up after it has reported an error. -/
theorem Result.follows_rejected (e : ValidationError) :
    Exec.Follows ((·.rows) <$> (do Exec.log (Log.report e); return Result.rejected)) := by
  rw [map_bind]
  exact (Exec.follows_log (Log.follows_report e)).bind fun _ => Exec.follows_pure []

theorem Result.follows_finish (rows : List Json) : ((·.rows) <$> Result.finish rows).Follows :=
  fun w => ⟨.ok rows, w, [], fun errors => ⟨errors, rfl, fun _ => ⟨[], rfl, fun _ _ => rfl⟩⟩⟩

/-- In each world, a statement yields the same rows and failures whatever errors it finds, and the
same events happen to these. -/
theorem Statement.follows (s : Statement) (ctx : Context) :
    ((·.rows) <$> s.execute ctx).Follows := by
  cases s with
  | select q =>
    rw [execute, Select.execute, map_bind]
    refine (q.executeEntries_follows ctx).bind fun found => ?_
    cases found with
    | none => exact Exec.follows_pure []
    | some rows => exact Result.follows_finish _
  | insert q =>
    rw [execute, Insert.execute]
    split
    · exact Result.follows_rejected _
    · rename_i d _
      rw [map_bind]
      refine (q.valueRows_follows ctx).bind fun values => ?_
      rw [map_bind]
      refine (q.stageRows_follows ctx d values 0).bind fun records => ?_
      rw [map_bind]
      have returned := returningRows_follows ctx.scope "insert.returning" q.returning records
      exact (Exec.follows_log returned).bind fun rows => Result.follows_finish rows
  | update q =>
    rw [execute, Update.execute]
    split
    · exact Result.follows_rejected _
    · rename_i d _
      rw [map_bind]
      refine (Exec.follows_log (Update.targets_follows d q.assignments)).bind fun targets => ?_
      rw [map_bind]
      refine (scanTable_follows ctx d.name "update.where").bind fun records => ?_
      rw [map_bind]
      refine (q.updateRecords_follows ctx d targets records).bind fun updated => ?_
      rw [map_bind]
      have returned := returningRows_follows ctx.scope "update.returning" q.returning updated
      exact (Exec.follows_log returned).bind fun rows => Result.follows_finish rows

/-- What happens to the errors of a statement in a world is one sequence of events, whatever errors
have been found before. A statement that is not stopped leaves no clause open, and it may be
committed exactly if there is no error at its end. -/
theorem Statement.exists_events (s : Statement) (ctx : Context) (w : World) :
    ∃ events, ∀ errors, ∃ reply after,
      w.run (s.execute ctx errors) = ((reply, (Ledger.run ⟨errors, []⟩ events).errors), after) ∧
        ∀ result, reply = .ok result → (Ledger.run ⟨errors, []⟩ events).marks = [] ∧
          (result.canCommit = true ↔ (Ledger.run ⟨errors, []⟩ events).errors = []) := by
  obtain ⟨rows, after, events, each⟩ := s.follows ctx w
  refine ⟨events, fun errors => ?_⟩
  obtain ⟨later, ran, happened⟩ := each errors
  obtain ⟨opened, same, closed⟩ := happened []
  rw [Exec.run_map] at ran
  have serves := (s.execute_serves ctx errors).run w
  rcases executed : w.run (s.execute ctx errors) with ⟨⟨reply, found⟩, world⟩
  rw [executed] at ran serves
  obtain rfl : found = later := congrArg (·.1.2) ran
  refine ⟨reply, world, by rw [same], fun result yields => ?_⟩
  have finished : rows = .ok result.rows := by
    have replied : reply.map (·.rows) = rows := congrArg (·.1.1) ran
    rw [← replied, yields]
    rfl
  rw [same, closed _ finished]
  exact ⟨rfl, serves.2 result yields⟩

/-- Moving errors into a clause leaves those in front of the mark as they are; it moves those behind
it, in their order, without those that say what an error in front of them says; each of them is
still said, and a list with an error does not become empty. In any sequence of reports and clauses,
the end of a clause leaves what is in front of its mark as it was at its beginning, and once there
is an error there always is one. Each statement does such a sequence in each world; unless a failure
stops it, all its clauses end, and its result may not be committed if there has been an error at any
time. -/
theorem scopeErrors_relocates :
    (∀ (mark : Nat) (clause : String) (errors : List ValidationError),
      (scopeErrors mark clause errors).take (min mark errors.length) =
          errors.take (min mark errors.length) ∧
        scopeErrors mark clause errors =
          errors.take mark ++ unsaid (errors.take mark) ((errors.drop mark).map fun e =>
            { e with path := if e.path = "" then clause else clause ++ "." ++ e.path }) ∧
        (∀ e ∈ errors.drop mark, ∃ kept ∈ scopeErrors mark clause errors,
          e.within clause = kept ∨ (e.within clause == kept) = true) ∧
        (errors ≠ [] → scopeErrors mark clause errors ≠ [])) ∧
      (∀ (errors : List ValidationError) (before after : List ErrorEvent),
        let l := Ledger.run ⟨errors, []⟩ before
        errors <+: l.errors ∧ (∀ start ∈ l.marks, start <+: l.errors) ∧
          (∀ start outer clause, l.marks = start :: outer →
            l.errors.take start.length = start ∧
              (l.step (.leave clause)).errors.take start.length = start) ∧
          (l.errors ≠ [] → (l.run after).errors ≠ [])) ∧
      ∀ (s : Statement) (ctx : Context) (w : World), ∃ events, ∀ errors, ∃ reply world,
        w.run (s.execute ctx errors) =
            ((reply, (Ledger.run ⟨errors, []⟩ events).errors), world) ∧
          ∀ result, reply = .ok result → (Ledger.run ⟨errors, []⟩ events).marks = [] ∧
            ∀ before after, events = before ++ after →
              (Ledger.run ⟨errors, []⟩ before).errors ≠ [] → result.canCommit = false := by
  refine ⟨fun mark clause errors => ⟨?_, ?_, ?_, ?_⟩, fun errors before after => ?_,
    fun s ctx w => ?_⟩
  · have front := List.prefix_iff_eq_take.mp (take_prefix_scopeErrors mark clause errors)
    rw [List.length_take] at front
    rw [← front]
    exact List.take_eq_take_min
  · rw [scopeErrors_eq_unsaid]
    exact congrArg (_ ++ unsaid _ ·) (List.map_congr_left fun e _ => e.within_eq clause)
  · exact fun e => said_by_scopeErrors mark clause errors
  · exact scopeErrors_ne_nil mark clause
  · have sound := (Ledger.sound_start errors).run before
    refine ⟨sound.kept errors (List.mem_append_right _ (List.mem_singleton.mpr rfl)), ?_, ?_, ?_⟩
    · exact fun start opened => sound.kept start (List.mem_append_left _ opened)
    · exact fun start outer clause opened => sound.take_leave opened clause
    · exact Ledger.run_ne_nil after
  · obtain ⟨events, each⟩ := s.exists_events ctx w
    refine ⟨events, fun errors => ?_⟩
    obtain ⟨reply, world, ran, finished⟩ := each errors
    refine ⟨reply, world, ran, fun result yields => ?_⟩
    obtain ⟨closed, clean⟩ := finished result yields
    refine ⟨closed, ?_⟩
    rintro before after rfl found
    rw [Ledger.run_append] at clean
    exact Bool.eq_false_iff.mpr fun may => Ledger.run_ne_nil after found (clean.mp may)

/-- An error of a condition is said inside its clause, so the list of errors does not become
empty. -/
theorem scopeErrors_relocates_condition :
    let errors : List ValidationError :=
      [{ path := "select.from", message := "long" }, { path := "users.age", message := "missing" }]
    errors ≠ [] ∧ scopeErrors 1 "select.where" errors ≠ [] :=
  ⟨List.cons_ne_nil _ _, (scopeErrors_relocates.1 1 "select.where" _).2.2.2 (List.cons_ne_nil _ _)⟩

end RecordQuery
