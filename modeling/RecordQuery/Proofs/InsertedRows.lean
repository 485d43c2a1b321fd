import RecordQuery.Proofs.AddedErrors
import RecordQuery.Proofs.Aliasing
import RecordQuery.Proofs.Headers
import RecordQuery.Proofs.References
import RecordQuery.Proofs.StageEnds
import Mathlib.Data.List.Induction

/-!
Rows that are inserted, and what queries read of them. A row of values makes a record of the columns
that are accepted (`Insert.newRecord`), in the world that the rows before it lead to
(`Insert.Staged`). The record has an identifier which the stage does not see, so it stays the only
one under it (`Store.Sole`), for the stage and after the commit for everybody, and a query by an
identifier yields just the rows of the records under it (`Select.run_byId`). The main statement is
`Insert.inserted_row_selected`.
-/
namespace RecordQuery

open Calendar (Instant)

/-! ### Dictionaries of entries -/

namespace Dict
variable {α : Type}

/-- A dictionary of entries holds the last value of each key. -/
theorem get?_ofEntries (entries : List (String × α)) (key : String) :
    get? (ofEntries entries) key = (entries.filter (·.1 == key)).getLast?.map Prod.snd := by
  induction entries using List.reverseRecOn with
  | nil => rfl
  | append_singleton before entry ih =>
    rw [ofEntries_concat, List.filter_append]
    by_cases same : entry.1 = key
    · rw [same, get?_insert_self]
      simp [same]
    · rw [get?_insert_of_ne _ _ (Ne.symm same), ih]
      simp [same]

end Dict

/-! ### Queries by identifier -/

theorem Text.lower_star : lower "*" = "*" := by decide +kernel

theorem Text.lower_id : lower "id" = "id" := by decide +kernel

namespace Record

theorem distinct_toRow (r : Record) : (Dict.keys r.toRow).Nodup :=
  Dict.nodup_keys_insertAll (by simp [Dict.keys])

end Record

namespace Select

/-- The query for the whole rows of a table that have an identifier. -/
def byId (table id : String) : Select where
  projections := [⟨.ref table "*", none⟩]
  base := .ofTable table
  filter := some (.comparison .eq (.ref table "id") (.literal (.str id)))

section
variable {scope : Scope} {d : TypeDef} {table : String} (alone : scope.aliases = [])
  (resolves : scope.resolve? (Text.lower table) = some d)

include alone resolves

theorem passes_byId (id : String) (r : Record) :
    (Expr.comparison .eq (.ref table "id") (.literal (.str id))).passes scope (some r) none =
      ⟨r.id == id, []⟩ := by
  have read : (Expr.ref table "id").eval scope (some r) none =
      ⟨⟨.str r.id, some ⟨d.name, none⟩⟩, []⟩ := by
    rw [Expr.ref, Expr.eval, Expr.evalColumn_plain alone resolves, Text.lower_id]
    rfl
  have compared := Field.evalComparison_text scope (show (Json.str r.id).isNull = false from rfl) id
  rw [if_pos (show (Json.str r.id).kind = .string from rfl)] at compared
  have evaluated : (Expr.comparison .eq (.ref table "id") (.literal (.str id))).eval scope (some r)
      none = ⟨.bool (r.id == id), []⟩ := by
    rw [Expr.eval, read, Expr.eval]
    exact congrArg (Value.bool <$> ·) compared
  rw [Expr.passes, evaluated]
  cases r.id == id <;> rfl

theorem eval_star (r : Record) :
    (Expr.ref table "*").eval scope (some r) none = ⟨⟨.obj r.toRow, some ⟨d.name, none⟩⟩, []⟩ := by
  rw [Expr.ref, Expr.eval, Expr.evalColumn_plain alone resolves, Text.lower_star]
  rfl

theorem entriesOf_byId (id : String) (rows : List Record) :
    (byId table id).entriesOf scope rows = (Table.under rows id).map Record.toRow := by
  have kept : (byId table id).kept scope rows = Table.under rows id :=
    List.filter_congr fun r _ => by rw [passes_byId alone resolves]
  have row (r : Record) : ((byId table id).computed scope (some r) none).entries = r.toRow := by
    have whole : (⟨.ref table "*", none⟩ : Projection).isWildcard = true := by
      rw [Projection.isWildcard, Expr.ref, Text.lower_star]
      rfl
    change [(⟨.ref table "*", none⟩ : Projection)].flatMap (fun p =>
      p.columns (p.expr.eval scope (some r) none).value.raw) = _
    rw [List.flatMap_singleton, eval_star alone resolves, Projection.columns, if_pos whole]
  have outputs (rows : List Record) : (byId table id).outputs scope rows =
      rows.map fun r => (byId table id).computed scope (some r) none := rfl
  rw [entriesOf, kept, outputs, show (byId table id).orderBy = [] from rfl, sortRows_nil]
  change ((Table.under rows id).map _).map _ = _
  rw [List.map_map]
  exact List.map_congr_left fun r _ => row r

theorem answer_byId_adds (id : String) (rows : List Record) :
    ((byId table id).answer scope rows).Adds fun _ => False := by
  have kept : (filterRows scope (byId table id).filter rows).Adds fun _ => False :=
    Log.Adds.filterM fun r _ => Log.adds_within <| by
      rw [passes_byId alone resolves]
      exact List.forall_mem_nil _
  have one (r : Record) :
      ((byId table id).outputRow scope (some r) none).Adds fun _ => False := by
    have whole : (projectOne scope (some r) none (itemPath "select.projections" 0)
        ⟨.ref table "*", none⟩).Adds fun _ => False := by
      refine (Log.adds_within ?_).bind fun _ => Log.adds_pure _
      rw [eval_star alone resolves]
      exact List.forall_mem_nil _
    exact (whole.bind fun _ => Log.adds_pure _).bind fun _ => Log.adds_pure _
  exact kept.bind fun rows => (Log.Adds.mapM fun r _ => one r).bind fun _ => Log.adds_pure _

end

section
variable {ctx : Context} {w : World} {d : TypeDef} {table : String}
  (typed : ctx.schema.get? table = some d) (readable : .scan ∉ w.faults)
  (fits : (w.store.scan (some ctx.stage) table none).length ≤ ctx.limits.maxScanRows)

include typed readable fits

/-- A query by an identifier yields the rows of the records under it, and no error. -/
theorem run_byId (id : String) (errors : List ValidationError) :
    w.run ((byId table id).execute ctx errors) =
      ((.ok ⟨(Table.under (w.store.scan (some ctx.stage) table none) id).map fun r => .obj r.toRow,
        errors.isEmpty⟩, errors), w) := by
  have known : ctx.schema.get? (byId table id).base.table = some d :=
    (Schema.get?_congr (Text.lower_lower table) ctx.schema).trans typed
  have scanned : w.store.scan (some ctx.stage) d.name none =
      w.store.scan (some ctx.stage) table none := by
    rw [Schema.name_of_get? typed, Store.scan_lower]
  have single : (byId table id).joins = [] := rfl
  have inner : ({ ctx with aliases := [] } : Context).schema.get? (byId table id).base.table =
      some d := known
  have loaded := run_loadRows_sole (w := w) single inner errors
  rw [if_neg (mt List.contains_iff_mem.mp readable), scanErrors, scanned,
    if_neg (Nat.not_lt.mpr fits), List.take_of_length_le fits] at loaded
  have resolves : ({ ctx with aliases := [] } : Context).scope.resolve? (Text.lower table) =
      some d := known
  have answered := run_executeEntries loaded
  rw [soleRows_unnamed rfl, entriesOf_byId rfl resolves,
    (answer_byId_adds rfl resolves id _).errors_eq] at answered
  have rows : ((Table.under (w.store.scan (some ctx.stage) table none) id).map Record.toRow).map
      Entries.toRow =
        (Table.under (w.store.scan (some ctx.stage) table none) id).map fun r => .obj r.toRow := by
    rw [List.map_map]
    exact List.map_congr_left fun r _ =>
      congrArg Json.obj (Dict.ofEntries_of_nodup r.distinct_toRow)
  rw [execute, Exec.run_bind answered]
  dsimp only
  rw [rows]
  rfl

end

end Select

/-! ### Records that a stage has added -/

namespace Store

/-- A stage has one record under the identifier of a record, which is this one, and no committed
record of the table is under it. -/
structure Sole (stage : StageId) (name : String) (r : Record) (store : Store) : Prop where
  committed : (store.table name).under r.id = []
  staged : (store.staged (some stage) name).under r.id = [r]

section
variable {store : Store} {stage : StageId} {name : String} {r : Record}

/-- A record with an identifier that the stage does not see is the only one under it. -/
theorem sole_write (new : store.lookup? (some stage) name r.id = none) :
    (store.write stage name r).Sole stage name r := by
  rw [lookup?] at new
  cases own : (store.staged (some stage) name).find? r.id with
  | some version => rw [own] at new; cases new
  | none =>
    rw [own] at new
    refine ⟨(Table.under_eq_nil_iff _ _).mpr new, ?_⟩
    rw [staged_write_self, Table.under_upsert, if_pos rfl, (Table.under_eq_nil_iff _ _).mpr own]
    rfl

theorem Sole.lookup? (sole : store.Sole stage name r) :
    store.lookup? (some stage) name r.id = some r := by
  have found : (store.staged (some stage) name).find? r.id = some r := by
    rw [← Table.find?_under, sole.staged, Table.find?, Table.find?, if_pos rfl]
  rw [Store.lookup?, found]

/-- More new records leave it so. -/
theorem Sole.write (sole : store.Sole stage name r) {other : Record}
    (new : store.lookup? (some stage) name other.id = none) :
    (store.write stage name other).Sole stage name r := by
  have apart : other.id ≠ r.id := by
    intro same
    rw [same, sole.lookup?] at new
    cases new
  refine ⟨sole.committed, ?_⟩
  rw [staged_write_self, Table.under_upsert, if_neg apart, sole.staged]

/-- The stage sees this record alone under its identifier. -/
theorem Sole.records (sole : store.Sole stage name r) :
    Table.under (store.records (some stage) name) r.id = [r] := by
  rw [Store.records, Table.under_overlaid, sole.committed, sole.staged]
  rfl

/-- Once the stage is committed, everybody does. -/
theorem Sole.commit (sole : store.Sole stage name r)
    (names : (Dict.keys (store.stage stage).tables).Nodup) :
    Table.under ((store.commit stage).2.records none name) r.id = [r] := by
  rw [records_none, table_commit names, Table.under_upsertAll, sole.committed, sole.staged]
  rfl

end

/-- A stage has one table of each name, and one of them lists each identifier once. -/
structure Orderly (stage : StageId) (name : String) (store : Store) : Prop where
  names : (Dict.keys (store.stage stage).tables).Nodup
  distinct : Table.Distinct (store.staged (some stage) name)

section
variable {store : Store} {stage : StageId} {name table : String}

theorem orderly_of_empty (empty : store.stage stage = {}) : store.Orderly stage name := by
  constructor
  · rw [empty]; exact List.nodup_nil
  · rw [staged, empty]; exact Table.distinct_nil

theorem Orderly.write (orderly : store.Orderly stage name) (r : Record) :
    (store.write stage name r).Orderly stage name where
  names := nodup_names_write orderly.names stage name r
  distinct := by
    rw [staged_write_self]
    exact Table.distinct_upsert orderly.distinct r

/-- The commit leaves as many records in a table as the stage has seen there. -/
theorem Orderly.length_scan_commit (orderly : store.Orderly stage (Text.lower table)) :
    ((store.commit stage).2.scan none table none).length =
      (store.scan (some stage) table none).length := by
  change ((store.commit stage).2.records none (Text.lower table)).length = _
  rw [records_none, table_commit orderly.names, Table.length_upsertAll orderly.distinct]
  rfl

end

/-- A new stage shows the committed records. -/
theorem scan_openStage {store : Store} (opened : store.StagesOpened) (table : String)
    (limit : Option Nat) :
    store.openStage.2.scan (some store.openStage.1) table limit = store.scan none table limit := by
  have empty : store.openStage.2.stage store.openStage.1 = {} :=
    stage_of_absent (opened.absent (Nat.lt_succ_self store.opened))
  have shown : store.openStage.2.records (some store.openStage.1) (Text.lower table) =
      store.records none (Text.lower table) := by
    rw [records, staged, empty]
    rfl
  simp only [scan, shown]

end Store

/-! ### What an insertion stages -/

namespace Insert

/-- The entry that a value makes in a new record, if it makes one: its column is declared in any
case of letters, the store does not maintain it, and it accepts the value as things are. -/
def accepted? (ctx : Context) (d : TypeDef) (w : World) (entry : String × Json) :
    Option (String × Json) :=
  ((d.field? entry.1).filter fun field =>
    !isSystemColumn field.name && (w.run (field.refusal? ctx.stage entry.2)).1.isNone).map
      fun field => (field.name, entry.2)

/-- The entries that a row of values makes in a new record. -/
def acceptedEntries (ctx : Context) (d : TypeDef) (w : World) (columns : List String)
    (values : List Json) : List (String × Json) :=
  (columns.zip values).filterMap (accepted? ctx d w)

/-- The record that a row of values makes: it has the next identifier and the entries that are
accepted. -/
def newRecord (ctx : Context) (d : TypeDef) (w : World) (columns : List String)
    (values : List Json) : Record :=
  .create w.now (w.ids w.issued) (Dict.ofEntries (acceptedEntries ctx d w columns values))

theorem user_of_mem_acceptedEntries {ctx : Context} {d : TypeDef} {w : World}
    {columns : List String} {values : List Json} :
    ∀ name ∈ Dict.keys (acceptedEntries ctx d w columns values), isSystemColumn name = false := by
  intro name listed
  obtain ⟨entry, accepted, rfl⟩ := List.mem_map.mp listed
  obtain ⟨pair, -, made⟩ := List.mem_filterMap.mp accepted
  obtain ⟨field, found, rfl⟩ := Option.map_eq_some_iff.mp made
  have allowed := (Option.filter_eq_some_iff.mp found).2
  rw [Bool.and_eq_true, Bool.not_eq_true'] at allowed
  exact allowed.1

/-- The row of a new record: the columns of the store, then the accepted ones. -/
theorem toRow_newRecord (ctx : Context) (d : TypeDef) (w : World) (columns : List String)
    (values : List Json) :
    (newRecord ctx d w columns values).toRow =
      [("id", .str (w.ids w.issued)), ("created", .str w.now.rowText),
        ("updated", .str w.now.rowText)] ++
      Dict.ofEntries (acceptedEntries ctx d w columns values) := by
  have user : ∀ name ∈ Dict.keys (Dict.ofEntries (acceptedEntries ctx d w columns values)),
      isSystemColumn name = false := fun name listed =>
    user_of_mem_acceptedEntries name (Dict.mem_keys_ofEntries.mp listed)
  have fields : (newRecord ctx d w columns values).fields =
      Dict.ofEntries (acceptedEntries ctx d w columns values) := Record.stripSystem_eq user
  have plain : (newRecord ctx d w columns values).Plain := by
    refine ⟨?_, ?_⟩
    · rw [fields]
      exact Dict.nodup_keys_ofEntries _
    · rw [fields]
      exact user
  rw [plain.toRow_eq, fields]
  rfl

/-! ### Checking the values of a row -/

/-- The error of a value that makes no entry in a new record. -/
def misfit? (ctx : Context) (d : TypeDef) (path : String) (w : World) (entry : String × Json) :
    Option ValidationError :=
  let column := Text.lower entry.1
  let path := path ++ "." ++ column
  if isSystemColumn column then some (systemColumnError column path)
  else
    match d.field? entry.1 with
    | none => some (unknownColumn d column path)
    | some field =>
      (w.run (field.refusal? ctx.stage entry.2)).1.map fun reason =>
        (reason.error field).atPath path

/-- The check of a value reads from the store and changes nothing. -/
theorem run_refusal? (w : World) (field : Field) (stage : StageId) (value : Json) :
    (w.run (field.refusal? stage value)).2 = w := by
  rw [Field.refusal?]
  cases field.check value with
  | accepted | refused => rfl
  | refersTo target id =>
    dsimp only
    rw [World.run_bind, World.run_ask]
    rcases w.answer_get (some stage) target id with out | out
    · rw [out]; rfl
    · rw [out]
      cases w.store.get? (some stage) target id <;> rfl

theorem run_script_refusal? (w : World) (field : Field) (stage : StageId) (value : Json)
    (errors : List ValidationError) :
    w.run (Exec.script (field.refusal? stage value) errors) =
      ((.ok (w.run (field.refusal? stage value)).1, errors), w) := by
  refine (w.run_bind (field.refusal? stage value) _).trans ?_
  rw [run_refusal?]
  rfl

section
variable (ctx : Context) (d : TypeDef) (path : String) (w : World)

/-- A value that is accepted is added to the fields, and another one adds its error. -/
theorem run_stageColumn (fields : Dict Json) (entry : String × Json)
    (errors : List ValidationError) :
    w.run (stageColumn ctx d path fields entry.1 entry.2 errors) =
      ((.ok (Dict.insertAll fields (accepted? ctx d w entry).toList),
        errors ++ (misfit? ctx d path w entry).toList), w) := by
  obtain ⟨column, value⟩ := entry
  have lower : d.field? (Text.lower column) = d.field? column := by
    rw [TypeDef.field?, TypeDef.field?, Text.lower_lower]
  rw [stageColumn, accepted?, misfit?]
  dsimp only
  by_cases system : isSystemColumn (Text.lower column) = true
  · have none : (d.field? column).filter (fun field => !isSystemColumn field.name &&
        (w.run (field.refusal? ctx.stage value)).1.isNone) = none := by
      refine Option.filter_eq_none_iff.mpr fun field found => ?_
      rw [TypeDef.name_of_field? found, system]
      exact Bool.false_ne_true
    rw [if_pos system, if_pos system, none]
    rfl
  · rw [if_neg system, if_neg system, lower]
    cases found : d.field? column with
    | none => rfl
    | some field =>
      have named := TypeDef.name_of_field? found
      rw [Exec.run_bind (run_script_refusal? w field ctx.stage value errors), Option.filter_some,
        named, Bool.eq_false_iff.mpr system]
      dsimp only
      cases (w.run (field.refusal? ctx.stage value)).1 with
      | none => rw [Option.map_none, Option.toList_none, List.append_nil, ← named]; rfl
      | some reason => rfl

theorem run_stageColumns (pairs : List (String × Json)) : ∀ (fields : Dict Json)
    (errors : List ValidationError),
      w.run (stageColumns ctx d path fields pairs errors) =
        ((.ok (Dict.insertAll fields (pairs.filterMap (accepted? ctx d w))),
          errors ++ pairs.filterMap (misfit? ctx d path w)), w) := by
  induction pairs with
  | nil => intro fields errors; rw [List.filterMap_nil, List.filterMap_nil, List.append_nil]; rfl
  | cons pair rest ih =>
    intro fields errors
    obtain ⟨column, value⟩ := pair
    rw [stageColumns, Exec.run_bind (run_stageColumn ctx d path w fields (column, value) errors), ih,
      List.append_assoc, List.filterMap_cons, List.filterMap_cons]
    cases accepted? ctx d w (column, value) <;> cases misfit? ctx d path w (column, value) <;>
      simp [Dict.insertAll]

/-- A row makes the entries of the values that are accepted; what is reported are the other values
and the required fields that are not among the columns. -/
theorem run_stageRow (s : Insert) (values : List Json) (errors : List ValidationError) :
    w.run (s.stageRow ctx d path values errors) =
      ((.ok (Dict.ofEntries (acceptedEntries ctx d w s.columns values)),
        errors ++ (s.columns.zip values).filterMap (misfit? ctx d path w) ++
          missingFields d path ((s.columns.zip values).map (·.1))), w) := by
  rw [stageRow, Exec.run_bind (run_stageColumns ctx d path w (s.columns.zip values) [] errors),
    Exec.run_bind (Exec.run_log w _ _), Log.run_forM_report]
  rfl

theorem exists_run_stageRow (s : Insert) (values : List Json) (errors : List ValidationError) :
    ∃ later, w.run (s.stageRow ctx d path values errors) =
      ((.ok (Dict.ofEntries (acceptedEntries ctx d w s.columns values)), later), w) :=
  ⟨_, run_stageRow ctx d path w s values errors⟩

end

/-! ### Staging rows -/

/-- The world in which a record has been staged under a new identifier. -/
def added (w : World) (stage : StageId) (name : String) (r : Record) : World :=
  { w with store := w.store.write stage name r, issued := w.issued + 1 }

/-- Staging rows leads from one world to another: rows that were reported for their number of values
are skipped, and each other row adds a new record, under an identifier that is not taken. -/
inductive Staged (ctx : Context) (d : TypeDef) (columns : List String) :
    World → List (Option (List Json)) → World → Prop
  | nil (w : World) : Staged ctx d columns w [] w
  | skip {w after : World} {rows : List (Option (List Json))}
      (later : Staged ctx d columns w rows after) : Staged ctx d columns w (none :: rows) after
  | row {w after : World} {values : List Json} {rows : List (Option (List Json))}
      (works : .insert ∉ w.faults)
      (new : w.store.lookup? (some ctx.stage) (Text.lower d.name)
        (newRecord ctx d w columns values).id = none)
      (later : Staged ctx d columns
        (added w ctx.stage (Text.lower d.name) (newRecord ctx d w columns values)) rows after) :
      Staged ctx d columns w (some values :: rows) after

theorem answer_insert_iff {w after : World} {stage : StageId} {table id : String}
    {fields : Dict Json} {r : Record} :
    w.answer (.insert stage table id fields) = (.ok r, after) ↔
      .insert ∉ w.faults ∧ w.store.lookup? (some stage) (Text.lower table) id = none ∧
        r = .create w.now id fields ∧
        after = { w with store := w.store.write stage (Text.lower table) r } := by
  by_cases fault : .insert ∈ w.faults
  · have failed : w.answer (.insert stage table id fields) = (.error (World.outage .insert), w) :=
      World.attempt_of_mem (fun store => store.insert w.now stage table id fields) fault
    simp [failed, fault]
  · have answered : w.answer (.insert stage table id fields) =
        ((w.store.insert w.now stage table id fields).1,
          { w with store := (w.store.insert w.now stage table id fields).2 }) :=
      World.attempt_of_not_mem (fun store => store.insert w.now stage table id fields) fault
    rw [answered]
    rcases found : w.store.lookup? (some stage) (Text.lower table) id with _ | old
    · have written : w.store.insert w.now stage table id fields =
          (.ok (.create w.now id fields),
            w.store.write stage (Text.lower table) (.create w.now id fields)) := by
        simp only [Store.insert, found]
      rw [written]
      constructor
      · intro same
        cases same
        exact ⟨fault, rfl, rfl, rfl⟩
      · rintro ⟨-, -, rfl, rfl⟩
        rfl
    · simp [Store.insert, found]

section
variable {s : Insert} {ctx : Context} {d : TypeDef}

theorem staged_of_run (rows : List (Option (List Json))) :
    ∀ {index : Nat} {w after : World} {errors later : List ValidationError} {records : List Record},
      w.run (s.stageRows ctx d index rows errors) = ((.ok records, later), after) →
        Staged ctx d s.columns w rows after := by
  induction rows with
  | nil =>
    intro index w after errors later records ran
    cases ran
    exact .nil w
  | cons row rest ih =>
    intro index w after errors later records ran
    cases row with
    | none => exact .skip (ih ran)
    | some values =>
      obtain ⟨found, checked⟩ := exists_run_stageRow ctx d (rowPath index) w s values errors
      have issued : w.run (Exec.script (Script.ask .newId) found) =
          ((.ok (w.ids w.issued), found), { w with issued := w.issued + 1 }) := rfl
      rw [stageRows, Exec.run_bind checked, Exec.run_bind issued] at ran
      obtain ⟨r, between, mid, asked, ran⟩ := Exec.run_bind_inv ran
      rw [Exec.run_attempt, World.run_ask] at asked
      obtain ⟨reply, same⟩ := Prod.mk.inj asked
      obtain ⟨works, new, rfl, rfl⟩ :=
        answer_insert_iff.mp (Prod.ext (Prod.mk.inj reply).1 same)
      obtain ⟨more, last, final, staged, finished⟩ := Exec.run_bind_inv ran
      cases finished
      exact .row works new (ih staged)

theorem Staged.run {w after : World} {rows : List (Option (List Json))}
    (staged : Staged ctx d s.columns w rows after) :
    ∀ (index : Nat) (errors : List ValidationError), ∃ records later,
      w.run (s.stageRows ctx d index rows errors) = ((.ok records, later), after) := by
  induction staged with
  | nil w => intro index errors; exact ⟨[], errors, rfl⟩
  | skip _ ih => intro index errors; exact ih (index + 1) errors
  | @row w after values rows works new _ ih =>
    intro index errors
    obtain ⟨found, checked⟩ := exists_run_stageRow ctx d (rowPath index) w s values errors
    have issued : w.run (Exec.script (Script.ask .newId) found) =
        ((.ok (w.ids w.issued), found), { w with issued := w.issued + 1 }) := rfl
    have replied : ({ w with issued := w.issued + 1 } : World).answer
        (.insert ctx.stage d.name (w.ids w.issued)
          (Dict.ofEntries (acceptedEntries ctx d w s.columns values))) =
            (.ok (newRecord ctx d w s.columns values),
              added w ctx.stage (Text.lower d.name) (newRecord ctx d w s.columns values)) :=
      answer_insert_iff.mpr ⟨works, new, rfl, rfl⟩
    have inserted := Exec.run_attempt { w with issued := w.issued + 1 }
      (Script.ask (.insert ctx.stage d.name (w.ids w.issued)
        (Dict.ofEntries (acceptedEntries ctx d w s.columns values)))) found
    rw [World.run_ask, replied] at inserted
    obtain ⟨records, later, ran⟩ := ih (index + 1) found
    refine ⟨newRecord ctx d w s.columns values :: records, later, ?_⟩
    rw [stageRows, Exec.run_bind checked, Exec.run_bind issued, Exec.run_bind inserted,
      Exec.run_bind ran]
    rfl

end

section
variable {ctx : Context} {d : TypeDef} {columns : List String}

theorem Staged.split {first rest : List (Option (List Json))} :
    ∀ {w after : World}, Staged ctx d columns w (first ++ rest) after →
      ∃ mid, Staged ctx d columns w first mid ∧ Staged ctx d columns mid rest after := by
  induction first with
  | nil => exact fun staged => ⟨_, .nil _, staged⟩
  | cons row first ih =>
    intro w after staged
    cases staged with
    | skip later =>
      obtain ⟨mid, before, behind⟩ := ih later
      exact ⟨mid, .skip before, behind⟩
    | row works new later =>
      obtain ⟨mid, before, behind⟩ := ih later
      exact ⟨mid, .row works new before, behind⟩

/-- What the addition of one new record preserves, staging rows preserves. -/
theorem Staged.preserves {w after : World} {rows : List (Option (List Json))}
    (staged : Staged ctx d columns w rows after) {Holds : Store → Prop}
    (step : ∀ (store : Store) (r : Record),
      store.lookup? (some ctx.stage) (Text.lower d.name) r.id = none → Holds store →
        Holds (store.write ctx.stage (Text.lower d.name) r))
    (start : Holds w.store) : Holds after.store := by
  induction staged with
  | nil => exact start
  | skip _ ih => exact ih start
  | row _ new _ ih => exact ih (step _ _ new start)

/-- The record of a row is staged in the world that the rows before it lead to, and in the end it is
the only one under its identifier. -/
theorem Staged.record {w after : World} {first rest : List (Option (List Json))}
    {values : List Json} (staged : Staged ctx d columns w (first ++ some values :: rest) after) :
    ∃ mid, Staged ctx d columns w first mid ∧
      after.store.Sole ctx.stage (Text.lower d.name) (newRecord ctx d mid columns values) := by
  obtain ⟨mid, before, behind⟩ := staged.split
  cases behind with
  | row _ new later =>
    exact ⟨mid, before, later.preserves (fun _ _ new sole => sole.write new) (Store.sole_write new)⟩

end

/-! ### Executing insertions of values -/

/-- The values of rows of expressions, as far as there is one for each column. -/
def rowValues (scope : Scope) (expected : Nat) (rows : List (List Expr)) :
    List (Option (List Json)) :=
  rows.map fun row =>
    if row.length = expected then some (Expr.evalAll scope none none row).value else none

section
variable {s : Insert} {ctx : Context} {d : TypeDef} {rows : List (List Expr)}
  (given : s.source = .values rows) (typed : ctx.schema.get? s.table = some d)

include given typed

theorem run_execute_values (w : World) (errors : List ValidationError) :
    ∃ found, w.run (s.execute ctx errors) =
      w.run ((do
        let records ← s.stageRows ctx d 0 (rowValues ctx.scope s.columns.length rows)
        Result.finish (← Exec.log
          (returningRows ctx.scope "insert.returning" s.returning records))) found) := by
  refine ⟨((literalRows ctx.scope s.columns.length 0 rows).run errors).2, ?_⟩
  have evaluated : w.run (s.valueRows ctx errors) =
      ((.ok (rowValues ctx.scope s.columns.length rows),
        ((literalRows ctx.scope s.columns.length 0 rows).run errors).2), w) := by
    rw [valueRows, given, rowValues, ← literalRows_yields ctx.scope _ rows 0 errors]
    rfl
  rw [execute, typed]
  exact Exec.run_bind evaluated _

theorem staged_of_execute {w after : World} {errors later : List ValidationError}
    {result : Result} (ran : w.run (s.execute ctx errors) = ((.ok result, later), after)) :
    Staged ctx d s.columns w (rowValues ctx.scope s.columns.length rows) after := by
  obtain ⟨found, same⟩ := run_execute_values given typed w errors
  rw [same] at ran
  obtain ⟨records, mid, between, staged, ended⟩ := Exec.run_bind_inv ran
  cases ended
  exact staged_of_run _ staged

theorem Staged.run_execute {w after : World}
    (staged : Staged ctx d s.columns w (rowValues ctx.scope s.columns.length rows) after)
    (errors : List ValidationError) : (w.run (s.execute ctx errors)).2 = after := by
  obtain ⟨found, same⟩ := run_execute_values given typed w errors
  obtain ⟨records, later, ran⟩ := staged.run 0 found
  rw [same, Exec.run_bind ran]
  rfl

end

/-- The world that a row of values is inserted in: the rows before it have been inserted. -/
def worldBefore (s : Insert) (ctx : Context) (w : World) (before : List (List Expr)) : World :=
  (w.run (({ s with source := .values before } : Insert).execute ctx [])).2

/-- The row that queries show of a new record with some entries: the columns of the store under the
next identifier, then the columns of the entries, each with its last value. -/
def shownRow (w : World) (entries : List (String × Json)) : Json :=
  .obj ([("id", .str (w.ids w.issued)), ("created", .str w.now.rowText),
    ("updated", .str w.now.rowText)] ++ Dict.ofEntries entries)

section
variable {s : Insert} {ctx : Context} {d : TypeDef} {w after : World}
  {errors later : List ValidationError} {result : Result} {rows before rest : List (List Expr)}
  {row : List Expr} (given : s.source = .values rows)
  (typed : ctx.schema.get? s.table = some d)
  (ran : w.run (s.execute ctx errors) = ((.ok result, later), after))
  (listed : rows = before ++ row :: rest) (full : row.length = s.columns.length)

include given typed ran listed full

/-- A row of values adds a record to the stage, under an identifier that no other record has. -/
theorem sole_of_execute :
    let start := s.worldBefore ctx w before
    let values := (Expr.evalAll ctx.scope none none row).value
    ∃ r : Record, r.id = start.ids start.issued ∧
      Json.obj r.toRow = shownRow start (acceptedEntries ctx d start s.columns values) ∧
      after.store.Sole ctx.stage (Text.lower s.table) r := by
  have staged := staged_of_execute given typed ran
  rw [listed, rowValues, List.map_append, List.map_cons, if_pos full] at staged
  obtain ⟨mid, first, sole⟩ := staged.record
  have same : s.worldBefore ctx w before = mid :=
    Staged.run_execute (s := { s with source := .values before }) rfl typed first []
  rw [Schema.name_of_get? typed, Text.lower_lower] at sole
  dsimp only
  rw [same]
  exact ⟨_, rfl, congrArg Json.obj (toRow_newRecord ..), sole⟩

end

end Insert

namespace Engine

section
variable {engine : Engine} {w : World} {d : TypeDef} {table : String}
  (opened : w.store.StagesOpened) (typed : engine.schema.get? table = some d)
  (readable : .scan ∉ w.faults) (commits : .commit ∉ w.faults)
  (fits : (w.store.scan none table none).length ≤ engine.limits.maxScanRows)

include opened typed readable commits fits

/-- A query by an identifier that is executed as a statement yields the committed rows. -/
theorem run_execute_byId (id : String) :
    (w.run (engine.execute (.select (Select.byId table id)))).1 =
      .ok ⟨⟨(Table.under (w.store.scan none table none) id).map fun r => .obj r.toRow, true⟩, [],
        0⟩ := by
  have shown : (begun w).store.scan (some w.store.openStage.1) table none =
      w.store.scan none table none := Store.scan_openStage opened table none
  have works : .scan ∉ (begun w).faults := readable
  have ran := Select.run_byId (w := begun w)
    (show (engine.context w.store.openStage.1).schema.get? table = some d from typed) works
    ((congrArg List.length shown).trans_le fits) id []
  rw [show (begun w).store.scan (some (engine.context w.store.openStage.1).stage) table none =
    w.store.scan none table none from shown] at ran
  have found : engine.yielded (.select (Select.byId table id)) w =
      (.ok ⟨(Table.under (w.store.scan none table none) id).map fun r => .obj r.toRow, true⟩, []) :=
    congrArg Prod.fst ran
  have finished : engine.finished (.select (Select.byId table id)) w = begun w :=
    congrArg Prod.snd ran
  have ended := World.answer_commit_of_not_mem (w := begun w) w.store.openStage.1 commits
  have count : ((begun w).store.commit w.store.openStage.1).1 = 0 :=
    congrArg Stage.writes
      (Store.stage_of_absent (opened.absent (Nat.lt_succ_self w.store.opened)))
  rw [run_execute, found, finished, conclude, if_pos rfl, World.run_bind, World.run_ask, ended,
    count]
  rfl

end

section
variable {engine : Engine} {s : Insert} {w committed : World} {outcome : Outcome}
  {later : List ValidationError} {result : Result} {after : World}
  (ran : (begun w).run (s.execute (engine.context w.store.openStage.1) []) =
    ((.ok result, later), after))
  (done : w.run (engine.execute (.insert s)) = (.ok outcome, committed))
  (kept : outcome.result.canCommit = true)

include ran done kept

/-- What an insertion that is committed leaves: the store with its stage committed, in a world whose
commits are carried out. -/
theorem committed_insert :
    committed.store = (after.store.commit w.store.openStage.1).2 ∧
      committed.faults = w.faults ∧ .commit ∉ w.faults := by
  have found : engine.yielded (.insert s) w = (.ok result, later) := congrArg Prod.fst ran
  have finished : engine.finished (.insert s) w = after := congrArg Prod.snd ran
  have faults : committed.faults = w.faults := by
    rw [← World.faults_run (engine.execute (.insert s)) w, done]
  have concluded : (after.run (conclude w.store.openStage.1 (.ok result, later))) =
      (.ok outcome, committed) := by
    rw [← found, ← finished, ← run_execute, done]
  have ends := conclude_cases after w.store.openStage.1 (.ok result, later)
  rw [concluded] at ends
  rcases ends with ⟨failure, failed, -⟩ | ⟨_, _, same, may, -, stored⟩ | ⟨_, _, -, mayNot, same, -⟩
  · cases failed
  · cases same
    refine ⟨stored, faults, fun fault => ?_⟩
    have still : .commit ∈ after.faults := by
      rw [← finished, faults_finished]
      exact fault
    have refused := run_conclude_of_refused w.store.openStage.1 (.ok result, later) still may
    rw [concluded] at refused
    cases refused
  · cases same
    rw [mayNot] at kept
    cases kept

/-- The stages that are open after the commit are those that were open before. -/
theorem stagesOpened_committed (opened : w.store.StagesOpened) : committed.store.StagesOpened := by
  obtain ⟨stored, -, -⟩ := committed_insert ran done kept
  have finished : engine.finished (.insert s) w = after := congrArg Prod.snd ran
  have absent := opened.absent (Nat.lt_succ_self w.store.opened)
  have alongside := engine.finished_alongside (.insert s) absent
  have agree := (engine.finished_framed (.insert s) w).agree
  rw [finished] at alongside agree
  have stages : committed.store.stages = w.store.stages := by
    rw [stored]
    exact alongside.dropStage absent
  have count : committed.store.opened = w.store.opened + 1 := by
    rw [stored]
    exact agree.opened
  intro entry member
  rw [stages] at member
  rw [count]
  exact Nat.le_succ_of_le (opened entry member)

end

end Engine

namespace Insert

/-- Once an insertion of values has been committed, everybody sees what its stage saw: a new record
alone under its identifier, and as many records in its table. -/
theorem shown_of_committed {engine : Engine} {s : Insert} {d : TypeDef} {w after committed : World}
    {later : List ValidationError} {result : Result} {rows : List (List Expr)}
    (given : s.source = .values rows) (typed : engine.schema.get? s.table = some d)
    (opened : w.store.StagesOpened)
    (ran : (Engine.begun w).run (s.execute (engine.context w.store.openStage.1) []) =
      ((.ok result, later), after))
    (stored : committed.store = (after.store.commit w.store.openStage.1).2) {r : Record}
    (sole : after.store.Sole w.store.openStage.1 (Text.lower s.table) r) :
    Table.under (committed.store.scan none s.table none) r.id = [r] ∧
      (committed.store.scan none s.table none).length =
        (after.store.scan (some w.store.openStage.1) s.table none).length := by
  -- The stage is new, so that all it holds has been inserted.
  have empty : (Engine.begun w).store.stage w.store.openStage.1 = {} :=
    Store.stage_of_absent (opened.absent (Nat.lt_succ_self w.store.opened))
  have orderly : after.store.Orderly w.store.openStage.1 (Text.lower s.table) := by
    rw [← Text.lower_lower s.table, ← Schema.name_of_get? typed]
    exact (staged_of_execute given typed ran).preserves (fun _ r _ orderly => orderly.write r)
      (Store.orderly_of_empty empty)
  rw [stored]
  exact ⟨sole.commit orderly.names, orderly.length_scan_commit⟩

/-- An inserted row is read back by its identifier. A query in the same context yields it alone,
with the columns of the store and with just those columns that are declared, that the store does not
maintain and that accept the value which is given to them, each with the last such value, in
whatever case of letters it is named. Once the insertion has been committed, a later statement reads
the same row, in a store of any past in which writes went to stages that had been opened. -/
theorem inserted_row_selected {s : Insert} {ctx : Context} {d : TypeDef} {w after : World}
    {errors later : List ValidationError} {result : Result} {rows before rest : List (List Expr)}
    {row : List Expr} (given : s.source = .values rows)
    (typed : ctx.schema.get? s.table = some d)
    (ran : w.run (s.execute ctx errors) = ((.ok result, later), after))
    (readable : .scan ∉ w.faults)
    (fits : (after.store.scan (some ctx.stage) s.table none).length ≤ ctx.limits.maxScanRows)
    (listed : rows = before ++ row :: rest) (full : row.length = s.columns.length) :
    let start := s.worldBefore ctx w before
    let id := start.ids start.issued
    let values := (Expr.evalAll ctx.scope none none row).value
    let entries := acceptedEntries ctx d start s.columns values
    (∀ name, Dict.get? (Dict.ofEntries entries) name =
      (entries.filter (·.1 == name)).getLast?.map Prod.snd) ∧
    after.run ((Select.byId s.table id).execute ctx later) =
      ((.ok ⟨[shownRow start entries], later.isEmpty⟩, later), after) ∧
    ∀ (engine : Engine) (v committed : World) (outcome : Outcome),
      Store.Reached Store.WritesOpened v.store → w = Engine.begun v →
      ctx = engine.context v.store.openStage.1 → errors = [] →
      v.run (engine.execute (.insert s)) = (.ok outcome, committed) →
      outcome.result.canCommit = true →
      (committed.run (engine.execute (.select (Select.byId s.table id)))).1 =
        .ok ⟨⟨[shownRow start entries], true⟩, [], 0⟩ := by
  obtain ⟨r, sameId, shown, sole⟩ := sole_of_execute given typed ran listed full
  dsimp only
  rw [← sameId, ← shown]
  have faults : after.faults = w.faults := by
    rw [← World.faults_run (s.execute ctx errors) w, ran]
  refine ⟨Dict.get?_ofEntries _, ?_, ?_⟩
  · have works : .scan ∉ after.faults := by rwa [faults]
    have alone : Table.under (after.store.scan (some ctx.stage) s.table none) r.id = [r] :=
      sole.records
    rw [Select.run_byId typed works fits, alone]
    rfl
  · rintro engine v committed outcome reached rfl rfl rfl done kept
    have opened := reached.stagesOpened fun _ _ admitted => admitted
    obtain ⟨stored, same, commits⟩ := Engine.committed_insert ran done kept
    obtain ⟨alone, count⟩ := shown_of_committed given typed opened ran stored sole
    have works : .scan ∉ committed.faults := by
      rw [same]
      exact readable
    have commitsStill : .commit ∉ committed.faults := by rwa [same]
    rw [Engine.run_execute_byId (Engine.stagesOpened_committed ran done kept opened) typed works
      commitsStill (count.trans_le fits), alone]
    rfl

/-- The type of notes, which have a title and a rank. -/
def notesType : TypeDef := .ofFields "notes" [.ofType "t" .string, .ofType "r" .number]

/-- An engine for notes. -/
def notesEngine : Engine := { schema := .ofTypes [notesType], now := ⟨0, 0, 0⟩ }

/-- A world without notes. -/
def notesWorld : World := { now := ⟨0, 0, 0⟩, ids := fun n => "n" ++ toString n }

/-- Two rows for notes: in the first the rank is no number, and the second is too short. -/
def earlierNotes : List (List Expr) :=
  [[.literal (.str "a"), .literal (.str "b"), .literal (.str "c"), .literal .null,
      .literal (.str "d")],
    [.literal (.str "e")]]

/-- A row whose second title is a number. -/
def laterNote : List Expr :=
  [.literal (.str "f"), .literal .null, .literal (.ofNat 1), .literal .null, .literal (.ofNat 2)]

/-- The insertion of these rows into a list of columns of which the first one is repeated, the
second one belongs to the store and the fourth one is unknown. -/
def mixedNotes : Insert where
  table := "notes"
  columns := ["T", "id", "R", "x", "t"]
  source := .values (earlierNotes ++ [laterNote])

/-- A row that fits. -/
def plainRow : List Expr := [.literal (.ofNat 1), .literal (.str "a")]

/-- The insertion of this row alone. -/
def plainNote : Insert where
  table := "notes"
  columns := ["R", "t"]
  source := .values [plainRow]

/-- The row of a note with some columns. -/
def noteRow (id : String) (columns : Dict Json) : Json :=
  .obj ([("id", .str id), ("created", .str (Instant.rowText ⟨0, 0, 0⟩)),
    ("updated", .str (Instant.rowText ⟨0, 0, 0⟩))] ++ columns)

theorem shownRow_note {w : World} {id : String} {entries columns : List (String × Json)}
    (now : w.now = ⟨0, 0, 0⟩) (next : w.ids w.issued = id)
    (same : Dict.ofEntries entries = columns) : shownRow w entries = noteRow id columns := by
  rw [shownRow, now, next, same, noteRow]

theorem inserted_row_selected_notes :
    (∃ result later after,
      (Engine.begun notesWorld).run (mixedNotes.execute (notesEngine.context ⟨1⟩) []) =
        ((.ok result, later), after) ∧
      after.run ((Select.byId "notes" "n1").execute (notesEngine.context ⟨1⟩) later) =
        ((.ok ⟨[noteRow "n1" [("t", .str "f"), ("r", .ofNat 1)]], later.isEmpty⟩, later),
          after)) ∧
    ∃ outcome committed,
      notesWorld.run (notesEngine.execute (.insert plainNote)) = (.ok outcome, committed) ∧
      outcome.result.canCommit = true ∧
      (committed.run (notesEngine.execute (.select (Select.byId "notes" "n0")))).1 =
        .ok ⟨⟨[noteRow "n0" [("r", .ofNat 1), ("t", .str "a")]], true⟩, [], 0⟩ := by
  have typed : (notesEngine.context ⟨1⟩).schema.get? "notes" = some notesType := by decide +kernel
  have readable : .scan ∉ (Engine.begun notesWorld).faults := List.not_mem_nil
  constructor
  · have finished : ((Engine.begun notesWorld).run (mixedNotes.execute (notesEngine.context ⟨1⟩)
          [])).1.1.toOption.isSome ∧
        (((Engine.begun notesWorld).run (mixedNotes.execute (notesEngine.context ⟨1⟩)
          [])).2.store.scan (some ⟨1⟩) mixedNotes.table none).length ≤
            (notesEngine.context ⟨1⟩).limits.maxScanRows := by decide +kernel
    have next : (mixedNotes.worldBefore (notesEngine.context ⟨1⟩) (Engine.begun notesWorld)
        earlierNotes).ids (mixedNotes.worldBefore (notesEngine.context ⟨1⟩)
          (Engine.begun notesWorld) earlierNotes).issued = "n1" := by decide +kernel
    have now : (mixedNotes.worldBefore (notesEngine.context ⟨1⟩) (Engine.begun notesWorld)
        earlierNotes).now = ⟨0, 0, 0⟩ := by decide +kernel
    have accepted : Dict.ofEntries (acceptedEntries (notesEngine.context ⟨1⟩) notesType
        (mixedNotes.worldBefore (notesEngine.context ⟨1⟩) (Engine.begun notesWorld) earlierNotes)
        mixedNotes.columns
        (Expr.evalAll (notesEngine.context ⟨1⟩).scope none none laterNote).value) =
          [("t", .str "f"), ("r", .ofNat 1)] := by rfl
    rcases ran : (Engine.begun notesWorld).run (mixedNotes.execute (notesEngine.context ⟨1⟩) [])
      with ⟨⟨failure | result, later⟩, after⟩
    · rw [ran] at finished
      cases finished.1
    · rw [ran] at finished
      have given : mixedNotes.source = .values (earlierNotes ++ [laterNote]) := rfl
      have full : laterNote.length = mixedNotes.columns.length := rfl
      have selected := (inserted_row_selected given typed ran readable finished.2 rfl full).2.1
      rw [next, shownRow_note now next accepted] at selected
      exact ⟨result, later, after, rfl, selected⟩
  · have kept : (notesWorld.run (notesEngine.execute (.insert plainNote))).1.toOption.map
        (·.result.canCommit) = some true := by decide +kernel
    have finished : ((Engine.begun notesWorld).run (plainNote.execute (notesEngine.context ⟨1⟩)
          [])).1.1.toOption.isSome ∧
        (((Engine.begun notesWorld).run (plainNote.execute (notesEngine.context ⟨1⟩)
          [])).2.store.scan (some ⟨1⟩) plainNote.table none).length ≤
            (notesEngine.context ⟨1⟩).limits.maxScanRows := by decide +kernel
    rcases ran : (Engine.begun notesWorld).run (plainNote.execute (notesEngine.context ⟨1⟩) [])
      with ⟨⟨failure | result, later⟩, after⟩
    · rw [ran] at finished
      cases finished.1
    · rw [ran] at finished
      rcases done : notesWorld.run (notesEngine.execute (.insert plainNote)) with
        ⟨failure | outcome, committed⟩
      · rw [done] at kept
        cases kept
      · rw [done] at kept
        have may : outcome.result.canCommit = true := Option.some.inj kept
        have given : plainNote.source = .values [plainRow] := rfl
        have listed : [plainRow] = [] ++ plainRow :: [] := rfl
        have full : plainRow.length = plainNote.columns.length := rfl
        have selected := (inserted_row_selected given typed ran readable finished.2 listed full).2.2
          notesEngine notesWorld committed outcome .new rfl rfl rfl done may
        have next : (plainNote.worldBefore (notesEngine.context ⟨1⟩) (Engine.begun notesWorld)
            []).ids (plainNote.worldBefore (notesEngine.context ⟨1⟩)
              (Engine.begun notesWorld) []).issued = "n0" := by decide +kernel
        have now : (plainNote.worldBefore (notesEngine.context ⟨1⟩) (Engine.begun notesWorld)
            []).now = ⟨0, 0, 0⟩ := by decide +kernel
        have accepted : Dict.ofEntries (acceptedEntries (notesEngine.context ⟨1⟩) notesType
            (plainNote.worldBefore (notesEngine.context ⟨1⟩) (Engine.begun notesWorld) [])
            plainNote.columns
            (Expr.evalAll (notesEngine.context ⟨1⟩).scope none none plainRow).value) =
              [("r", .ofNat 1), ("t", .str "a")] := by rfl
        rw [next, shownRow_note now next accepted] at selected
        exact ⟨outcome, committed, rfl, may, selected⟩

end Insert
end RecordQuery
