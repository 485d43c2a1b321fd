import RecordQuery.Proofs.UpdatedRecords

/-!
What a statement shows of the records that it has written. Running a script writes certain records
(`World.written`), and its stage holds them afterwards, each in its place (`World.staged_run`). An
insertion refuses an identifier that is taken, and an update passes each record once, so a statement
writes no record twice, and what it was handed back for a write is what its stage finds in the end.
The rows of its RETURNING list are made of just these records, also where values of a row have been
refused. The main statement is `Statement.returning_stored`.
-/
namespace RecordQuery

/-! ### The records that a script writes -/

/-- The record that a call has written: an insertion or an update that succeeds hands it back. -/
def Call.written? : (c : Call) → c.Reply → Option Record
  | .insert .., reply => reply.toOption
  | .update .., reply => reply.toOption
  | _, _ => none

theorem Call.Reads.written? {stage : StageId} {c : Call} (reads : c.Reads stage)
    (reply : c.Reply) : c.written? reply = none := by
  cases c with
  | get | scan => rfl
  | _ => exact reads.elim

namespace World

/-- The records that a script writes when it is run to its end, in their order. -/
def written {α : Type} (w : World) : Script α → List Record
  | .done _ => []
  | .call c next =>
    (c.written? (w.answer c).1).toList ++ (w.answer c).2.written (next (w.answer c).1)

theorem written_ask (w : World) (c : Call) :
    w.written (Script.ask c) = (c.written? (w.answer c).1).toList := List.append_nil _

theorem written_bind {α β : Type} (w : World) (s : Script α) (f : α → Script β) :
    w.written (s >>= f) = w.written s ++ (w.run s).2.written (f (w.run s).1) := by
  induction s generalizing w with
  | done a => rfl
  | call c next ih =>
    have rest := ih (w.answer c).1 (w.answer c).2
    change (c.written? (w.answer c).1).toList ++
      (w.answer c).2.written (next (w.answer c).1 >>= f) = _
    rw [rest, ← List.append_assoc]
    rfl

/-- What only reads writes nothing. -/
theorem written_of_reads {α : Type} {stage : StageId} {post : α → Prop} {s : Script α}
    (reads : s.Ensures (Call.Reads stage) post) (w : World) : w.written s = [] := by
  induction s generalizing w with
  | done a => rfl
  | call c next ih => rw [written, reads.1.written?, ih _ (reads.2 _)]; rfl

theorem store_of_unwritten {stage : StageId} {name : String} {c : Call}
    (serves : c.Serves stage name) {w : World} (unwritten : c.wrote (w.answer c).1 = false) :
    (w.answer c).2.store = w.store := by
  rcases w.answer_cases serves with ⟨same, -⟩ | ⟨_, -, wrote⟩
  · exact same
  · rw [unwritten] at wrote
    cases wrote

/-- A call of a statement puts the record that it writes into the stage's table. -/
theorem staged_answer {stage : StageId} {name : String} {c : Call} (serves : c.Serves stage name)
    (w : World) :
    (w.answer c).2.store.staged (some stage) name =
      (w.store.staged (some stage) name).upsertAll (c.written? (w.answer c).1).toList := by
  have unwritten : c.wrote (w.answer c).1 = false → (w.answer c).2.store.staged (some stage) name =
      w.store.staged (some stage) name := fun silent => by rw [store_of_unwritten serves silent]
  cases c with
  | newId => rfl
  | insert other table id fields =>
    rcases replied : w.answer (.insert other table id fields) with ⟨failure | r, after⟩
    · rw [replied] at unwritten
      exact unwritten rfl
    · obtain ⟨rfl, rfl⟩ := serves
      obtain ⟨-, -, -, rfl⟩ := Insert.answer_insert_iff.mp replied
      exact Store.staged_write_self ..
  | update other table id fields =>
    rcases replied : w.answer (.update other table id fields) with ⟨failure | r, after⟩
    · rw [replied] at unwritten
      exact unwritten rfl
    · obtain ⟨rfl, rfl⟩ := serves
      obtain ⟨_, -, -, rfl⟩ := answer_update_inv replied
      exact Store.staged_write_self ..
  | get | scan => exact unwritten rfl
  | openStage | commit | rollback => exact serves.elim

/-- A statement's stage holds the records that it writes, each in its place. -/
theorem staged_run {α : Type} {stage : StageId} {name : String} {post : α → Prop} {s : Script α}
    (serves : s.Ensures (Call.Serves stage name) post) (w : World) :
    (w.run s).2.store.staged (some stage) name =
      (w.store.staged (some stage) name).upsertAll (w.written s) := by
  induction s generalizing w with
  | done a => rfl
  | call c next ih =>
    rw [run, written, ih _ (serves.2 _), staged_answer serves.1, Table.upsertAll, Table.upsertAll,
      Table.upsertAll, List.foldl_append]

end World

namespace Store

/-- The records that have been put into a stage's table are those that the stage finds. -/
theorem lookup?_of_upsertAll {before after : Store} {stage : StageId} {name : String}
    {written : List Record} (distinct : Table.Distinct written)
    (staged : after.staged (some stage) name =
      (before.staged (some stage) name).upsertAll written) {r : Record} (listed : r ∈ written) :
    after.lookup? (some stage) name r.id = some r := by
  have found := (Table.find?_eq_some_iff distinct r.id r).mpr ⟨listed, rfl⟩
  rw [lookup?, staged, Table.find?_upsertAll, found]
  rfl

end Store

namespace Exec
variable {α β : Type}

theorem written_of_reads {stage : StageId} {x : Exec α} {post : α → List ValidationError → Prop}
    {errors : List ValidationError} (reads : x.Ensures (Call.Reads stage) post errors)
    (w : World) : w.written (x errors) = [] := World.written_of_reads reads w

/-- After a computation that yields something, what is written next follows what it has written. -/
theorem written_bind {x : Exec α} {a : α} {w between : World} {errors later : List ValidationError}
    (ran : w.run (x errors) = ((.ok a, later), between)) (f : α → Exec β) :
    w.written ((x >>= f) errors) = w.written (x errors) ++ between.written (f a later) := by
  rw [bind_apply]
  refine (w.written_bind (x errors) _).trans ?_
  rw [ran]

theorem written_attempt (s : Script (Except Failure α)) (w : World)
    (errors : List ValidationError) : w.written (attempt s errors) = w.written s :=
  (w.written_bind s _).trans (List.append_nil _)

/-- A call that hands something back has been answered with it. -/
theorem run_attempt_inv {s : Script (Except Failure α)} {a : α} {w after : World}
    {errors later : List ValidationError}
    (ran : w.run (attempt s errors) = ((.ok a, later), after)) : w.run s = (.ok a, after) := by
  rw [run_attempt] at ran
  obtain ⟨replied, same⟩ := Prod.mk.inj ran
  exact Prod.ext (Prod.mk.inj replied).1 same

section
variable {w after : World} {stage : StageId} {table id : String} {fields : Dict Json} {r : Record}
  {errors later : List ValidationError}

/-- An insertion that is carried out writes the record that it hands back. -/
theorem run_insert_inv
    (ran : w.run (attempt (Script.ask (.insert stage table id fields)) errors) =
      ((.ok r, later), after)) :
    w.written (attempt (Script.ask (.insert stage table id fields)) errors) = [r] ∧
      w.answer (.insert stage table id fields) = (.ok r, after) := by
  have answered : w.answer (.insert stage table id fields) = (.ok r, after) := run_attempt_inv ran
  rw [written_attempt, World.written_ask, answered]
  exact ⟨rfl, rfl⟩

/-- So does an update of a record. -/
theorem run_update_inv
    (ran : w.run (attempt (Script.ask (.update stage table id fields)) errors) =
      ((.ok r, later), after)) :
    w.written (attempt (Script.ask (.update stage table id fields)) errors) = [r] ∧
      w.answer (.update stage table id fields) = (.ok r, after) := by
  have answered : w.answer (.update stage table id fields) = (.ok r, after) := run_attempt_inv ran
  rw [written_attempt, World.written_ask, answered]
  exact ⟨rfl, rfl⟩

end

end Exec

/-! ### Insertions -/

/-- The row that a RETURNING list shows of a record. -/
def returnedRow (scope : Scope) (ps : List Projection) (r : Record) : Json :=
  Entries.toRow (ps.flatMap fun p => p.columns (p.expr.eval scope (some r) none).value.raw)

theorem returningRows_yields (scope : Scope) (clause : String) (ps : List Projection)
    (records : List Record) :
    (returningRows scope clause ps records).Yields
      (if ps.isEmpty then [] else records.map (returnedRow scope ps)) := by
  rw [returningRows]
  split
  · exact Log.yields_pure []
  · refine Log.Yields.mapM (fun r => ?_) records
    exact (projectFrom_yields scope (some r) none clause ps 0).bind (Log.yields_pure _)

namespace Insert

section
variable {s : Insert} {ctx : Context}

/-- Staging rows hands back the records that it writes, under identifiers that are not taken and so
differ from one another. -/
theorem written_stageRows {d : TypeDef} (rows : List (Option (List Json))) :
    ∀ {index : Nat} {w after : World} {errors later : List ValidationError} {records : List Record},
      w.run (s.stageRows ctx d index rows errors) = ((.ok records, later), after) →
        w.written (s.stageRows ctx d index rows errors) = records ∧ Table.Distinct records ∧
          ∀ r ∈ records, w.store.lookup? (some ctx.stage) (Text.lower d.name) r.id = none := by
  induction rows with
  | nil =>
    intro index w after errors later records ran
    cases ran
    exact ⟨rfl, Table.distinct_nil, List.forall_mem_nil _⟩
  | cons row rest ih =>
    intro index w after errors later records ran
    cases row with
    | none => exact ih ran
    | some values =>
      obtain ⟨found, checked⟩ := exists_run_stageRow ctx d (rowPath index) w s values errors
      have silent := Exec.written_of_reads (s.stageRow_reads ctx d (rowPath index) values errors) w
      have issued : w.run (Exec.script (Script.ask .newId) found) =
          ((.ok (w.ids w.issued), found), { w with issued := w.issued + 1 }) := rfl
      rw [stageRows, Exec.run_bind checked, Exec.run_bind issued] at ran
      obtain ⟨r, between, mid, asked, ran⟩ := Exec.run_bind_inv ran
      obtain ⟨wrote, answered⟩ := Exec.run_insert_inv asked
      obtain ⟨-, new, rfl, rfl⟩ := answer_insert_iff.mp answered
      obtain ⟨more, last, final, staged, finished⟩ := Exec.run_bind_inv ran
      cases finished
      obtain ⟨handed, distinct, unseen⟩ := ih staged
      have apart : ∀ later ∈ more, later.id ≠ w.ids w.issued := fun later listed same => by
        have free := unseen later listed
        have taken := w.store.lookup?_write_self ctx.stage (Text.lower d.name)
          (newRecord ctx d w s.columns values)
        rw [same] at free
        exact absurd (taken.symm.trans free) (Option.some_ne_none _)
      refine ⟨?_, Table.distinct_cons.mpr ⟨apart, distinct⟩, ?_⟩
      · rw [stageRows, Exec.written_bind checked, silent, Exec.written_bind issued,
          Exec.written_bind asked, wrote, Exec.written_bind staged, handed]
        exact congrArg (_ :: ·) (List.append_nil more)
      · rintro later (_ | ⟨_, listed⟩)
        · exact new
        · have free := unseen later listed
          rwa [Store.lookup?_write_of_ne (apart later listed)] at free

/-- What an insertion shows is made of the records that it has written. -/
theorem returned_of_run {w after : World} {errors later : List ValidationError} {result : Result}
    (ran : w.run (s.execute ctx errors) = ((.ok result, later), after)) :
    Table.Distinct (w.written (s.execute ctx errors)) ∧
      result.rows = if s.returning.isEmpty then []
        else (w.written (s.execute ctx errors)).map (returnedRow ctx.scope s.returning) := by
  rw [execute] at ran ⊢
  cases known : ctx.schema.get? s.table with
  | none =>
    rw [known] at ran
    cases ran
    exact ⟨Table.distinct_nil, (ite_self []).symm⟩
  | some d =>
    rw [known] at ran
    obtain ⟨rows, found, reads, evaluates, ran⟩ := Exec.run_bind_inv ran
    obtain ⟨records, staged, between, stages, ran⟩ := Exec.run_bind_inv ran
    have silent := Exec.written_of_reads (s.valueRows_reads ctx errors) w
    obtain ⟨handed, distinct, -⟩ := written_stageRows rows stages
    have wrote : w.written ((do
        let rows ← s.valueRows ctx
        let records ← s.stageRows ctx d 0 rows
        Result.finish (← Exec.log (returningRows ctx.scope "insert.returning" s.returning
          records)) : Exec Result) errors) = records := by
      rw [Exec.written_bind evaluates, silent, Exec.written_bind stages, handed]
      exact List.append_nil records
    dsimp only
    rw [wrote]
    cases ran
    exact ⟨distinct, returningRows_yields ctx.scope _ s.returning records staged⟩

end

end Insert

/-! ### Updates -/

namespace Update

section
variable {s : Update} {ctx : Context}

/-- Updating records hands back the new versions that it writes, one for each record at most and in
their order. -/
theorem written_updateRecords {d : TypeDef} {targets : List (Field × Expr)} (rest : List Record) :
    ∀ {w after : World} {errors later : List ValidationError} {updated : List Record},
      w.run (s.updateRecords ctx d targets rest errors) = ((.ok updated, later), after) →
        w.written (s.updateRecords ctx d targets rest errors) = updated ∧
          (updated.map Record.id).Sublist (rest.map Record.id) := by
  induction rest with
  | nil =>
    intro w after errors later updated ran
    cases ran
    exact ⟨rfl, List.Sublist.refl _⟩
  | cons r rest ih =>
    intro w after errors later updated ran
    have tests := Exec.run_log w (selects ctx.scope s.filter r) errors
    rw [updateRecords, Exec.run_bind tests] at ran
    rw [updateRecords, Exec.written_bind tests]
    change [] ++ _ = updated ∧ _
    rw [List.nil_append]
    split at ran
    · rename_i selected
      rw [if_pos selected]
      obtain ⟨changed, found, mid, collects, ran⟩ := Exec.run_bind_inv ran
      have silent := Exec.written_of_reads (changes_reads ctx r targets []
        ((selects ctx.scope s.filter r).run errors).2) w
      rw [Exec.written_bind collects, silent, List.nil_append]
      split at ran
      · rename_i nothing
        rw [if_pos nothing]
        obtain ⟨handed, among⟩ := ih ran
        exact ⟨handed, among.cons r.id⟩
      · rename_i something
        rw [if_neg something]
        obtain ⟨made, between, next, writes, ran⟩ := Exec.run_bind_inv ran
        obtain ⟨wrote, answered⟩ := Exec.run_update_inv writes
        obtain ⟨old, seen, rfl, -⟩ := World.answer_update_inv answered
        obtain ⟨more, last, final, recurs, yields⟩ := Exec.run_bind_inv ran
        cases yields
        obtain ⟨handed, among⟩ := ih recurs
        have same : old.id = r.id := Store.id_of_lookup? seen
        have kept : (old.apply mid.now changed).id = r.id := same
        rw [Exec.written_bind writes, wrote, Exec.written_bind recurs, handed, List.map_cons,
          List.map_cons, kept]
        exact ⟨congrArg (_ :: ·) (List.append_nil more), among.cons_cons r.id⟩
    · rename_i passed
      rw [if_neg passed]
      obtain ⟨handed, among⟩ := ih ran
      exact ⟨handed, among.cons r.id⟩

/-- What an update shows is made of the records that it has written. -/
theorem returned_of_run {w after : World} {errors later : List ValidationError} {result : Result}
    (distinct : Table.Distinct (w.store.scan (some ctx.stage) s.table none))
    (ran : w.run (s.execute ctx errors) = ((.ok result, later), after)) :
    Table.Distinct (w.written (s.execute ctx errors)) ∧
      result.rows = if s.returning.isEmpty then []
        else (w.written (s.execute ctx errors)).map (returnedRow ctx.scope s.returning) := by
  rw [execute] at ran ⊢
  cases known : ctx.schema.get? s.table with
  | none =>
    rw [known] at ran
    cases ran
    exact ⟨Table.distinct_nil, (ite_self []).symm⟩
  | some d =>
    rw [known] at ran
    have resolves := Exec.run_log w (targets d s.assignments) errors
    obtain ⟨records, found, between, scans, ran⟩ := Exec.run_bind_inv
      ((Exec.run_bind resolves _).symm.trans ran)
    obtain ⟨updated, staged, after, updates, ran⟩ := Exec.run_bind_inv ran
    have silent := Exec.written_of_reads (scanTable_reads ctx d.name "update.where"
      ((targets d s.assignments).run errors).2) w
    obtain ⟨handed, among⟩ := written_updateRecords records updates
    have wrote : w.written ((do
        let targets ← Exec.log (targets d s.assignments)
        let records ← scanTable ctx d.name "update.where"
        let updated ← s.updateRecords ctx d targets records
        Result.finish (← Exec.log (returningRows ctx.scope "update.returning" s.returning
          updated)) : Exec Result) errors) = updated := by
      rw [Exec.written_bind resolves, Exec.written_bind scans, silent, Exec.written_bind updates,
        handed]
      exact List.append_nil updated
    -- The records that are passed are among those of the table, each of which is there once.
    have once : (records.map Record.id).Nodup := by
      obtain ⟨rfl, -⟩ := records_of_run_scanTable scans
      rw [← Store.scan_lower, ← Schema.lower_name_of_get? known, Store.scan_lower] at distinct
      exact distinct.sublist ((List.take_sublist _ _).map Record.id)
    dsimp only
    rw [wrote]
    cases ran
    exact ⟨once.sublist among, returningRows_yields ctx.scope _ s.returning updated staged⟩

end

end Update

/-! ### What a RETURNING list shows -/

namespace Statement

/-- The RETURNING list of a statement that writes. -/
def returning? : Statement → Option (List Projection)
  | select _ => none
  | insert s => some s.returning
  | update s => some s.returning

/-- The rows of a RETURNING list show what has been stored. Whatever errors a statement that ends
with a result has reported, it has written certain records, none of them twice, and its stage holds
them in their places. With a RETURNING list there is one row for each of them, in the order in which
they were written, made of the record that the stage finds afterwards under its identifier; without
one there are no rows. -/
theorem returning_stored {s : Statement} {ps : List Projection} {ctx : Context} {w after : World}
    {errors later : List ValidationError} {result : Result} (writes : s.returning? = some ps)
    (distinct : Table.Distinct (w.store.scan (some ctx.stage) s.table none))
    (ran : w.run (s.execute ctx errors) = ((.ok result, later), after)) :
    let written := w.written (s.execute ctx errors)
    Table.Distinct written ∧
      after.store.staged (some ctx.stage) (Text.lower s.table) =
        (w.store.staged (some ctx.stage) (Text.lower s.table)).upsertAll written ∧
      (ps ≠ [] → List.Forall₂ (fun row r =>
        after.store.get? (some ctx.stage) s.table r.id = some r ∧
          row = returnedRow ctx.scope ps r) result.rows written) ∧
      (ps = [] → result.rows = []) := by
  have staged := World.staged_run (s.execute_serves ctx errors) w
  have shown : Table.Distinct (w.written (s.execute ctx errors)) ∧
      result.rows = if ps.isEmpty then []
        else (w.written (s.execute ctx errors)).map (returnedRow ctx.scope ps) := by
    cases s with
    | select q => cases writes
    | insert q => cases writes; exact q.returned_of_run ran
    | update q => cases writes; exact q.returned_of_run distinct ran
  rw [ran] at staged
  obtain ⟨once, rows⟩ := shown
  refine ⟨once, staged, fun listed => ?_, fun empty => ?_⟩
  · rw [if_neg (by simpa using listed)] at rows
    rw [rows, List.forall₂_map_left_iff, List.forall₂_same]
    exact fun r member => ⟨Store.lookup?_of_upsertAll once staged member, rfl⟩
  · rw [rows, empty]
    rfl

/-- The columns of a pair that are shown. -/
def shownPair : List Projection := [⟨.ref "pairs" "a", none⟩, ⟨.ref "pairs" "mark", some "m"⟩]

/-- The update that levels the numbers of pairs whose second one is not `4`, and marks them with a
number, which is refused. -/
def pairsLevelled : Update where
  table := "pairs"
  assignments := [.to "a" (.ref "pairs" "b"), .to "mark" (.ref "pairs" "a")]
  filter := some (.comparison .ne (.ref "pairs" "b") (.literal (.ofNat 4)))
  returning := shownPair

theorem returning_stored_pairsLevelled :
    Table.Distinct (Update.pairsWorld.store.scan (some ⟨1⟩) "pairs" none) ∧
    ∃ result later after,
      Update.pairsWorld.run ((update pairsLevelled).execute Update.pairsContext []) =
        ((.ok result, later), after) ∧
      later.map (·.path) = ["update.set.mark"] ∧
      result.rows.map Json.text = ["\x7b\"a\":2,\"m\":null\x7d", "\x7b\"a\":6,\"m\":null\x7d"] ∧
      List.Forall₂ (fun row r => after.store.get? (some ⟨1⟩) "pairs" r.id = some r ∧
          row = returnedRow Update.pairsContext.scope shownPair r) result.rows
        (Update.pairsWorld.written ((update pairsLevelled).execute Update.pairsContext [])) := by
  have distinct : Table.Distinct (Update.pairsWorld.store.scan (some ⟨1⟩) "pairs" none) := by
    have ids : (Update.pairsWorld.store.scan (some ⟨1⟩) "pairs" none).map Record.id =
        ["p", "r", "q"] := by decide +kernel
    rw [Table.Distinct, ids]
    decide
  have reply : (Update.pairsWorld.run
      ((update pairsLevelled).execute Update.pairsContext [])).1.1.toOption.map
        (·.rows.map Json.text) =
          some ["\x7b\"a\":2,\"m\":null\x7d", "\x7b\"a\":6,\"m\":null\x7d"] := by decide +kernel
  have refused : (Update.pairsWorld.run
      ((update pairsLevelled).execute Update.pairsContext [])).1.2.map (·.path) =
        ["update.set.mark"] := by decide +kernel
  rcases ran : Update.pairsWorld.run ((update pairsLevelled).execute Update.pairsContext [])
    with ⟨⟨failure | result, later⟩, after⟩
  · rw [ran] at reply
    cases reply
  · rw [ran] at reply refused
    obtain ⟨-, -, shown, -⟩ := @returning_stored (update pairsLevelled) shownPair
      Update.pairsContext Update.pairsWorld after [] later result rfl distinct ran
    exact ⟨distinct, result, later, after, rfl, refused, Option.some.inj reply,
      shown (List.cons_ne_nil _ _)⟩

end Statement
end RecordQuery
