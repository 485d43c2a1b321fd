import RecordQuery.Proofs.ConformingStores
import RecordQuery.Proofs.Footprint
import RecordQuery.Proofs.Interference

/-!
Statements keep to their schema. A statement runs in its stage among other statements
(`stageProtocol`): others leave its stage alone and take no committed record away, and when it has
its turn the committed records conform. If it ends without a validation error, then what it has
written conforms (`Statement.execute_meets`). An error that is reported on the way is never lost, so
it is enough to know that the writes conform as long as there is none.
-/
namespace RecordQuery

open Store (Spares StageConforms)

/-- What a statement counts on in its stage, and what others may count on: it writes in its stage
only, and it commits only what conforms. -/
def stageProtocol (schema : Schema) (stage : StageId) : Protocol where
  rely w v := Spares stage w.store v.store ∧ v.store.Conforms schema
  admits
    | .openStage, _ => False
    | .newId, _ => True
    | .get .., _ => True
    | .scan .., _ => True
    | .insert other _ _ _, _ => other = stage
    | .update other _ _ _, _ => other = stage
    | .commit other, w => other = stage ∧ w.store.StageConforms schema stage
    | .rollback other, _ => other = stage

section
variable {schema : Schema} {stage : StageId}

theorem admits_of_serves {c : Call} {name : String} (serves : c.Serves stage name) (w : World) :
    (stageProtocol schema stage).admits c w := by
  cases c with
  | newId | get | scan => trivial
  | insert | update => exact serves.1
  | openStage | commit | rollback => exact serves.elim

/-- A script that only reads ends in a world that its stage is spared in. -/
theorem Script.Ensures.reads {α : Type} {post : α → Prop} {s : Script α}
    (ensures : s.Ensures (Call.Reads stage) post) (w : World) :
    s.Meets (stageProtocol schema stage) (fun a v => post a ∧ Spares stage w.store v.store) w := by
  refine ensures.meets (fun v => Spares stage w.store v.store) ?_ (Spares.refl stage w.store)
  intro c u v reads spares changed
  refine ⟨admits_of_serves (reads.serves "") v, ?_⟩
  rw [World.store_answer_of_reads reads v]
  exact spares.trans changed.1

theorem Exec.Ensures.reads {α : Type} {post : α → List ValidationError → Prop} {x : Exec α}
    {errors : List ValidationError} (ensures : x.Ensures (Call.Reads stage) post errors)
    (w : World) : x.Meets (stageProtocol schema stage)
      (fun a later v => post a later ∧ Spares stage w.store v.store) errors w :=
  (Script.Ensures.reads ensures w).mono fun _ _ found =>
    ⟨found.1.1, fun a yields => ⟨found.1.2 a yields, found.2⟩⟩

/-- A value that its column does not refuse may be written. -/
theorem Field.refusal?_meets (field : Field) (value : Json) (errors : List ValidationError)
    (w : World) : (Exec.script (field.refusal? stage value)).Meets (stageProtocol schema stage)
      (fun refusal _ v => (refusal = none → field.Takes (v.store.presence (some stage)) value) ∧
        Spares stage w.store v.store) errors w := by
  have takes : (field.refusal? stage value).Meets (stageProtocol schema stage)
      (fun refusal v => refusal = none → field.Takes (v.store.presence (some stage)) value) w := by
    unfold refusal?
    cases verdict : field.check value with
    | accepted => exact fun _ => takes_iff.mpr (by rw [verdict]; trivial)
    | refused reason => exact fun accepted => by cases accepted
    | refersTo target id =>
      intro v _
      refine ⟨trivial, ?_⟩
      rcases v.answer_get (some stage) target id with out | out
      · rw [out]
        exact fun accepted => by cases accepted
      · rw [out]
        cases there : v.store.get? (some stage) target id with
        | none => exact fun accepted => by cases accepted
        | some r =>
          refine fun _ => takes_iff.mpr ?_
          rw [verdict, Verdict.Holds, Store.presence, there, Option.isSome_some]
  refine Exec.meets_script ((takes.and ((field.refusal?_reads stage value).reads w)).mono ?_)
  exact fun _ _ found => ⟨found.1, found.2.2⟩

end

/-- Unless an error has been reported, what the stage holds conforms. -/
def SoundWrites (schema : Schema) (stage : StageId) (errors : List ValidationError) (w : World) :
    Prop := errors = [] → w.store.StageConforms schema stage

theorem SoundWrites.step {schema : Schema} {stage : StageId} {errors later : List ValidationError}
    {w v : World} (sound : SoundWrites schema stage errors w) (grown : errors <+: later)
    (spares : Spares stage w.store v.store) : SoundWrites schema stage later v := fun clean =>
  (sound (clean_of_later grown clean)).spare spares

/-- The last steps of a statement, which only evaluate expressions. -/
theorem finish_meets {schema : Schema} {stage : StageId} {x : Log (List Json)} (grows : x.Extends)
    {errors : List ValidationError} {w : World} (sound : SoundWrites schema stage errors w) :
    Exec.Meets (stageProtocol schema stage) (fun _ => SoundWrites schema stage)
      (do Result.finish (← Exec.log x)) errors w := by
  refine (Exec.meets_log grows errors w).bind ?_
  rintro rows later v grown ⟨-, rfl⟩
  exact ⟨List.prefix_refl later, fun _ _ => sound.step grown (Spares.refl stage v.store)⟩

/-! ### Insertions -/

namespace Insert

/-- The fields of a row after some columns: their values are checked, and unless an error has been
reported there is one for each column. -/
structure Gathers (d : TypeDef) (stage : StageId) (columns : List String) (w : World)
    (found : Dict Json) (later : List ValidationError) (v : World) : Prop where
  spares : Spares stage w.store v.store
  collects : d.Collects (v.store.presence (some stage)) found
  listed : later = [] → ∀ column ∈ columns, Text.lower column ∈ Dict.keys found

section
variable (ctx : Context) (d : TypeDef) (path : String)

theorem stageColumn_meets {fields : Dict Json} {before : List String} (column : String)
    (value : Json) {errors : List ValidationError} {start w : World}
    (gathers : Gathers d ctx.stage before start fields errors w) :
    (stageColumn ctx d path fields column value).Meets (stageProtocol ctx.schema ctx.stage)
      (Gathers d ctx.stage (column :: before) start) errors w := by
  have reported (e : ValidationError) (errors : List ValidationError) (v : World)
      (spares : Spares ctx.stage w.store v.store) :
      Exec.Meets (stageProtocol ctx.schema ctx.stage) (Gathers d ctx.stage (column :: before) start)
        (do Exec.log (Log.report e); return fields) errors v := by
    refine Exec.meets_reported ⟨gathers.spares.trans spares,
      gathers.collects.mono spares.presence, ?_⟩
    intro clean
    simp at clean
  rw [stageColumn]
  split
  · exact reported _ errors w (Spares.refl ctx.stage w.store)
  · cases declared : d.field? (Text.lower column) with
    | none => exact reported _ errors w (Spares.refl ctx.stage w.store)
    | some field =>
      refine (field.refusal?_meets value errors w).bind ?_
      rintro refusal later v grown ⟨takes, spares⟩
      cases refusal with
      | some reason => exact reported _ later v spares
      | none =>
        have collected := gathers.collects.mono spares.presence
        refine Exec.meets_pure ⟨gathers.spares.trans spares,
          collected.insert (TypeDef.mem_of_field? declared) (takes rfl), ?_⟩
        intro clean other member
        have named := TypeDef.name_of_field? declared
        rw [Text.lower_lower] at named
        rw [Dict.mem_keys_insert, named]
        rcases List.mem_cons.mp member with rfl | earlier
        · exact .inl rfl
        · exact .inr (gathers.listed (clean_of_later grown clean) other earlier)

theorem stageColumns_meets (pairs : List (String × Json)) {start : World} :
    ∀ {fields : Dict Json} {before : List String} {errors : List ValidationError} {w : World},
      Gathers d ctx.stage before start fields errors w →
      (stageColumns ctx d path fields pairs).Meets (stageProtocol ctx.schema ctx.stage)
        (Gathers d ctx.stage (pairs.map (·.1) ++ before) start) errors w := by
  induction pairs with
  | nil => intro fields before errors w gathers; exact Exec.meets_pure gathers
  | cons pair rest ih =>
    intro fields before errors w gathers
    obtain ⟨column, value⟩ := pair
    refine (stageColumn_meets ctx d path column value gathers).bind ?_
    intro found later v _ gathered
    refine (ih gathered).mono fun all last u _ done => ⟨done.spares, done.collects, ?_⟩
    intro clean other member
    refine done.listed clean other ?_
    simp only [List.map_cons, List.cons_append, List.mem_cons, List.mem_append] at member ⊢
    tauto

/-- A required field that is not among the columns is reported. -/
theorem complete_of_missingFields {columns : List String}
    (none : missingFields d path columns = []) {field : Field} (known : field ∈ d.fields)
    (required : field.nullable = false) : ∃ column ∈ columns, Text.lower column = field.name := by
  rw [missingFields, List.map_eq_nil_iff, List.filter_eq_nil_iff] at none
  have present := none field known
  rw [required, Bool.not_false, Bool.true_and, Bool.not_eq_true, Bool.not_eq_false',
    List.contains_iff_mem] at present
  exact List.mem_map.mp present

theorem stageRow_meets (s : Insert) (values : List Json) {errors : List ValidationError} {w : World}
    (distinct : d.fieldNames.Nodup) :
    (s.stageRow ctx d path values).Meets (stageProtocol ctx.schema ctx.stage)
      (fun fields later v => Spares ctx.stage w.store v.store ∧
        (later = [] → d.Admits (v.store.presence (some ctx.stage)) fields)) errors w := by
  have start : Gathers d ctx.stage [] w [] errors w :=
    ⟨Spares.refl ctx.stage w.store, TypeDef.collects_nil, fun _ _ member => by cases member⟩
  refine (stageColumns_meets ctx d path (s.columns.zip values) start).bind ?_
  intro fields found v _ gathered
  rw [List.append_nil] at gathered
  have grows := Log.Extends.forM Log.extends_report
    (missingFields d path ((s.columns.zip values).map (·.1)))
  refine (Exec.meets_log grows found v).bind ?_
  rintro _ later u - ⟨reported, rfl⟩
  rw [Log.run_forM_report] at reported
  obtain ⟨-, rfl⟩ := Prod.mk.inj reported
  refine Exec.meets_pure ⟨gathered.spares, fun clean => ?_⟩
  obtain ⟨before, none⟩ := List.append_eq_nil_iff.mp clean
  refine gathered.collects.admits distinct fun field known required => ?_
  obtain ⟨column, listed, named⟩ := complete_of_missingFields d path none known required
  exact named ▸ gathered.listed before column listed

/-- The identifier of a new record is asked for; the store stays as it is. -/
theorem newId_meets {schema : Schema} {stage : StageId} (errors : List ValidationError)
    (w : World) : (Exec.script (Script.ask .newId)).Meets (stageProtocol schema stage)
      (fun _ _ v => Spares stage w.store v.store) errors w :=
  Exec.meets_script fun _ changed => ⟨trivial, changed.1⟩

theorem insert_meets {schema : Schema} {stage : StageId} {table : String} {d : TypeDef}
    (usable : schema.Usable) (known : schema.get? table = some d) {fields : Dict Json}
    {errors : List ValidationError} {w : World}
    (sound : SoundWrites schema stage errors w)
    (admits : errors = [] → d.Admits (w.store.presence (some stage)) fields) (id : String) :
    (Exec.attempt (Script.ask (.insert stage d.name id fields))).Meets (stageProtocol schema stage)
      (fun _ => SoundWrites schema stage) errors w := by
  refine Exec.meets_attempt fun v changed => ⟨rfl, fun r _ clean => ?_⟩
  have now := (sound clean).spare changed.1
  rcases v.attempt_cases .insert fun s => s.insert v.now stage d.name id fields with out | out
  · rw [World.answer, out]; exact now
  · rw [World.answer, out]
    exact now.insert usable known ((admits clean).mono changed.1.presence) v.now id

theorem stageRows_meets (s : Insert) {table : String} (usable : ctx.schema.Usable)
    (known : ctx.schema.get? table = some d) (rows : List (Option (List Json))) :
    ∀ {index : Nat} {errors : List ValidationError} {w : World},
      SoundWrites ctx.schema ctx.stage errors w →
      (s.stageRows ctx d index rows).Meets (stageProtocol ctx.schema ctx.stage)
        (fun _ => SoundWrites ctx.schema ctx.stage) errors w := by
  have distinct := usable.distinct d (Schema.mem_of_get? known)
  induction rows with
  | nil => intro index errors w sound; exact Exec.meets_pure sound
  | cons row rest ih =>
    intro index errors w sound
    cases row with
    | none => exact ih sound
    | some values =>
      refine (s.stageRow_meets ctx d (rowPath index) values distinct).bind ?_
      rintro fields found v grown ⟨spares, admits⟩
      refine (newId_meets found v).bind fun id named u grownOn later => ?_
      -- The row is staged even if it has errors, and then nothing is claimed of the stage.
      have before := (sound.step grown spares).step grownOn later
      have checked : named = [] → d.Admits (u.store.presence (some ctx.stage)) fields :=
        fun clean => (admits (clean_of_later grownOn clean)).mono later.presence
      refine (insert_meets usable known before checked id).bind fun r more x _ staged => ?_
      exact (ih staged).bind fun _ _ _ _ done => Exec.meets_pure done

end

/-- If an insertion ends without an error, then what it has written conforms. -/
theorem execute_meets (s : Insert) (ctx : Context) (usable : ctx.schema.Usable)
    {errors : List ValidationError} {w : World}
    (conforms : w.store.StageConforms ctx.schema ctx.stage) :
    (s.execute ctx).Meets (stageProtocol ctx.schema ctx.stage)
      (fun _ => SoundWrites ctx.schema ctx.stage) errors w := by
  rw [execute]
  cases known : ctx.schema.get? s.table with
  | none => exact Exec.meets_reported fun _ => conforms
  | some d =>
    refine ((s.valueRows_reads ctx errors).reads w).bind fun rows found v _ read => ?_
    refine (s.stageRows_meets ctx d usable known rows fun _ => conforms.spare read.2).bind ?_
    intro records later u _ written
    exact finish_meets (returningRows_extends ctx.scope _ s.returning records) written

end Insert

/-! ### Updates -/

namespace Update

/-- Only declared fields are assigned to. -/
theorem targets_declared (d : TypeDef) (assignments : List Assignment) :
    ∀ errors, ∀ target ∈ ((targets d assignments).run errors).1, target.1 ∈ d.fields := by
  induction assignments with
  | nil => intro errors target member; cases member
  | cons a rest ih =>
    intro errors
    rw [targets]
    split
    · exact ih _
    · cases declared : d.field? a.column with
      | none => exact ih _
      | some field =>
        intro target member
        rcases List.mem_cons.mp member with rfl | below
        · exact TypeDef.mem_of_field? declared
        · exact ih errors target below

theorem changes_meets (ctx : Context) (d : TypeDef) (r : Record) (targets : List (Field × Expr))
    (declared : ∀ target ∈ targets, target.1 ∈ d.fields) :
    ∀ found errors (w : World), d.Collects (w.store.presence (some ctx.stage)) found →
      (changes ctx r found targets).Meets (stageProtocol ctx.schema ctx.stage)
        (fun all _ v => Spares ctx.stage w.store v.store ∧
          d.Collects (v.store.presence (some ctx.stage)) all) errors w := by
  induction targets with
  | nil =>
    intro found errors w collects
    exact Exec.meets_pure ⟨Spares.refl ctx.stage w.store, collects⟩
  | cons target rest ih =>
    intro found errors w collects
    obtain ⟨field, e⟩ := target
    have known : field ∈ d.fields := declared _ (List.mem_cons_self ..)
    have later := ih fun other member => declared other (List.mem_cons_of_mem _ member)
    refine (Exec.meets_log (Log.extends_within _ _) errors w).bind ?_
    rintro value evaluated v - ⟨-, rfl⟩
    refine (field.refusal?_meets value.raw evaluated v).bind ?_
    rintro refusal checked u - ⟨takes, spares⟩
    have kept := collects.mono spares.presence
    cases refusal with
    | none =>
      refine (later _ checked u (kept.insert known (takes rfl))).mono ?_
      exact fun all last x _ done => ⟨spares.trans done.1, done.2⟩
    | some reason =>
      refine (Exec.meets_log (Log.extends_once _) checked u).bind ?_
      rintro _ reported x - ⟨-, rfl⟩
      refine (later found reported x kept).mono ?_
      exact fun all last y _ done => ⟨spares.trans done.1, done.2⟩

theorem update_meets {schema : Schema} {stage : StageId} {table : String} {d : TypeDef}
    (usable : schema.Usable) (known : schema.get? table = some d) {found : Dict Json}
    {errors : List ValidationError} {w : World}
    (sound : SoundWrites schema stage errors w)
    (collects : d.Collects (w.store.presence (some stage)) found) (id : String) :
    (Exec.attempt (Script.ask (.update stage d.name id found))).Meets (stageProtocol schema stage)
      (fun _ => SoundWrites schema stage) errors w := by
  refine Exec.meets_attempt fun v changed => ⟨rfl, fun r _ clean => ?_⟩
  have now := (sound clean).spare changed.1
  rcases v.attempt_cases .update fun s => s.update v.now stage d.name id found with out | out
  · rw [World.answer, out]; exact now
  · rw [World.answer, out]
    exact now.update usable changed.2 known (collects.mono changed.1.presence) v.now id

theorem updateRecords_meets (s : Update) (ctx : Context) {table : String} {d : TypeDef}
    (usable : ctx.schema.Usable) (known : ctx.schema.get? table = some d)
    {targets : List (Field × Expr)} (declared : ∀ target ∈ targets, target.1 ∈ d.fields)
    (records : List Record) : ∀ {errors : List ValidationError} {w : World},
      SoundWrites ctx.schema ctx.stage errors w →
      (s.updateRecords ctx d targets records).Meets (stageProtocol ctx.schema ctx.stage)
        (fun _ => SoundWrites ctx.schema ctx.stage) errors w := by
  induction records with
  | nil => intro errors w sound; exact Exec.meets_pure sound
  | cons r rest ih =>
    intro errors w sound
    rw [updateRecords]
    refine (Exec.meets_log (selects_extends ctx.scope s.filter r) errors w).bind ?_
    rintro selected tested v grown ⟨-, rfl⟩
    have still := sound.step grown (Spares.refl ctx.stage v.store)
    split
    · refine (changes_meets ctx d r targets declared [] tested v TypeDef.collects_nil).bind ?_
      rintro found checked u grownOn ⟨spares, collects⟩
      have before := still.step grownOn spares
      split
      · exact ih before
      · refine (update_meets usable known before collects r.id).bind ?_
        intro version more x _ staged
        exact (ih staged).bind fun _ _ _ _ done => Exec.meets_pure done
    · exact ih still

/-- If an update ends without an error, then what it has written conforms. -/
theorem execute_meets (s : Update) (ctx : Context) (usable : ctx.schema.Usable)
    {errors : List ValidationError} {w : World}
    (conforms : w.store.StageConforms ctx.schema ctx.stage) :
    (s.execute ctx).Meets (stageProtocol ctx.schema ctx.stage)
      (fun _ => SoundWrites ctx.schema ctx.stage) errors w := by
  rw [execute]
  cases known : ctx.schema.get? s.table with
  | none => exact Exec.meets_reported fun _ => conforms
  | some d =>
    have declared := targets_declared d s.assignments errors
    refine (Exec.meets_log (targets_extends d s.assignments) errors w).bind ?_
    rintro targets found v - ⟨assigned, rfl⟩
    rw [assigned] at declared
    refine ((scanTable_reads ctx d.name _ found).reads v).bind fun records read u _ spared => ?_
    have start : SoundWrites ctx.schema ctx.stage read u := fun _ => conforms.spare spared.2
    refine (s.updateRecords_meets ctx usable known declared records start).bind ?_
    intro updated later x _ written
    exact finish_meets (returningRows_extends ctx.scope _ s.returning updated) written

end Update

/-- If a statement ends without an error, then what it has written conforms. -/
theorem Statement.execute_meets (s : Statement) (ctx : Context) (usable : ctx.schema.Usable)
    {errors : List ValidationError} {w : World}
    (conforms : w.store.StageConforms ctx.schema ctx.stage) :
    (s.execute ctx).Meets (stageProtocol ctx.schema ctx.stage)
      (fun _ => SoundWrites ctx.schema ctx.stage) errors w := by
  cases s with
  | select q =>
    exact ((q.execute_reads ctx errors).reads w).mono fun _ _ _ _ found _ =>
      conforms.spare found.2
  | insert q => exact q.execute_meets ctx usable conforms
  | update q => exact q.execute_meets ctx usable conforms

end RecordQuery
