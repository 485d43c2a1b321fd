import RecordQuery.Lint.Command
import RecordQuery.Proofs.Registry
import RecordQuery.Proofs.RowErrors

/-!
What a clean lint is good for. A schema without issues is one whose fields serve all their uses:
they are found by their names, insertions and updates check values by them and not as columns of the
store, enumerations take some value, and references never fail for lack of a target
(`Schema.serves_of_validate`). The lint command ends with code 0 for just the configurations that an
engine can be made of (`Lint.run_exits`). With the list of violations this makes the lint exact
(`Schema.lint_exact`).
-/
namespace RecordQuery

open Calendar (Instant)
open Files (FileReader)

/-! ### Fields in use -/

/-- A field serves its uses: by its name, in any case, it is what look-ups find and what values of
insertions and updates are checked by; some value other than null may be written into an
enumeration, and references lead to a type and are not refused for having no target. -/
structure Schema.Serves (schema : Schema) (d : TypeDef) (field : Field) : Prop where
  found : ∀ name, Text.lower name = field.name → d.field? name = some field
  inserted : ∀ (ctx : Context) (path column : String) (fields : Dict Json) (value : Json),
    Text.lower column = field.name →
      Insert.stageColumn ctx d path fields column value = do
        match ← Exec.script (field.refusal? ctx.stage value) with
        | none => return Dict.insert fields field.name value
        | some reason =>
          Exec.log (Log.report ((reason.error field).atPath (path ++ "." ++ field.name)))
          return fields
  assigned : ∀ (value : Expr) (rest : List Assignment),
    Update.targets d (⟨field.name, value⟩ :: rest) = do
      return (field, value) :: (← Update.targets d rest)
  allows : field.type = .enum → ∃ value : Json, value.isNull = false ∧ field.check value = .accepted
  leads : field.type = .reference →
    ∃ target e, field.referencedType = some target ∧ schema.get? target = some e
  targeted : ∀ (w : World) (stage : StageId) (value : Json),
    (w.run (field.refusal? stage value)).1 ≠ some .noTarget

/-- The fields of a schema that passes the lint serve their uses. -/
theorem Schema.serves_of_validate {schema : Schema} {given : List TypeDef}
    (built : schema.Built given) (valid : schema.validate = .ok ()) {d : TypeDef}
    (member : d ∈ schema.types) {field : Field} (declared : field ∈ d.fields) :
    schema.Serves d field := by
  have usable := usable_of_validate valid
  have lowered := built.lowered member
  obtain ⟨place, stands⟩ := List.mem_iff_getElem?.mp declared
  have right := lint_eq_nil_iff.mp (validate_eq_ok_iff.mp valid) d member place field stands
  have own : d.field? field.name = some field :=
    lowered.field?_of_mem declared (usable.distinct d member)
  have found {name : String} (named : Text.lower name = field.name) : d.field? name = some field := by
    rw [← own, TypeDef.field?, TypeDef.field?, named, lowered.fields field declared]
  refine ⟨fun _ => found, ?_, ?_, ?_, ?_, ?_⟩
  · intro ctx path column fields value named
    have staged := Insert.stageColumn.eq_def ctx d path fields column value
    simp only [named, right.user, Bool.false_eq_true, if_false, own] at staged
    exact staged
  · intro value rest
    rw [Update.targets, right.user, own]
    rfl
  · intro type
    obtain ⟨text, allowed⟩ := right.allows type
    exact ⟨.str text, rfl, by simp [Field.check, type, Json.isNull, Json.toText, allowed]⟩
  · intro type
    obtain ⟨target, leads, listed⟩ := right.leads type
    obtain ⟨e, known⟩ := exists_get?_of_mem_names listed (lowered.targets field declared target leads)
    exact ⟨target, e, leads, known⟩
  · intro w stage value refused
    cases Field.refuses_of_run refused with
    | noTarget type kind untargeted =>
      obtain ⟨target, leads, -⟩ := right.leads type
      exact Option.some_ne_none target (leads.symm.trans untargeted)

/-! ### The command -/

namespace Lint

section
variable {m : Type → Type} [Monad m] (read : FileReader m) (environment : String → Option String)
  (envFile : Option String)

/-- The configuration that the options name, or else the environment. -/
def Options.configuration (o : Options) : ExceptT Failure m Config :=
  match o.config with
  | some path => Config.load read path
  | none => Config.loadNamed read (configPath? environment envFile)

theorem exitCode_ofSchema (json : Bool) (schema : Schema) :
    ((Report.ofSchema json schema).exitCode == 0) = schema.validate.isOk := by
  rw [Report.ofSchema, Schema.validate]
  cases schema.lint <;> rfl

/-- Whether a run ends with code 0, however it ends. -/
def succeeds (x : ExceptT Report m Report) : m Bool :=
  (fun | .ok report | .error report => report.exitCode == 0) <$> x.run

/-- A part of a run whose step fails does not end with code 0. -/
theorem succeeds_step [LawfulMonad m] {α : Type} (name : String) (x : ExceptT Failure m α)
    (next : α → ExceptT Report m Report) : succeeds (step name x >>= next) = x.run >>= fun
      | .ok a => succeeds (next a)
      | .error _ => pure false := by
  rw [succeeds, ExceptT.run_bind, step, ExceptT.run_mk, bind_assoc, map_bind]
  refine bind_congr fun result => ?_
  cases result with
  | ok a => rw [pure_bind]; rfl
  | error failure => rw [pure_bind, map_pure]; rfl

theorem isOk_bind [LawfulMonad m] {α β : Type} (x : ExceptT Failure m α)
    (next : α → ExceptT Failure m β) : Except.isOk <$> (x >>= next).run = x.run >>= fun
      | .ok a => Except.isOk <$> (next a).run
      | .error _ => pure false := by
  rw [ExceptT.run_bind, map_bind]
  refine bind_congr fun result => ?_
  cases result with
  | ok a => rfl
  | error failure => rw [map_pure]; rfl

/-- A run on the types of a configuration ends with code 0 where an engine can be made of it. -/
theorem run_exits [LawfulMonad m] {arguments : List String} {o : Options}
    (asked : Request.ofArguments? arguments = some (.check o)) (configured : o.schema = none)
    (now : Instant) :
    (·.exitCode == 0) <$> run read environment envFile arguments =
      Except.isOk <$> (do
        let config ← o.configuration read environment envFile
        config.engine read now).run := by
  have checked : (·.exitCode == 0) <$> run read environment envFile arguments =
      succeeds (check read (configPath? environment envFile) o) := by
    rw [run, asked]
    dsimp only
    rw [map_bind, succeeds, ← bind_pure_comp]
    refine bind_congr fun result => ?_
    cases result <;> exact map_pure _ _
  have reported (config : Config) :
      (succeeds do
        let schema ← step "loading configured schema" (config.schema read)
        return .ofSchema o.json schema) = Except.isOk <$> (config.engine read now).run := by
    rw [succeeds_step, Config.engine, isOk_bind]
    refine bind_congr fun result => ?_
    cases result with
    | error failure => rfl
    | ok schema =>
      dsimp only
      have lifted : (liftM schema.validate : ExceptT Failure m Unit).run = pure schema.validate := rfl
      rw [succeeds, ExceptT.run_pure, map_pure, isOk_bind, lifted, pure_bind]
      dsimp only
      rw [exitCode_ofSchema]
      cases schema.validate with
      | error failure => rfl
      | ok _ => rw [ExceptT.run_pure, map_pure]; rfl
  have loaded : ∃ name, check read (configPath? environment envFile) o = do
      let config ← step name (o.configuration read environment envFile)
      let schema ← step "loading configured schema" (config.schema read)
      return .ofSchema o.json schema := by
    rw [check, configured, Options.configuration]
    cases o.config <;> exact ⟨_, rfl⟩
  obtain ⟨name, loaded⟩ := loaded
  rw [checked, loaded, succeeds_step, isOk_bind]
  refine bind_congr fun result => ?_
  cases result with
  | error failure => rfl
  | ok config => exact reported config

end

end Lint

namespace Schema

/-- The lint is exact. A schema is valid just if all its fields are faultless, and then they serve
their uses. The issues are those of all violations, each of them once and in order, so a name that
occurs several times is reported for each time but the first. The lint command, asked about a
configuration, ends with code 0 just if an engine can be made of it. -/
theorem lint_exact {schema : Schema} {given : List TypeDef} (built : schema.Built given)
    {m : Type → Type} [Monad m] [LawfulMonad m] (read : FileReader m)
    (environment : String → Option String) (envFile : Option String) {arguments : List String}
    {o : Lint.Options} (asked : Lint.Request.ofArguments? arguments = some (.check o))
    (configured : o.schema = none) (now : Instant) :
    (schema.validate = .ok () ↔ ∀ d ∈ schema.types, ∀ place field,
      d.fields[place]? = some field → schema.Faultless d place field) ∧
    (schema.validate = .ok () → ∀ d ∈ schema.types, ∀ field ∈ d.fields, schema.Serves d field) ∧
    (∃ findings : List Finding, schema.lint = findings.map Finding.issue ∧
      findings.Pairwise Finding.Before ∧ ∀ f, f ∈ findings ↔ f.Holds schema) ∧
    (∀ d ∈ schema.types, ∀ name,
      schema.lint.count ⟨d.name, name, .duplicate⟩ = d.fieldNames.count name - 1) ∧
    (·.exitCode == 0) <$> Lint.run read environment envFile arguments = Except.isOk <$> (do
      let config ← o.configuration read environment envFile
      config.engine read now).run := by
  have sorted := built.normal.sorted
  refine ⟨validate_eq_ok_iff.trans lint_eq_nil_iff, ?_, ?_, ?_, ?_⟩
  · intro valid d member field declared
    exact serves_of_validate built valid member declared
  · exact ⟨schema.findings, schema.lint_eq, findings_ordered sorted, fun f => mem_findings_iff⟩
  · intro d member name
    exact count_duplicate (sorted.imp ne_of_lt) member name
  · exact Lint.run_exits read environment envFile asked configured now

/-- A type with one name for three fields. -/
def repeatedTotals : TypeDef :=
  .ofFields "Orders" [.ofType "total" .number, .ofType "Total" .string, .ofType "TOTAL" .json]

theorem lint_exact_repeatedTotals :
    (ofTypes [repeatedTotals]).Built [repeatedTotals] ∧
    Lint.Request.ofArguments? ["--json"] = some (.check { json := true }) ∧
    (ofTypes [repeatedTotals]).lint.count ⟨"orders", "total", .duplicate⟩ = 2 ∧
    ((Lint.run emptyDisk (fun _ => none) none ["--json"] : Id Lint.Report).exitCode == 0) =
      false := by
  have built := Built.ofTypes [repeatedTotals]
  have asked : Lint.Request.ofArguments? ["--json"] = some (.check { json := true }) := rfl
  obtain ⟨-, -, -, counted, exits⟩ :=
    lint_exact built emptyDisk (fun _ => none) none asked rfl ⟨0, 0, 0⟩
  refine ⟨built, asked, ?_, exits⟩
  have normal : repeatedTotals.normalize = repeatedTotals := TypeDef.normalize_normalize _
  have member : repeatedTotals ∈ (ofTypes [repeatedTotals]).types :=
    List.mem_singleton.mpr normal.symm
  have name : repeatedTotals.name = "orders" := rfl
  rw [← name, counted _ member]
  rfl

end Schema
end RecordQuery
