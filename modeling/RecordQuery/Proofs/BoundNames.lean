import RecordQuery.Proofs.Footprint

/-!
Contexts that change while a statement runs. A query binds the names of its sources in the context,
as it comes to them, and at its end it puts the names back that were there before it, also where it
is given up or stopped between its joins. Executed in this way (`Live`), a statement does what it
does when its context never changes (`Statement.live_eq`). So it leaves the context as it has found
it, and the names that were bound before a query have no influence on it.
-/
namespace RecordQuery

/-! ### Scripts that do the same -/

/-- The scripts make the same calls, whatever the replies are, and end with related results. -/
inductive Script.Related {α β : Type} (R : α → β → Prop) : Script α → Script β → Prop
  | done {a : α} {b : β} (related : R a b) : Related R (.done a) (.done b)
  | call {c : Call} {next : c.Reply → Script α} {next' : c.Reply → Script β}
      (each : ∀ reply, Related R (next reply) (next' reply)) :
      Related R (.call c next) (.call c next')

namespace Script.Related
variable {α β γ δ : Type} {R : α → β → Prop} {S : γ → δ → Prop}

theorem refl {R : α → α → Prop} (same : ∀ a, R a a) (s : Script α) : Related R s s := by
  induction s with
  | done a => exact .done (same a)
  | call c next ih => exact .call ih

theorem bind {s : Script α} {t : Script β} {f : α → Script γ} {g : β → Script δ}
    (related : Related R s t) (later : ∀ a b, R a b → Related S (f a) (g b)) :
    Related S (s.bind f) (t.bind g) := by
  induction related with
  | done related => exact later _ _ related
  | call _ ih => exact .call ih

theorem eq {s t : Script α} (related : Related Eq s t) : s = t := by
  induction related with
  | done same => rw [same]
  | call _ ih => exact congrArg _ (funext ih)

end Script.Related

/-! ### Contexts as state -/

/-- A context and the errors found so far. -/
structure Session where
  context : Context
  errors : List ValidationError

/-- The session in which other names are bound. -/
def Session.named (session : Session) (aliases : Dict String) : Session :=
  { session with context := { session.context with aliases } }

/-- A computation that may change the context. What it has done before a failure stays done. -/
abbrev Live := ExceptT Failure (StateT Session Script)

namespace Live
variable {α β : Type}

/-- Does something that does not change the context. -/
def reading (x : Context → Exec α) : Live α := fun session =>
  (x session.context session.errors).bind fun out => .done (out.1, { session with errors := out.2 })

/-- Goes on as the context says. -/
def asking (f : Context → Live α) : Live α := fun session => f session.context session

/-- Binds a name to a type. -/
def bindName (name typeName : String) : Live PUnit :=
  modify fun session => session.named (Dict.insert session.context.aliases name typeName)

/-- Runs a computation without the names that are bound, and binds them again at its end, however
it ends. -/
def withoutNames (x : Live α) : Live α := fun session =>
  (x (session.named [])).bind fun out => .done (out.1, out.2.named session.context.aliases)

/-- Moves the errors that a computation adds into a clause. -/
def within (clause : String) (x : Live α) : Live α := do
  let mark := (← get).errors.length
  let a ← x
  modify fun session => { session with errors := scopeErrors mark clause session.errors }
  return a

theorem bind_apply (x : Live α) (f : α → Live β) (session : Session) :
    (x >>= f) session = Script.bind (x session) fun
      | (.ok a, session) => f a session
      | (.error failure, session) => .done (.error failure, session) := by
  change Script.bind (x session) _ = _
  congr 1
  funext out
  obtain ⟨reply, session⟩ := out
  cases reply <;> rfl

theorem bindName_bind (name typeName : String) (f : PUnit → Live α) (session : Session) :
    (bindName name typeName >>= f) session =
      f ⟨⟩ (session.named (Dict.insert session.context.aliases name typeName)) := rfl

theorem reading_bind (x : Context → Exec α) (f : α → Context → Exec β) :
    (reading x >>= fun a => reading (f a)) = reading fun ctx => x ctx >>= fun a => f a ctx := by
  funext session
  rw [bind_apply, reading, reading, Exec.bind_apply, Script.bind_assoc, Script.bind_assoc]
  congr 1
  funext out
  obtain ⟨reply, errors⟩ := out
  cases reply <;> rfl

/-- What is done with a context that does not change, and what comes after it. -/
theorem related_reading {γ : Type} {R : Except Failure β × Session → γ → Prop}
    {x : Context → Exec α} {f : α → Live β} {g : Except Failure α × List ValidationError → Script γ}
    {session : Session}
    (failed : ∀ failure errors, Script.Related R
      (.done (.error failure, { session with errors })) (g (.error failure, errors)))
    (later : ∀ a errors, Script.Related R (f a { session with errors }) (g (.ok a, errors))) :
    Script.Related R ((reading x >>= f) session)
      ((x session.context session.errors).bind g) := by
  rw [bind_apply, reading, Script.bind_assoc]
  refine (Script.Related.refl (fun _ => rfl) _).bind ?_
  rintro ⟨reply, errors⟩ _ rfl
  cases reply with
  | error failure => exact failed failure errors
  | ok a => exact later a errors

/-- Only the context of the session counts. -/
theorem reading_congr {x y : Context → Exec α} {session : Session}
    (same : x session.context = y session.context) : reading x session = reading y session := by
  rw [reading, reading, same]

theorem reading_within (clause : String) (x : Context → Exec α) :
    within clause (reading x) = reading fun ctx => Exec.within clause (x ctx) := by
  funext session
  have moved : within clause (reading x) session =
      (reading x >>= fun a => do
        modify fun s => { s with errors := scopeErrors session.errors.length clause s.errors }
        return a) session := rfl
  have also : Exec.within clause (x session.context) session.errors =
      (x session.context >>= fun a => do
        modify (scopeErrors session.errors.length clause); return a) session.errors := rfl
  rw [moved, bind_apply, reading, reading, also, Exec.bind_apply, Script.bind_assoc,
    Script.bind_assoc]
  congr 1
  funext out
  obtain ⟨reply, errors⟩ := out
  cases reply <;> rfl

end Live

/-! ### Statements that bind names -/

namespace Select

/-- Joins rows with one source after another, reading the names from the context. -/
def liveJoinAll : Nat → List (Join × TypeDef) → List Record → Live (List Record)
  | _, [], rows => return rows
  | index, (j, d) :: rest, rows => do
    let path := itemPath "select.joins" index
    let right ← Live.reading fun ctx => scanTable ctx d.name path
    let rows ← Live.reading fun ctx => Exec.log (joinRows ctx.scope j (path ++ ".on") right rows)
    liveJoinAll (index + 1) rest rows

/-- Loads the rows of the sources. The names are bound once the first source has been read. -/
def liveLoadRows (s : Select) : Live (Option (List Record)) := Live.asking fun ctx => do
  match ctx.schema.get? s.base.table with
  | none =>
    Live.reading fun ctx =>
      Exec.log (Log.report (unknownTable ctx.schema s.base.table "select.from"))
    return none
  | some base =>
    let types ← Live.reading fun ctx => Exec.log (joinTypes ctx.schema 0 s.joins)
    if types.length ≠ s.joins.length then return none
    else
      let records ← Live.reading fun ctx => scanTable ctx base.name "select.from"
      if s.joins.isEmpty && s.base.givenName.isNone then return some records
      else
        Live.bindName s.base.name base.name
        (s.joins.zip types).forM fun entry => Live.bindName entry.1.source.name entry.2.name
        let rows ← liveJoinAll 0 (s.joins.zip types) (records.map (entryRow s.base.name))
        return some rows

/-- The output columns of the rows of a query in a context in which no name is bound; none if a
source does not exist. -/
def liveAnswer (s : Select) : Live (Option (List Entries)) := do
  match ← s.liveLoadRows with
  | none => return none
  | some rows =>
    let outputs ← Live.reading fun ctx => Exec.log do
      let rows ← filterRows ctx.scope s.filter rows
      s.outputRows ctx.scope rows
    return some ((slice s.offset s.limit (sortRows s.orderBy outputs)).map (·.entries))

/-- The output columns of the rows of a query. Names that are bound do not reach into it. -/
def liveEntries (s : Select) : Live (Option (List Entries)) := Live.withoutNames s.liveAnswer

/-- Executes a query. -/
def live (s : Select) : Live Result := do
  match ← s.liveEntries with
  | some rows => Live.reading fun _ => Result.finish (rows.map Entries.toRow)
  | none => return .rejected

end Select

/-- The rows to insert; `none` stands for a row that was reported for its number of values. -/
def Insert.liveRows (s : Insert) : Live (List (Option (List Json))) :=
  match s.source with
  | .values rows => Live.reading fun ctx => Exec.log (literalRows ctx.scope s.columns.length 0 rows)
  | .query select => do
    let rows ← Live.within "insert" select.liveEntries
    Live.reading fun _ => Exec.log (queryRows s.columns.length 0 (rows.getD []))

/-- Executes an insertion. -/
def Insert.live (s : Insert) : Live Result := Live.asking fun ctx => do
  match ctx.schema.get? s.table with
  | none =>
    Live.reading fun ctx => Exec.log (Log.report (unknownTable ctx.schema s.table "insert"))
    return .rejected
  | some d =>
    let rows ← s.liveRows
    let records ← Live.reading fun ctx => s.stageRows ctx d 0 rows
    Live.reading fun ctx => do
      Result.finish (← Exec.log (returningRows ctx.scope "insert.returning" s.returning records))

/-- Executes a statement. An update binds no names. -/
def Statement.live : Statement → Live Result
  | select q => q.live
  | insert q => q.live
  | update q => Live.reading q.execute

/-- A context in which a name is bound, with an error that has been found before. -/
def boundSession : Session where
  context :=
    { schema := .ofTypes [.ofFields "users" [.ofType "name" .string]]
      aliases := [("users", "teams")]
      stage := ⟨1⟩
      now := ⟨0, 0, 0⟩ }
  errors := [{ path := "select.from", message := "long" }]

/-! ### Statements do not change their contexts -/

namespace Select

theorem liveJoinAll_eq (levels : List (Join × TypeDef)) : ∀ index rows,
    liveJoinAll index levels rows = Live.reading fun ctx => joinAll ctx index levels rows := by
  induction levels with
  | nil => exact fun _ _ => rfl
  | cons level rest ih =>
    intro index rows
    obtain ⟨j, d⟩ := level
    rw [liveJoinAll]
    simp only [ih, Live.reading_bind]
    rfl

theorem forM_bindName_bind {α : Type} (entries : List (Join × TypeDef)) (f : PUnit → Live α) :
    ∀ session : Session,
      ((entries.forM fun entry => Live.bindName entry.1.source.name entry.2.name) >>= f) session =
        f ⟨⟩ (session.named (Dict.insertAll session.context.aliases
          (entries.map fun entry => (entry.1.source.name, entry.2.name)))) := by
  induction entries with
  | nil => exact fun _ => rfl
  | cons entry rest ih => exact fun session => ih (session.named _)

/-- What loading the sources yields: a failure leaves names bound, and rows come with the names
that they are evaluated with. -/
inductive LiveLoaded (ctx : Context) : Except Failure (Option (List Record)) × Session →
    Except Failure (Option (Context × List Record)) × List ValidationError → Prop
  | failed (failure : Failure) (aliases : Dict String) (errors : List ValidationError) :
      LiveLoaded ctx (.error failure, ⟨{ ctx with aliases }, errors⟩) (.error failure, errors)
  | missing (errors : List ValidationError) :
      LiveLoaded ctx (.ok none, ⟨{ ctx with aliases := [] }, errors⟩) (.ok none, errors)
  | loaded (rows : List Record) (aliases : Dict String) (errors : List ValidationError) :
      LiveLoaded ctx (.ok (some rows), ⟨{ ctx with aliases }, errors⟩)
        (.ok (some ({ ctx with aliases }, rows)), errors)

theorem liveLoadRows_related (s : Select) (ctx : Context) (errors : List ValidationError) :
    Script.Related (LiveLoaded ctx) (s.liveLoadRows ⟨{ ctx with aliases := [] }, errors⟩)
      (s.loadRows { ctx with aliases := [] } errors) := by
  rw [liveLoadRows, Live.asking, loadRows]
  dsimp only
  cases ctx.schema.get? s.base.table with
  | none =>
    dsimp only
    rw [Exec.bind_apply]
    refine Live.related_reading (fun failure later => ?_) fun _ later => .done (.missing later)
    exact .done (.failed failure [] later)
  | some base =>
    dsimp only
    rw [Exec.bind_apply]
    refine Live.related_reading (fun failure later => ?_) fun types later => ?_
    · exact .done (.failed failure [] later)
    dsimp only
    by_cases missing : types.length ≠ s.joins.length
    · rw [if_pos missing, if_pos missing]
      exact .done (.missing later)
    rw [if_neg missing, if_neg missing, Exec.bind_apply]
    refine Live.related_reading (fun failure later => ?_) fun records later => ?_
    · exact .done (.failed failure [] later)
    dsimp only
    by_cases alone : (s.joins.isEmpty && s.base.givenName.isNone) = true
    · rw [if_pos alone, if_pos alone]
      exact .done (.loaded records [] later)
    rw [if_neg alone, if_neg alone, Exec.bind_apply]
    -- From here on the names of the sources are bound, also if reading one of them fails.
    rw [Live.bindName_bind, forM_bindName_bind, liveJoinAll_eq]
    refine Live.related_reading (fun failure later => ?_) fun rows later => ?_
    · exact .done (.failed failure (s.bindings base types) later)
    · exact .done (.loaded rows (s.bindings base types) later)

theorem liveAnswer_related (s : Select) (ctx : Context) (errors : List ValidationError) :
    Script.Related
      (fun out out' => out.1 = out'.1 ∧ out.2.errors = out'.2 ∧
        ∃ aliases, out.2.context = { ctx with aliases })
      (s.liveAnswer ⟨{ ctx with aliases := [] }, errors⟩) (s.executeEntries ctx errors) := by
  rw [liveAnswer, executeEntries, Live.bind_apply, Exec.bind_apply]
  refine (s.liveLoadRows_related ctx errors).bind ?_
  rintro _ _ (⟨failure, aliases, later⟩ | later | ⟨rows, aliases, later⟩)
  · exact .done ⟨rfl, rfl, aliases, rfl⟩
  · exact .done ⟨rfl, rfl, [], rfl⟩
  · dsimp only
    rw [Exec.bind_apply]
    refine Live.related_reading (fun failure later => ?_) fun outputs later => ?_
    · exact .done ⟨rfl, rfl, aliases, rfl⟩
    · exact .done ⟨rfl, rfl, aliases, rfl⟩

/-- A query that binds the names of its sources in the context leaves none of them bound. -/
theorem liveEntries_eq (s : Select) : s.liveEntries = Live.reading s.executeEntries := by
  funext session
  obtain ⟨ctx, errors⟩ := session
  rw [liveEntries, Live.withoutNames, Live.reading]
  refine ((s.liveAnswer_related ctx errors).bind ?_).eq
  rintro ⟨reply, found, later⟩ ⟨_, _⟩ ⟨rfl, rfl, aliases, rfl⟩
  exact .done rfl

/-- A query that names its source. -/
def namedOnce : Select where
  projections := [⟨.ref "u" "name", none⟩]
  base := .ofTable "users" (some "u")

/-- While the query is answered its source has a name, and afterwards the earlier name is back. -/
example :
    let w : World := { now := ⟨0, 0, 0⟩, ids := fun _ => "" }
    (w.run (namedOnce.liveAnswer (boundSession.named []))).1.2.context.aliases =
        [("u", "users")] ∧
      (w.run (namedOnce.liveEntries boundSession)).1.2.context.aliases = [("users", "teams")] := by
  decide +kernel

theorem live_eq (s : Select) : s.live = Live.reading s.execute := by
  have finished (found : Option (List Entries)) :
      (match found with
        | some rows => Live.reading fun _ => Result.finish (rows.map Entries.toRow)
        | none => return .rejected : Live Result) =
      Live.reading fun _ => match found with
        | some rows => Result.finish (rows.map Entries.toRow)
        | none => return .rejected := by
    cases found <;> rfl
  rw [live, liveEntries_eq]
  exact (congrArg _ (funext finished)).trans (Live.reading_bind _ _)

end Select

theorem Insert.liveRows_eq (s : Insert) : s.liveRows = Live.reading s.valueRows := by
  rw [liveRows]
  cases source : s.source with
  | values rows =>
    refine congrArg Live.reading (funext fun ctx => ?_)
    rw [valueRows, source]
  | query select =>
    dsimp only
    rw [Select.liveEntries_eq, Live.reading_within, Live.reading_bind]
    refine congrArg Live.reading (funext fun ctx => ?_)
    rw [valueRows, source]

theorem Insert.live_eq (s : Insert) : s.live = Live.reading s.execute := by
  funext session
  rw [live, Live.asking]
  cases known : session.context.schema.get? s.table with
  | none =>
    dsimp only
    have rejected := Live.reading_bind
      (fun ctx => Exec.log (Log.report (unknownTable ctx.schema s.table "insert")))
      fun _ _ => return Result.rejected
    refine (congrFun rejected session).trans (Live.reading_congr ?_)
    rw [execute, known]
  | some d =>
    dsimp only
    simp only [liveRows_eq, Live.reading_bind]
    refine Live.reading_congr ?_
    rw [execute, known]

/-- A statement that changes the context does what it does when the context never changes. -/
theorem Statement.live_eq (s : Statement) : s.live = Live.reading s.execute := by
  cases s with
  | select q => exact q.live_eq
  | insert q => exact q.live_eq
  | update q => rfl

/-! ### Names that are bound before -/

/-- What does not look at the bound names runs in the same way with other names and leaves these. -/
theorem Live.reading_named {α : Type} {x : Context → Exec α} {session : Session}
    {aliases : Dict String} (unread : x { session.context with aliases } = x session.context) :
    Live.reading x (session.named aliases) =
      (Live.reading x session).bind fun out => .done (out.1, out.2.named aliases) := by
  have same : x (session.named aliases).context = x session.context := unread
  rw [Live.reading, Live.reading, same, Script.bind_assoc]
  rfl

namespace Insert
variable (ctx : Context) (aliases : Dict String)

theorem stageColumns_named (d : TypeDef) (path : String) (pairs : List (String × Json)) :
    ∀ fields, stageColumns { ctx with aliases } d path fields pairs =
      stageColumns ctx d path fields pairs := by
  induction pairs with
  | nil => exact fun _ => rfl
  | cons pair rest ih =>
    intro fields
    rw [stageColumns, stageColumns]
    exact congrArg (stageColumn ctx d path fields pair.1 pair.2 >>= ·) (funext ih)

theorem stageRow_named (s : Insert) (d : TypeDef) (path : String) (values : List Json) :
    s.stageRow { ctx with aliases } d path values = s.stageRow ctx d path values := by
  rw [stageRow, stageRow, stageColumns_named]

/-- Records are staged without a look at the bound names. -/
theorem stageRows_named (s : Insert) (d : TypeDef) (rows : List (Option (List Json))) :
    ∀ index, s.stageRows { ctx with aliases } d index rows = s.stageRows ctx d index rows := by
  induction rows with
  | nil => exact fun _ => rfl
  | cons row rest ih =>
    intro index
    cases row with
    | none => exact ih (index + 1)
    | some values =>
      rw [stageRows, stageRows, stageRow_named]
      simp only [ih]

variable {s : Insert} {q : Select} (queried : s.source = .query q)

include queried

theorem valueRows_named : s.valueRows { ctx with aliases } = s.valueRows ctx := by
  rw [valueRows, valueRows, queried]
  rfl

/-- An insertion of the rows of a query does not look at the bound names, but to return rows. -/
theorem execute_named (silent : s.returning = []) :
    s.execute { ctx with aliases } = s.execute ctx := by
  rw [execute, execute, valueRows_named ctx aliases queried, silent]
  simp only [stageRows_named]
  rfl

end Insert

/-- A statement leaves the context as it has found it. It binds names in the context and takes them
away again; whatever the store replies, and whether it comes to its end or is stopped, it does what
it does when the context never changes, so that all of the context is as it was at its end, and the
errors found before it are the first ones. Other names that are bound before a query do not change
what it calls, yields and reports, nor do they for a query whose rows are inserted, for the records
that are staged from these, and for an insertion that returns no rows. -/
theorem Statement.leaves_context :
    (∀ (s : Statement) (session : Session),
      s.live session = (s.execute session.context session.errors).bind (fun out =>
          .done (out.1, { session with errors := out.2 })) ∧
        (s.live session).Ensures (fun _ => True) fun out =>
          out.2.context = session.context ∧ session.errors <+: out.2.errors) ∧
      (∀ (q : Select) (session : Session) (aliases : Dict String),
        q.live (session.named aliases) =
          (q.live session).bind fun out => .done (out.1, out.2.named aliases)) ∧
      ∀ (s : Insert) (q : Select) (session : Session) (aliases : Dict String),
        s.source = .query q →
          s.liveRows (session.named aliases) =
              (s.liveRows session).bind (fun out => .done (out.1, out.2.named aliases)) ∧
            (∀ d rows, s.stageRows { session.context with aliases } d 0 rows =
              s.stageRows session.context d 0 rows) ∧
            (s.returning = [] → s.live (session.named aliases) =
              (s.live session).bind fun out => .done (out.1, out.2.named aliases)) := by
  refine ⟨fun s session => ⟨by rw [s.live_eq]; rfl, ?_⟩, fun q session aliases => ?_,
    fun s q session aliases queried => ⟨?_, fun d rows => ?_, fun silent => ?_⟩⟩
  · rw [s.live_eq]
    have grown : Script.Ensures (fun _ => True) (fun out => session.errors <+: out.2)
        (s.execute session.context session.errors) :=
      Script.Ensures.mono (s.execute_serves session.context session.errors) (fun _ _ => trivial)
        fun out found => found.1
    exact grown.bind fun out later => ⟨rfl, later⟩
  · rw [q.live_eq]
    exact Live.reading_named rfl
  · rw [s.liveRows_eq]
    exact Live.reading_named (Insert.valueRows_named _ _ queried)
  · exact s.stageRows_named _ _ d rows 0
  · rw [s.live_eq]
    exact Live.reading_named (Insert.execute_named _ _ queried silent)

/-- The users once more, from a query that names its source. -/
def doubledUsers : Insert where
  table := "users"
  columns := ["name"]
  source := .query .namedOnce

/-- Users are doubled in the same way where a name is bound and where none is. -/
theorem Statement.leaves_context_doubledUsers :
    doubledUsers.live (boundSession.named []) =
      (doubledUsers.live boundSession).bind fun out => .done (out.1, out.2.named []) :=
  (leaves_context.2.2 doubledUsers _ boundSession [] rfl).2.2 rfl

end RecordQuery
