import RecordQuery.Engine
import RecordQuery.Proofs.History
import RecordQuery.Proofs.NestedLoop
import RecordQuery.Proofs.Registry
import RecordQuery.Proofs.StoredFields

/-!
References and the records that they name. A column takes a reference if its text is the identifier
of a record, and a join finds that record by comparing the reference with identifiers. Both agree
for texts: the comparison is true on the record that was found and on no record with another
identifier. A number is taken as well, by its text, and then it compares with no identifier at all
(`Field.accepted_reference_compares`). Loaded types have all names in lower case
(`Schema.Built.lowered`), so the target of a reference is a type of the schema, and what
is written into a store keeps its own columns apart from those of the store (`Store.Reached.plain`),
so that joined rows read both sides as they were written.
-/
namespace RecordQuery

open Calendar (Instant)

/-! ### Loaded schemas -/

namespace Schema

section
variable {types : List TypeDef} {d : TypeDef} (member : d ∈ (ofTypes types).types) {field : Field}
  (declared : field ∈ d.fields)

include member declared

theorem lower_target_of_mem_fields {target : String} (leads : field.referencedType = some target) :
    Text.lower target = target :=
  ((Built.ofTypes types).lowered member).targets field declared target leads

/-- In a type without repeated names a field is found by its name. -/
theorem field?_of_mem_fields (distinct : d.fieldNames.Nodup) : d.field? field.name = some field :=
  ((Built.ofTypes types).lowered member).field?_of_mem declared distinct

end

end Schema

/-! ### Stored records -/

namespace Store

/-- All records have a property, the committed and the staged ones. -/
structure All (P : Record → Prop) (store : Store) : Prop where
  names : ∀ id, (Dict.keys (store.stage id).tables).Nodup
  committed : ∀ name, ∀ r ∈ store.table name, P r
  staged : ∀ view name, ∀ r ∈ store.staged view name, P r

/-- What is given to a store: loaded records are plain, and the fields of new ones are a dictionary.
Nothing is asked of changes, nor of any name or identifier. -/
def TakesPlain (_ : Store) : Operation → Prop
  | .load _ records => ∀ r ∈ records, r.Plain
  | .insert _ _ _ _ fields => (Dict.keys fields).Nodup
  | _ => True

section
variable {P : Record → Prop} {store : Store} (all : store.All P)

include all

theorem All.write (id : StageId) (name : String) {r : Record} (holds : P r) :
    (store.write id name r).All P where
  names other := nodup_names_write (all.names other) id name r
  committed := all.committed
  staged view other s member := by
    cases view with
    | none => cases member
    | some stage =>
      by_cases same : stage = id
      · subst same
        by_cases here : other = name
        · subst here
          rw [staged_write_self] at member
          rcases Table.mem_upsert member with rfl | before
          · exact holds
          · exact all.staged _ _ s before
        · rw [staged_write_of_ne store stage r here] at member
          exact all.staged _ _ s member
      · rw [Store.staged, stage_write_of_ne store name r same] at member
        exact all.staged (some stage) other s member

theorem All.load (table : String) {records : List Record} (hold : ∀ r ∈ records, P r) :
    (store.load table records).All P where
  names := all.names
  staged := all.staged
  committed name r member := by
    by_cases same : name = Text.lower table
    · rw [same, table_load_self] at member
      exact (List.mem_append.mp member).elim (all.committed _ r) (hold r)
    · rw [table_load_of_ne store records same] at member
      exact all.committed name r member

/-- Ending a stage leaves the other stages as they are and its own without writes. -/
theorem All.drop {after : Store} {id : StageId} (self : after.stage id = {})
    (others : ∀ other, other ≠ id → after.stage other = store.stage other)
    (committed : ∀ name, ∀ r ∈ after.table name, P r) : after.All P where
  names other := by
    rcases stage_of_ended self others other with empty | same
    · rw [empty]; exact List.nodup_nil
    · rw [same]; exact all.names other
  committed := committed
  staged view name r member := by
    cases view with
    | none => cases member
    | some other =>
      rcases stage_of_ended self others other with empty | same
      · rw [Store.staged, empty] at member; cases member
      · rw [Store.staged, same] at member
        exact all.staged (some other) name r member

theorem All.of_lookup? {view : Option StageId} {name id : String} {r : Record}
    (found : store.lookup? view name id = some r) : P r := by
  rw [lookup?] at found
  split at found
  · rename_i own
    obtain rfl := Option.some.inj found
    exact all.staged view name _ (Table.mem_of_find? own).1
  · exact all.committed name r (Table.mem_of_find? found).1

theorem All.of_mem_scan {view : Option StageId} {table : String} {r : Record}
    (member : r ∈ store.scan view table none) : P r := by
  rcases List.mem_append.mp member with version | added
  · obtain ⟨old, listed, rfl⟩ := List.mem_map.mp version
    cases own : (store.staged view (Text.lower table)).find? old.id with
    | none => exact all.committed _ old listed
    | some found => exact all.staged view _ found (Table.mem_of_find? own).1
  · exact all.staged view _ r (List.mem_filter.mp added).1

end

theorem All.perform {store : Store} (all : store.All Record.Plain) {op : Operation}
    (takes : store.TakesPlain op) : (store.perform op).2.All Record.Plain := by
  cases op with
  | load table records => exact all.load table takes
  | openStage => exact ⟨all.names, all.committed, all.staged⟩
  | insert now stage table id fields =>
    rcases insert_cases store now stage table id fields with ⟨failure, refused⟩ | ⟨-, written⟩
    · rw [Store.perform, refused]; exact all
    · rw [Store.perform, written]; exact all.write stage _ (Record.plain_create takes now id)
  | update now stage table id fields =>
    rcases update_cases store now stage table id fields with ⟨failure, refused⟩ | ⟨r, seen, written⟩
    · rw [Store.perform, refused]; exact all
    · rw [Store.perform, written]; exact all.write stage _ ((all.of_lookup? seen).apply now fields)
  | commit stage =>
    refine all.drop (stage_commit_self store stage) (fun _ ne => stage_commit_of_ne store ne) ?_
    intro name r member
    rw [Store.perform, table_commit (all.names stage)] at member
    exact (Table.mem_upsertAll member).elim (all.staged _ name r) (all.committed name r)
  | rollback stage =>
    exact all.drop (stage_dropStage_self store stage) (fun _ ne => stage_dropStage_of_ne store ne)
      all.committed
  | get | scan | pending | count => exact all

/-- Every record that a store comes to hold is plain. -/
theorem Reached.plain {store : Store} (reached : Reached TakesPlain store) :
    store.All Record.Plain := by
  induction reached with
  | new =>
    refine ⟨fun _ => List.nodup_nil, fun _ _ listed => ?_, fun view _ _ listed => ?_⟩
    · cases listed
    · cases view <;> cases listed
  | perform _ takes ih => exact ih.perform takes

theorem Reached.seed {store : Store} (reached : Reached TakesPlain store) (now : Instant)
    (table id : String) {fields : Dict Json} (distinct : (Dict.keys fields).Nodup) :
    Reached TakesPlain (store.seed now table id fields) := by
  have takes : store.TakesPlain (.load table [.create now id fields]) := fun r listed =>
    List.mem_singleton.mp listed ▸ Record.plain_create distinct now id
  exact reached.perform takes

end Store

/-! ### Comparing references with identifiers -/

/-- A row is joined from records that a view shows: its entries are those of a tuple over the first
`count` sources. -/
structure Tuple.Joins (store : Store) (view : Option StageId) (bs : List Binding) (count : Nat)
    (t : Tuple) (row : Record) : Prop where
  fields : row.fields = t.entries
  sources : t.map Prod.fst = bs.take count
  records : ∀ entry ∈ t, ∀ r, entry.2 = some r → r ∈ store.scan view entry.1.type.name none

theorem Tuple.Joins.shows {store : Store} {view : Option StageId} {bs : List Binding} {count : Nat}
    {t : Tuple} {row : Record} (joins : t.Joins store view bs count row)
    (reached : store.Reached Store.TakesPlain) : Shows bs count row t where
  fields := joins.fields
  sources := joins.sources
  plain entry member r isRecord := reached.plain.of_mem_scan (joins.records entry member r isRecord)

section
variable {scope : Scope} {bs : List Binding}

theorem Scope.Binds.refers (binds : scope.Binds bs) {b : Binding} (listed : b ∈ bs) :
    scope.Refers b.name b.type := by
  have distinct : (Dict.keys scope.aliases).Nodup := by
    rw [binds.aliases, Dict.keys, List.map_map]
    exact binds.distinct
  have bound : Dict.get? scope.aliases b.name = some b.type.name := by
    rw [Dict.get?_eq_some_iff distinct, binds.aliases]
    exact List.mem_map_of_mem (f := fun b : Binding => (b.name, b.type.name)) listed
  refine ⟨?_, .inl ?_⟩
  · rw [Scope.resolve?, bound]
    exact binds.known b listed
  · rw [Dict.hasKey, bound]
    rfl

/-- A declared column of a source that has a record is read from the record, without a fault. -/
theorem Shows.evalColumn_record {count : Nat} {row : Record} {t : Tuple}
    (shows : Shows bs count row t) (binds : scope.Binds bs) {b : Binding} {r : Record}
    (member : (b, some r) ∈ t) {column : String} {origin : Origin}
    (declared : b.type.origin? column = some origin) :
    Expr.evalColumn scope (some row) b.name column = ⟨⟨r.cell column, some origin⟩, []⟩ := by
  have listed : b ∈ bs := by
    have inTake : b ∈ bs.take count := shows.sources ▸ List.mem_map_of_mem (f := Prod.fst) member
    exact List.mem_of_mem_take inTake
  have entry : Expr.joinedEntry? scope row b.name = some (.obj r.toRow) := by
    rw [Expr.joinedEntry?, shows.fields, Tuple.get?_entries, shows.find?_of_mem binds member]
    rfl
  rw [Expr.evalColumn_eq (binds.refers listed), declared, Option.map_some, Option.getD_some,
    Expr.readColumn_joined binds.joined, entry, (shows.plain _ member r rfl).readEntry]

end

/-- In a row, a source stands for a record that a view shows: the row is this record, or it is
joined from records and this one is the record of the source. -/
inductive Scope.Reads (store : Store) (view : Option StageId) (scope : Scope) (row : Record) :
    String → TypeDef → Record → Prop
  | plain {source : String} {d : TypeDef} (alone : scope.aliases = [])
      (resolves : scope.resolve? source = some d) (member : row ∈ store.scan view d.name none) :
      Reads store view scope row source d row
  | joined {bs : List Binding} {count : Nat} {t : Tuple} {b : Binding} {r : Record}
      (binds : scope.Binds bs) (joins : t.Joins store view bs count row) (holds : (b, some r) ∈ t) :
      Reads store view scope row b.name b.type r

theorem Scope.Reads.evalColumn {store : Store} {view : Option StageId} {scope : Scope}
    {row r : Record} {source : String} {d : TypeDef} (reads : scope.Reads store view row source d r)
    (reached : store.Reached Store.TakesPlain) {column : String} {origin : Origin}
    (declared : d.origin? column = some origin) :
    Expr.evalColumn scope (some row) source column = ⟨⟨r.cell column, some origin⟩, []⟩ := by
  cases reads with
  | plain alone resolves member => rw [Expr.evalColumn_plain alone resolves, declared]
  | joined binds joins holds => exact (joins.shows reached).evalColumn_record binds holds declared

namespace Field

/-- A reference that is taken leads to a record of its target, found by the text of the value. -/
theorem leads_of_accepted {field : Field} (reference : field.type = .reference) {value : Json}
    (given : value.isNull = false) {w after : World} {stage : StageId}
    (accepted : w.run (field.refusal? stage value) = (none, after)) :
    (value.kind = .string ∨ value.kind = .number) ∧ ∃ target found,
      field.referencedType = some target ∧
        w.store.get? (some stage) target value.toText = some found := by
  rw [refusal?] at accepted
  unfold check at accepted
  rw [given, if_neg Bool.false_ne_true, reference] at accepted
  dsimp only at accepted
  by_cases kind : [Kind.string, Kind.number].contains value.kind = true
  · rw [if_pos kind] at accepted
    refine ⟨by simpa using kind, ?_⟩
    cases leads : field.referencedType with
    | none => rw [leads] at accepted; cases accepted
    | some target =>
      rw [leads] at accepted
      dsimp only at accepted
      rw [World.run_bind, World.run_ask] at accepted
      rcases w.answer_get (some stage) target value.toText with out | out
      · rw [out] at accepted
        cases accepted
      · rw [out] at accepted
        cases found : w.store.get? (some stage) target value.toText with
        | none => rw [found] at accepted; cases accepted
        | some r => exact ⟨target, r, rfl, found⟩
  · rw [if_neg kind] at accepted
    cases accepted

/-- The comparison of a reference with the identifier of a source. -/
def refersTo (field : Field) (source target : String) : Expr :=
  .comparison .eq (.column source field.name) (.column target "id")

/-- A field is a column of its type. The name `*` always stands for the whole row. -/
theorem cell_of_held {d : TypeDef} {field : Field} (found : d.field? field.name = some field)
    (plain : isSystemColumn field.name = false) {r : Record} {value : Json}
    (held : r.get? field.name = some value) :
    (∃ origin, d.origin? field.name = some origin) ∧
      r.cell field.name = if field.name = "*" then .obj r.toRow else value := by
  refine ⟨?_, by rw [Record.cell, held]; rfl⟩
  by_cases whole : field.name = "*"
  · exact ⟨_, by rw [TypeDef.origin?, if_pos (.inl whole)]⟩
  · have named : ¬ (field.name = "*" ∨ isSystemColumn field.name = true) := by simp [whole, plain]
    exact ⟨_, by rw [TypeDef.origin?, if_neg named, found]; rfl⟩

/-- Comparing a value that is not null with a text, which is the identifier of a record. -/
theorem evalComparison_text (scope : Scope) {value : Json} (given : value.isNull = false)
    (id : String) :
    Expr.evalComparison scope .eq value (.str id) =
      if value.kind = .string then ⟨value.toText == id, []⟩
      else .fault (.incomparable .eq value.kind .string) false := by
  rw [Expr.evalComparison, given]
  by_cases text : value.kind = .string
  · obtain ⟨s, rfl⟩ : ∃ s, value = .str s := by cases value <;> cases text; exact ⟨_, rfl⟩
    rw [if_pos text]
    simp [Json.isNull, Json.kind, Expr.holds, Json.order, Json.toText]
  · have mixed : value.kind ≠ (Json.str id).kind := text
    rw [if_neg text, if_pos mixed]
    rfl

/-- A text that a reference column has taken is joinable, and a number is not. The record that was
found is one of the target type, and wherever a source stands for a record that holds the value and
another for a record of the target, the comparison of the reference with the identifier is without
faults and true just for the identifier of the record that was found, if the value is a text; it is
a fault, whatever the record, if the value is a number. The store may have any past in which loaded
records were plain. -/
theorem accepted_reference_compares {types : List TypeDef}
    (valid : (Schema.ofTypes types).validate = .ok ()) {d : TypeDef}
    (known : d ∈ (Schema.ofTypes types).types) {field : Field} (declared : field ∈ d.fields)
    (reference : field.type = .reference) {w after : World} {stage : StageId} {value : Json}
    (given : value.isNull = false)
    (accepted : w.run (field.refusal? stage value) = (none, after)) :
    (value.kind = .string ∨ value.kind = .number) ∧
    ∃ target e found, field.referencedType = some target ∧
      (Schema.ofTypes types).get? target = some e ∧
      w.store.get? (some stage) target value.toText = some found ∧
      ∀ {store : Store} {view : Option StageId} {scope : Scope} {row r c : Record}
        {source other : String}, store.Reached Store.TakesPlain →
        scope.Reads store view row source d r → r.get? field.name = some value →
        scope.Reads store view row other e c → ∀ group,
          (field.refersTo source other).eval scope (some row) group =
            if field.name = "*" then .fault (.incomparable .eq .object .string) (.bool false)
            else if value.kind = .string then ⟨.bool (c.id == found.id), []⟩
            else .fault (.incomparable .eq .number .string) (.bool false) := by
  have usable := Schema.usable_of_validate valid
  obtain ⟨kind, target, found, leads, seen⟩ := leads_of_accepted reference given accepted
  obtain ⟨named, leadsTo, listed⟩ := usable.targets d known field declared reference
  obtain rfl : target = named := Option.some.inj (leads.symm.trans leadsTo)
  obtain ⟨e, typed⟩ :=
    Schema.exists_get?_of_mem_names listed (Schema.lower_target_of_mem_fields known declared leads)
  refine ⟨kind, target, e, found, leads, typed, seen, ?_⟩
  intro store view scope row r c source other reached holds held shown group
  obtain ⟨⟨origin, column⟩, cell⟩ := cell_of_held
    (Schema.field?_of_mem_fields known declared (usable.distinct d known))
    (usable.plain d known field declared) held
  have foundId : found.id = value.toText := Store.id_of_lookup? seen
  have compared : (field.refersTo source other).eval scope (some row) group =
      Value.bool <$> Expr.evalComparison scope .eq (if field.name = "*" then .obj r.toRow else value)
        (.str c.id) := by
    rw [refersTo, Expr.eval, Expr.eval, Expr.eval, holds.evalColumn reached column,
      shown.evalColumn reached (show e.origin? "id" = some ⟨e.name, none⟩ from rfl), cell]
    rfl
  rw [compared]
  by_cases whole : field.name = "*"
  · rw [if_pos whole, if_pos whole, evalComparison_text scope rfl c.id]
    rfl
  · rw [if_neg whole, if_neg whole, evalComparison_text scope given c.id, foundId]
    rcases kind with text | number
    · rw [if_pos text, if_pos text, BEq.comm]
      rfl
    · rw [number]
      rfl

/-- An engine for users in teams. -/
def rosterEngine : Engine :=
  { schema := .ofTypes [.ofFields "users" [Field.reference "team" "teams"], .ofFields "teams" []]
    now := ⟨0, 0, 0⟩ }

/-- A world with two teams that are numbered, and a user in one of them. -/
def rosterWorld : World :=
  let teams := (Store.seed {} ⟨0, 0, 0⟩ "teams" "7" []).seed ⟨0, 0, 0⟩ "teams" "8" []
  { store := teams.seed ⟨0, 0, 0⟩ "users" "ann" [("team", .str "7")]
    now := ⟨0, 0, 0⟩
    ids := fun _ => "bob" }

/-- The users and the teams, as the sources of a joined query. -/
def rosterSources : Binding × Binding :=
  (⟨"u", .ofFields "users" [Field.reference "team" "teams"]⟩, ⟨"t", .ofFields "teams" []⟩)

/-- The names in scope where users are joined with teams. -/
def rosterScope : Scope :=
  { schema := rosterEngine.schema
    aliases := [("u", "users"), ("t", "teams")]
    now := ⟨0, 0, 0⟩ }

/-- The joined row of a user and a team. -/
def rosterRow (user team : Record) : Record :=
  { user with
    fields := Tuple.entries [(rosterSources.1, some user), (rosterSources.2, some team)] }

theorem reads_rosterRow {user team : Record}
    (isUser : user ∈ rosterWorld.store.scan none "users" none)
    (isTeam : team ∈ rosterWorld.store.scan none "teams" none) :
    rosterScope.Reads rosterWorld.store none (rosterRow user team) "u" rosterSources.1.type user ∧
      rosterScope.Reads rosterWorld.store none (rosterRow user team) "t" rosterSources.2.type
        team := by
  have binds : rosterScope.Binds [rosterSources.1, rosterSources.2] :=
    { aliases := by decide +kernel
      nonempty := List.cons_ne_nil _ _
      distinct := by decide +kernel
      known := by decide +kernel }
  have joins : Tuple.Joins rosterWorld.store none [rosterSources.1, rosterSources.2] 2
      [(rosterSources.1, some user), (rosterSources.2, some team)] (rosterRow user team) :=
    { fields := rfl
      sources := rfl
      records := by
        have users : rosterSources.1.type.name = "users" := by decide +kernel
        have teams : rosterSources.2.type.name = "teams" := by decide +kernel
        simp [users, teams, isUser, isTeam] }
  exact ⟨.joined binds joins List.mem_cons_self,
    .joined binds joins (List.mem_cons_of_mem _ List.mem_cons_self)⟩

/-- The user of the world. -/
def ann : Record := .create ⟨0, 0, 0⟩ "ann" [("team", .str "7")]

theorem accepted_reference_compares_numberedTeams :
    (rosterWorld.run ((Field.reference "team" "teams").refusal? ⟨1⟩ (.str "7"))).1 = none ∧
      ∀ team ∈ rosterWorld.store.scan none "teams" none,
        ((Field.reference "team" "teams").refersTo "u" "t").eval rosterScope
            (some (rosterRow ann team)) none = ⟨.bool (team.id == "7"), []⟩ := by
  have valid : rosterEngine.schema.validate = .ok () := by rfl
  have known : rosterSources.1.type ∈ rosterEngine.schema.types := by decide +kernel
  have declared : Field.reference "team" "teams" ∈ rosterSources.1.type.fields := by decide +kernel
  have accepted : rosterWorld.run ((Field.reference "team" "teams").refusal? ⟨1⟩ (.str "7")) =
      (none, rosterWorld) := rfl
  have empty : (Dict.keys ([] : Dict Json)).Nodup := List.nodup_nil
  have single : (Dict.keys [("team", Json.str "7")]).Nodup := List.nodup_singleton _
  have reached : rosterWorld.store.Reached Store.TakesPlain :=
    ((Store.Reached.new.seed _ _ _ empty).seed _ _ _ empty).seed _ _ _ single
  have isUser : ann ∈ rosterWorld.store.scan none "users" none := List.mem_cons_self
  obtain ⟨-, target, e, found, leads, typed, seen, compares⟩ :=
    accepted_reference_compares valid known declared rfl rfl accepted
  have named : (Field.reference "team" "teams").referencedType = some "teams" := by decide +kernel
  have declares : rosterEngine.schema.get? "teams" = some rosterSources.2.type := by decide +kernel
  obtain rfl : target = "teams" := Option.some.inj (leads.symm.trans named)
  obtain rfl : e = rosterSources.2.type := Option.some.inj (typed.symm.trans declares)
  have foundId : found.id = "7" := Store.id_of_lookup? seen
  refine ⟨congrArg Prod.fst accepted, fun team isTeam => ?_⟩
  obtain ⟨reads, shows⟩ := reads_rosterRow isUser isTeam
  have compared := compares reached reads rfl shows none
  rw [if_neg (by decide +kernel), if_pos (show (Json.str "7").kind = .string from rfl),
    foundId] at compared
  exact compared

/-- A user whose team is given as a number. -/
def numberedUser : Statement :=
  .insert (.into "users" ["team"] (.values [[.literal (.ofNat 7)]]))

/-- The users with the numbers of their teams. -/
def teamsOfUsers : Statement :=
  .select
    { projections := [⟨.ref "u" "id", none⟩, ⟨.ref "t" "id", none⟩]
      base := .ofTable "users" (some "u")
      joins := [⟨.inner, .ofTable "teams" (some "t"),
        (Field.reference "team" "teams").refersTo "u" "t"⟩] }

/-- A number is taken for the team that reads like it, and committed without an error, but then
every comparison with the identifier of a team is an error, and the user is in no team. -/
theorem numbered_reference_not_joined :
    (rosterWorld.run ((Field.reference "team" "teams").refusal? ⟨1⟩ (.ofNat 7))).1.isNone ∧
    let inserted := rosterWorld.run (rosterEngine.execute numberedUser)
    let queried := inserted.2.run (rosterEngine.execute teamsOfUsers)
    inserted.1.toOption.map (fun outcome => (outcome.committed, outcome.errors.length)) =
        some (1, 0) ∧
      queried.1.toOption.map (fun outcome => outcome.result.rows.length) = some 1 ∧
      queried.1.toOption.map (fun outcome => outcome.errors.map fun e => (e.path, e.message)) =
        some [("select.joins[0].on.(=)", "Cannot compare number with string using '='")] := by
  decide +kernel

end Field
end RecordQuery
