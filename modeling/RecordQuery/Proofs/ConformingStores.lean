import RecordQuery.Proofs.Conformity
import RecordQuery.Proofs.LowerCase

/-!
Stores that conform to a schema. A stage whose writes conform, with references to what the stage
sees (`Store.StageConforms`), can be committed: the committed records conform then
(`Store.Conforms.commit`). An insertion of checked fields and an update by checked values keep the
writes of the stage conforming, and so does what others do beside the stage (`Store.Spares`), since
records are never taken away.
-/
namespace RecordQuery

open Calendar (Instant)

namespace Store

/-- The records that a view shows. -/
def presence (store : Store) (view : Option StageId) : Presence := fun table id =>
  (store.get? view table id).isSome = true

/-- The committed records of every type conform to it, with references to committed records. -/
def Conforms (schema : Schema) (store : Store) : Prop :=
  ∀ table d, schema.get? table = some d → ∀ r ∈ store.scan none table none,
    d.Admits (store.presence none) r.fields

/-- The writes of a stage conform, with references to records that the stage sees. -/
structure StageConforms (schema : Schema) (stage : StageId) (store : Store) : Prop where
  names : (Dict.keys (store.stage stage).tables).Nodup
  staged : ∀ table d, schema.get? table = some d →
    ∀ r ∈ store.staged (some stage) (Text.lower table),
      d.Admits (store.presence (some stage)) r.fields

/-- What happens beside a stage: its writes stay, and no committed record is taken away. -/
structure Spares (stage : StageId) (before after : Store) : Prop where
  own : after.stage stage = before.stage stage
  kept : ∀ table id, before.presence none table id → after.presence none table id

section
variable {schema : Schema} {stage : StageId} {store after : Store}

/-! ### What is there -/

theorem presence_view_iff (store : Store) (view : Option StageId) (table id : String) :
    store.presence view table id ↔
      ((store.staged view (Text.lower table)).find? id).isSome = true ∨
        store.presence none table id := by
  unfold presence get? lookup?
  cases (store.staged view (Text.lower table)).find? id <;> simp [Store.staged, Table.find?]

/-- A stage sees the committed records. -/
theorem presence_view (store : Store) (view : Option StageId) (table id : String)
    (there : store.presence none table id) : store.presence view table id :=
  (presence_view_iff store view table id).mpr (.inr there)

theorem Spares.refl (stage : StageId) (store : Store) : Spares stage store store :=
  ⟨rfl, fun _ _ there => there⟩

theorem Spares.trans {last : Store} (first : Spares stage store after)
    (second : Spares stage after last) : Spares stage store last :=
  ⟨second.own.trans first.own,
    fun table id there => second.kept table id (first.kept table id there)⟩

theorem Spares.staged (spares : Spares stage store after) (name : String) :
    after.staged (some stage) name = store.staged (some stage) name := by
  rw [Store.staged, spares.own, Store.staged]

theorem Spares.presence (spares : Spares stage store after) (table id : String)
    (there : store.presence (some stage) table id) : after.presence (some stage) table id := by
  rw [presence_view_iff] at there ⊢
  rw [spares.staged]
  exact there.imp_right (spares.kept table id)

theorem StageConforms.spare (conforms : store.StageConforms schema stage)
    (spares : Spares stage store after) : after.StageConforms schema stage where
  names := by rw [spares.own]; exact conforms.names
  staged table d known r member := by
    rw [spares.staged] at member
    exact (conforms.staged table d known r member).mono spares.presence

theorem stageConforms_empty (empty : store.stage stage = {}) :
    store.StageConforms schema stage where
  names := by rw [empty]; exact List.nodup_nil
  staged table d known r member := by
    rw [Store.staged, empty] at member
    cases member

/-! ### Writing -/

theorem presence_write (name : String) (r : Record) (table id : String)
    (there : store.presence (some stage) table id) :
    (store.write stage name r).presence (some stage) table id := by
  rw [presence_view_iff] at there ⊢
  by_cases here : Text.lower table = name
  · rw [here, staged_write_self]
    by_cases same : id = r.id
    · left; rw [same, Table.find?_upsert_self]; rfl
    · rw [Table.find?_upsert_of_ne _ same, ← here]; exact there
  · rw [staged_write_of_ne store stage r here]; exact there

/-- A conforming write keeps the writes of the stage conforming. -/
theorem StageConforms.write (conforms : store.StageConforms schema stage) {name : String}
    {r : Record} (admits : ∀ table d, schema.get? table = some d → Text.lower table = name →
      d.Admits (store.presence (some stage)) r.fields) :
    (store.write stage name r).StageConforms schema stage where
  names := by
    rw [stage_write_self]
    exact Dict.nodup_keys_insert conforms.names name _
  staged table d known s member := by
    suffices before : d.Admits (store.presence (some stage)) s.fields from
      before.mono (presence_write name r)
    by_cases here : Text.lower table = name
    · rw [here, staged_write_self] at member
      rcases Table.mem_upsert member with rfl | before
      · exact admits table d known here
      · exact conforms.staged table d known s (here ▸ before)
    · rw [staged_write_of_ne store stage r here] at member
      exact conforms.staged table d known s member

/-- In a table with a type no other type is asked for. -/
theorem eq_of_get? {table other : String} {d e : TypeDef} (known : schema.get? table = some d)
    (knownOther : schema.get? other = some e) (same : Text.lower other = Text.lower d.name) :
    e = d := by
  rw [Schema.get?_congr (same.trans (Schema.lower_name_of_get? known)) schema, known] at knownOther
  exact (Option.some.inj knownOther).symm

theorem StageConforms.insert (conforms : store.StageConforms schema stage) (usable : schema.Usable)
    {table : String} {d : TypeDef} (known : schema.get? table = some d) {fields : Dict Json}
    (admits : d.Admits (store.presence (some stage)) fields) (now : Instant) (id : String) :
    (store.insert now stage d.name id fields).2.StageConforms schema stage := by
  have plain : ∀ name ∈ Dict.keys fields, isSystemColumn name = false := by
    intro name member
    obtain ⟨entry, listed, rfl⟩ := List.mem_map.mp member
    obtain ⟨field, declared, named, -⟩ := admits.declared entry.1 entry.2 listed
    exact named ▸ usable.plain d (Schema.mem_of_get? known) field declared
  rcases store.insert_cases now stage d.name id fields with ⟨failure, refused⟩ | ⟨-, written⟩
  · rw [refused]; exact conforms
  · rw [written]
    refine conforms.write fun other e knownOther same => ?_
    rw [eq_of_get? known knownOther same, Record.create, Record.stripSystem_eq plain]
    exact admits

/-- What a stage sees conforms: its own versions and the committed records. -/
theorem StageConforms.admits_of_lookup? (conforms : store.StageConforms schema stage)
    (settled : store.Conforms schema) {table id : String} {d : TypeDef} {r : Record}
    (known : schema.get? table = some d)
    (found : store.lookup? (some stage) (Text.lower table) id = some r) :
    d.Admits (store.presence (some stage)) r.fields := by
  rw [lookup?] at found
  cases own : (store.staged (some stage) (Text.lower table)).find? id with
  | some s =>
    rw [own] at found
    obtain rfl := Option.some.inj found
    exact conforms.staged table d known s (Table.mem_of_find? own).1
  | none =>
    rw [own] at found
    have listed : r ∈ store.scan none table none := by
      rw [scan, records_none]
      exact (Table.mem_of_find? found).1
    exact (settled table d known r listed).mono (presence_view store (some stage))

theorem StageConforms.update (conforms : store.StageConforms schema stage) (usable : schema.Usable)
    (settled : store.Conforms schema) {table : String} {d : TypeDef}
    (known : schema.get? table = some d) {changes : Dict Json}
    (collects : d.Collects (store.presence (some stage)) changes) (now : Instant) (id : String) :
    (store.update now stage d.name id changes).2.StageConforms schema stage := by
  rcases store.update_cases now stage d.name id changes with ⟨failure, refused⟩ | ⟨r, seen, written⟩
  · rw [refused]; exact conforms
  · rw [written]
    rw [Schema.lower_name_of_get? known] at seen
    have before := conforms.admits_of_lookup? settled known seen
    refine conforms.write fun other e knownOther same => ?_
    rw [eq_of_get? known knownOther same]
    exact before.overlay (usable.distinct d (Schema.mem_of_get? known)) collects

/-! ### Committing -/

/-- Conforming depends on the committed records only. -/
theorem Conforms.congr (settled : store.Conforms schema)
    (same : after.committed = store.committed) : after.Conforms schema := by
  have there : after.presence none = store.presence none := by
    funext table id
    rw [presence, presence, get?_congr same]
  intro table d known r member
  rw [scan_congr same] at member
  rw [there]
  exact settled table d known r member

/-- The committed records after a commit are those that the stage saw. -/
theorem presence_commit (names : (Dict.keys (store.stage stage).tables).Nodup) :
    (store.commit stage).2.presence none = store.presence (some stage) := by
  funext table id
  unfold presence get? lookup?
  rw [table_commit names, Table.find?_upsertAll]
  cases (store.staged (some stage) (Text.lower table)).find? id <;> rfl

/-- The commit of a stage whose writes conform leaves conforming committed records. -/
theorem Conforms.commit (settled : store.Conforms schema)
    (conforms : store.StageConforms schema stage) : (store.commit stage).2.Conforms schema := by
  intro table d known r member
  rw [presence_commit conforms.names]
  rw [scan, records_none, table_commit conforms.names] at member
  rcases Table.mem_upsertAll member with written | before
  · exact conforms.staged table d known r written
  · have listed : r ∈ store.scan none table none := by rwa [scan, records_none]
    exact (settled table d known r listed).mono (presence_view store (some stage))

end

end Store
end RecordQuery
