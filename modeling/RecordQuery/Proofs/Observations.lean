import RecordQuery.Store.Script
import RecordQuery.Proofs.Overlay

/-!
What each operation of a store does, seen through the committed tables (`Store.table`) and the
stages (`Store.stage`). All later proofs about stores go through these equations. An insertion or an
update refuses and changes nothing, or it writes one record (`insert_cases`, `update_cases`); the
commit puts the writes of its stage into their places in every table (`table_commit`).
-/
namespace RecordQuery

open Calendar (Instant)

/-! ### Dictionaries -/

namespace Dict
variable {α : Type}

theorem get?_eq_none_iff (d : Dict α) (key : String) : get? d key = none ↔ key ∉ keys d := by
  induction d with
  | nil => simp [keys]
  | cons entry rest ih =>
    obtain ⟨k, v⟩ := entry
    by_cases same : k = key
    · simp [get?, keys, same]
    · simpa [get?, keys, same, Ne.symm same] using ih

theorem mem_keys_insert (d : Dict α) (key : String) (value : α) (other : String) :
    other ∈ keys (insert d key value) ↔ other = key ∨ other ∈ keys d := by
  induction d with
  | nil => simp [insert, keys]
  | cons entry rest ih =>
    obtain ⟨k, v⟩ := entry
    by_cases same : k = key
    · simp [insert, keys, same]
    · simp only [keys] at ih
      simp only [insert, keys, same, ↓reduceIte, List.map_cons, List.mem_cons, ih]
      tauto

theorem nodup_keys_insert {d : Dict α} (nodup : (keys d).Nodup) (key : String) (value : α) :
    (keys (insert d key value)).Nodup := by
  induction d with
  | nil => simp [insert, keys]
  | cons entry rest ih =>
    obtain ⟨k, v⟩ := entry
    obtain ⟨new, nodupRest⟩ := List.nodup_cons.mp nodup
    by_cases same : k = key
    · rw [insert, if_pos same]; exact nodup
    · rw [insert, if_neg same]
      refine List.nodup_cons.mpr ⟨?_, ih nodupRest⟩
      intro member
      rcases (mem_keys_insert rest key value k).mp member with equal | below
      · exact same equal
      · exact new below

end Dict

/-- Tables whose records are put into the places of tables of the same name, one table after
another: each name gets its own records. -/
theorem get?_upsertTables {writes : Dict Table} (nodup : (Dict.keys writes).Nodup)
    (tables : Dict Table) (name : String) :
    (Dict.get? (writes.foldl (fun tables entry =>
        Dict.insert tables entry.1 (Table.upsertAll ((Dict.get? tables entry.1).getD []) entry.2))
      tables) name).getD [] =
      Table.upsertAll ((Dict.get? tables name).getD []) ((Dict.get? writes name).getD []) := by
  induction writes generalizing tables with
  | nil => rfl
  | cons entry rest ih =>
    obtain ⟨key, records⟩ := entry
    obtain ⟨new, nodupRest⟩ := List.nodup_cons.mp nodup
    rw [List.foldl_cons, ih nodupRest]
    by_cases same : name = key
    · subst same
      have absent := (Dict.get?_eq_none_iff rest name).mpr new
      simp [Dict.get?_insert_self, Dict.get?, absent, Table.upsertAll]
    · simp [Dict.get?_insert_of_ne _ _ same, Dict.get?, Ne.symm same]

namespace Store

/-! ### Stages -/

theorem lookup_filter_self (stages : List (StageId × Stage)) (id : StageId) :
    (stages.filter (·.1 != id)).lookup id = none := by
  rw [List.lookup_eq_none_iff]
  intro entry member
  have kept := (List.mem_filter.mp member).2
  rw [bne_iff_ne] at kept ⊢
  exact Ne.symm kept

theorem lookup_filter_ne (stages : List (StageId × Stage)) {id other : StageId} (ne : other ≠ id) :
    (stages.filter (·.1 != id)).lookup other = stages.lookup other := by
  induction stages with
  | nil => rfl
  | cons entry rest ih =>
    obtain ⟨key, stage⟩ := entry
    by_cases same : key = id
    · subst same
      simp [ih, List.lookup_cons, beq_false_of_ne ne]
    · simp [same, List.lookup_cons, ih]

theorem stage_setStage_self (store : Store) (id : StageId) (stage : Stage) :
    (store.setStage id stage).stage id = stage := by
  simp [setStage, Store.stage]

theorem stage_setStage_of_ne (store : Store) {id other : StageId} (stage : Stage)
    (ne : other ≠ id) : (store.setStage id stage).stage other = store.stage other := by
  simp [setStage, Store.stage, List.lookup_cons, beq_false_of_ne ne, lookup_filter_ne _ ne]

theorem stage_dropStage_self (store : Store) (id : StageId) :
    (store.dropStage id).stage id = {} := by
  simp [dropStage, Store.stage, lookup_filter_self]

theorem stage_dropStage_of_ne (store : Store) {id other : StageId} (ne : other ≠ id) :
    (store.dropStage id).stage other = store.stage other := by
  simp [dropStage, Store.stage, lookup_filter_ne _ ne]

/-! ### The committed records -/

@[simp] theorem records_none (store : Store) (name : String) :
    store.records none name = store.table name := Table.overlaid_nil _

theorem scan_congr {a b : Store} (same : a.committed = b.committed) (table : String)
    (limit : Option Nat) : a.scan none table limit = b.scan none table limit := by
  simp only [scan, records_none, Store.table, same]

theorem get?_congr {a b : Store} (same : a.committed = b.committed) (table id : String) :
    a.get? none table id = b.get? none table id := by
  simp only [get?, lookup?, staged, Store.table, same]

theorem id_of_lookup? {store : Store} {view : Option StageId} {name id : String} {r : Record}
    (seen : store.lookup? view name id = some r) : r.id = id := by
  rw [lookup?] at seen
  split at seen
  · rename_i own found
    obtain rfl := Option.some.inj seen
    exact (Table.mem_of_find? found).2
  · exact (Table.mem_of_find? seen).2

/-! ### Writes -/

theorem stage_write_self (store : Store) (id : StageId) (name : String) (r : Record) :
    (store.write id name r).stage id =
      { tables := Dict.insert (store.stage id).tables name (((store.stage id).table name).upsert r)
        writes := (store.stage id).writes + 1 } :=
  stage_setStage_self store id _

theorem stage_write_of_ne (store : Store) {id other : StageId} (name : String) (r : Record)
    (ne : other ≠ id) : (store.write id name r).stage other = store.stage other :=
  stage_setStage_of_ne store _ ne

/-- The table that a write goes to. -/
theorem staged_write_self (store : Store) (id : StageId) (name : String) (r : Record) :
    (store.write id name r).staged (some id) name = (store.staged (some id) name).upsert r := by
  simp [staged, stage_write_self, Stage.table, Dict.get?_insert_self]

/-- The tables that a write does not go to. -/
theorem staged_write_of_ne (store : Store) (id : StageId) {name other : String} (r : Record)
    (ne : other ≠ name) :
    (store.write id name r).staged (some id) other = store.staged (some id) other := by
  simp [staged, stage_write_self, Stage.table, Dict.get?_insert_of_ne _ _ ne]

/-- The record that a stage has written last is the one that it finds. -/
theorem lookup?_write_self (store : Store) (stage : StageId) (name : String) (r : Record) :
    (store.write stage name r).lookup? (some stage) name r.id = some r := by
  rw [lookup?, staged_write_self, Table.find?_upsert_self]

theorem lookup?_write_of_ne {store : Store} {stage : StageId} {name id : String} {r : Record}
    (ne : id ≠ r.id) : (store.write stage name r).lookup? (some stage) name id =
      store.lookup? (some stage) name id := by
  rw [lookup?, staged_write_self, Table.find?_upsert_of_ne _ ne]
  rfl

/-- A write shows in the table that the stage reads in the places of its record. -/
theorem records_write_self {store : Store} {id : StageId} {name : String}
    (distinct : Table.Distinct
      ((store.staged (some id) name).filter fun r => ((store.table name).find? r.id).isNone))
    (r : Record) : (store.write id name r).records (some id) name =
      Table.place (store.records (some id) name) r := by
  rw [records, staged_write_self]
  exact Table.overlaid_upsert distinct r

/-- A write does not give a stage a second table of one name. -/
theorem nodup_names_write {store : Store} {other : StageId}
    (names : (Dict.keys (store.stage other).tables).Nodup) (id : StageId) (name : String)
    (r : Record) : (Dict.keys ((store.write id name r).stage other).tables).Nodup := by
  by_cases same : other = id
  · subst same
    rw [stage_write_self]
    exact Dict.nodup_keys_insert names name _
  · rwa [stage_write_of_ne store name r same]

/-- An insertion refuses and changes nothing, or it writes the new record. -/
theorem insert_cases (store : Store) (now : Instant) (stage : StageId) (table id : String)
    (fields : Dict Json) :
    (∃ failure, store.insert now stage table id fields = (.error failure, store)) ∨
      (store.lookup? (some stage) (Text.lower table) id = none ∧
        store.insert now stage table id fields = (.ok (.create now id fields),
          store.write stage (Text.lower table) (.create now id fields))) := by
  cases found : store.lookup? (some stage) (Text.lower table) id with
  | some r => left; simp [insert, found]
  | none => exact .inr ⟨rfl, by simp only [insert, found]⟩

/-- An update refuses and changes nothing, or it writes the changed version of the record that the
stage sees. -/
theorem update_cases (store : Store) (now : Instant) (stage : StageId) (table id : String)
    (fields : Dict Json) :
    (∃ failure, store.update now stage table id fields = (.error failure, store)) ∨
      ∃ r, store.lookup? (some stage) (Text.lower table) id = some r ∧
        store.update now stage table id fields = (.ok (r.apply now fields),
          store.write stage (Text.lower table) (r.apply now fields)) := by
  cases found : store.lookup? (some stage) (Text.lower table) id with
  | none => left; simp [update, found]
  | some r => exact .inr ⟨r, rfl, by simp only [update, found]⟩

/-! ### Loading -/

theorem table_load_self (store : Store) (table : String) (records : List Record) :
    (store.load table records).table (Text.lower table) =
      store.table (Text.lower table) ++ records := by
  simp [load, Store.table, Dict.get?_insert_self]

theorem table_load_of_ne (store : Store) {table name : String} (records : List Record)
    (ne : name ≠ Text.lower table) : (store.load table records).table name = store.table name := by
  simp [load, Store.table, Dict.get?_insert_of_ne _ _ ne]

/-! ### The ends of a stage -/

theorem stage_commit_self (store : Store) (id : StageId) : (store.commit id).2.stage id = {} :=
  stage_dropStage_self store id

theorem stage_commit_of_ne (store : Store) {id other : StageId} (ne : other ≠ id) :
    (store.commit id).2.stage other = store.stage other :=
  stage_dropStage_of_ne store ne

/-- Where a stage has ended, every stage holds nothing or what it held before. -/
theorem stage_of_ended {store after : Store} {id : StageId} (self : after.stage id = {})
    (others : ∀ other, other ≠ id → after.stage other = store.stage other) (other : StageId) :
    after.stage other = {} ∨ after.stage other = store.stage other := by
  by_cases same : other = id
  · exact .inl (same ▸ self)
  · exact .inr (others other same)

/-- The commit puts the writes of its stage into their places in every table. -/
theorem table_commit {store : Store} {id : StageId}
    (nodup : (Dict.keys (store.stage id).tables).Nodup) (name : String) :
    (store.commit id).2.table name =
      Table.upsertAll (store.table name) (store.staged (some id) name) :=
  get?_upsertTables nodup store.committed name

/-- The commit of a stage without writes changes no table. -/
theorem committed_commit_of_empty {store : Store} {id : StageId} (empty : store.stage id = {}) :
    (store.commit id).2.committed = store.committed := by
  simp [commit, empty]

end Store
end RecordQuery
