import RecordQuery.Proofs.Serializability
import Mathlib.Data.List.Dedup

/-!
What loads leave in the committed tables. A load is the only use of a store that appends records
without looking for the ones that are there, so a table lists each identifier once after loads
exactly where the loaded identifiers are different and new (`loads_listed`); elsewhere it lists one
of them twice, counts it twice and finds the later record (`loads_twice`).
-/
namespace RecordQuery

namespace Table

/-- The record that is found is the last one under its identifier. -/
theorem find?_eq (t : Table) (id : String) :
    find? t id = t.reverse.find? fun r => r.id = id := by
  induction t with
  | nil => rfl
  | cons r rest ih =>
    rw [find?, ih, List.reverse_cons, List.find?_append]
    cases found : rest.reverse.find? (fun r => r.id = id) with
    | some s => rfl
    | none => by_cases same : r.id = id <;> simp [same]

end Table

namespace Store

/-- The records that a history loads into a table, in order. -/
def loadedInto (table : String) (history : List Operation) : List Record :=
  history.flatMap fun
    | .load other records => if Text.lower other = Text.lower table then records else []
    | _ => []

/-- Loads append their records to the tables that they name. -/
theorem table_after_loads {history : List Operation} (loading : ∀ op ∈ history, op.loads = true)
    (store : Store) (table : String) :
    (store.after history).table (Text.lower table) =
      store.table (Text.lower table) ++ loadedInto table history := by
  induction history generalizing store with
  | nil => simp [after, loadedInto]
  | cons op rest ih =>
    obtain ⟨loads, loadingRest⟩ := List.forall_mem_cons.mp loading
    rw [after, ih loadingRest]
    cases op with
    | load other records =>
      by_cases same : Text.lower other = Text.lower table
      · rw [← same, perform, table_load_self]
        simp [loadedInto, same]
      · rw [perform, table_load_of_ne store records (Ne.symm same)]
        simp [loadedInto, same]
    | _ => cases loads

/-- The committed records of a table are listed once under each identifier, there are as many as
identifiers, and each of them is the one that is found. -/
structure ListsOnce (store : Store) (table : String) : Prop where
  ids : ((store.scan none table none).map Record.id).Nodup
  count : store.committedCount table = ((store.scan none table none).map Record.id).dedup.length
  found : ∀ r ∈ store.scan none table none, store.get? none table r.id = some r

/-- One of the three suffices: distinct identifiers. -/
theorem listsOnce_iff (store : Store) (table : String) :
    store.ListsOnce table ↔ Table.Distinct (store.table (Text.lower table)) := by
  have listed : store.scan none table none = store.table (Text.lower table) :=
    records_none store _
  constructor
  · intro once
    rw [Table.Distinct, ← listed]
    exact once.ids
  · intro distinct
    have ids : ((store.scan none table none).map Record.id).Nodup := by
      rw [listed]
      exact distinct
    refine ⟨ids, ?_, ?_⟩
    · rw [ids.dedup, listed, List.length_map, committedCount]
    · intro r member
      rw [listed] at member
      exact (Table.find?_eq_some_iff distinct r.id r).mpr ⟨member, rfl⟩

/-- Loads append. After any loads into tables that list each identifier once, a table lists what it
listed before and then what was loaded into it, it counts both, and under an identifier the last of
them is found. Each identifier is listed once if and only if no two loaded records share one and no
record was found under one of theirs before. -/
theorem loads_listed {store : Store} (distinct : ∀ name, Table.Distinct (store.table name))
    {history : List Operation} (loading : ∀ op ∈ history, op.loads = true) (table : String) :
    let later := store.after history
    let listed := store.scan none table none ++ loadedInto table history
    later.scan none table none = listed ∧
    later.committedCount table = listed.length ∧
    (∀ id, later.get? none table id = listed.reverse.find? fun r => r.id = id) ∧
    (later.ListsOnce table ↔ ((loadedInto table history).map Record.id).Nodup ∧
      ∀ r ∈ loadedInto table history, store.get? none table r.id = none) := by
  intro later listed
  have before : store.scan none table none = store.table (Text.lower table) :=
    records_none store _
  have loaded : later.table (Text.lower table) = listed := by
    rw [table_after_loads loading, ← before]
  refine ⟨(records_none later _).trans loaded, congrArg List.length loaded, ?_, ?_⟩
  · intro id
    rw [← Table.find?_eq, ← loaded]
    rfl
  · calc later.ListsOnce table
        ↔ Table.Distinct (later.table (Text.lower table)) := listsOnce_iff later table
      _ ↔ Table.Distinct (store.table (Text.lower table) ++ loadedInto table history) := by
          rw [table_after_loads loading]
      _ ↔ _ := Table.distinct_append (distinct _)

theorem loads_listed_twoSeeds :
    (∀ name, Table.Distinct (({} : Store).table name)) ∧
      ((({} : Store).seed ⟨0, 0, 0⟩ "users" "a" []).seed ⟨0, 0, 0⟩ "Users" "b" []).ListsOnce
        "USERS" := by
  have fresh : ∀ name, Table.Distinct (({} : Store).table name) := fun _ => Table.distinct_nil
  let history : List Operation :=
    [.load "users" [.create ⟨0, 0, 0⟩ "a" []], .load "Users" [.create ⟨0, 0, 0⟩ "b" []]]
  have loading : ∀ op ∈ history, op.loads = true := by decide
  have ids : (loadedInto "USERS" history).map Record.id = ["a", "b"] := by decide +kernel
  refine ⟨fresh, (loads_listed fresh loading "USERS").2.2.2.mpr ⟨?_, fun _ _ => rfl⟩⟩
  rw [ids]
  decide

/-- A record that is loaded twice is listed twice. -/
theorem loads_twice :
    ¬ ∀ (store : Store) (history : List Operation),
      (∀ name, Table.Distinct (store.table name)) → (∀ op ∈ history, op.loads = true) →
        ∀ table, (store.after history).ListsOnce table := by
  intro once
  let r : Record := .create ⟨0, 0, 0⟩ "u1" [("name", .str "Ann")]
  let history : List Operation := [.load "users" [r], .load "users" [r]]
  have loading : ∀ op ∈ history, op.loads = true := by decide
  have ids := (once {} history (fun _ => Table.distinct_nil) loading "users").ids
  have listed : ((after {} history).scan none "users" none).map Record.id = ["u1", "u1"] := by
    decide +kernel
  rw [listed] at ids
  exact absurd ids (by decide)

end Store
end RecordQuery
