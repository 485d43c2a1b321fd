import RecordQuery.Proofs.Columns
import RecordQuery.Proofs.Conformity
import RecordQuery.Proofs.Loading
import Mathlib.Data.List.Perm.Subperm

/-!
The sources of a query: their types (`Select.Typed`), the names that they are bound to, and what is
read and joined of them. A join makes of each row its extensions, in order
(`Select.joinRows_value`). A query that has loaded rows has read the records of its only table, or
it has joined the records of all its sources, and the world is as before (`Select.fetched_of_run`).
-/
namespace RecordQuery

/-! ### Dictionaries of entries -/

namespace Dict
variable {α : Type}

theorem mem_insertAll {entry : String × α} {e : Dict α} :
    ∀ {d : Dict α}, entry ∈ insertAll d e → entry ∈ d ∨ entry ∈ e := by
  induction e with
  | nil => intro d member; exact .inl member
  | cons first rest ih =>
    intro d member
    rw [insertAll_cons] at member
    rcases ih member with inserted | later
    · rcases mem_insert inserted with ⟨key, value⟩ | old
      · exact .inr (Prod.ext key value ▸ List.mem_cons_self)
      · exact .inl old
    · exact .inr (List.mem_cons_of_mem first later)

theorem mem_keys_insertAll {key : String} {e : Dict α} :
    ∀ {d : Dict α}, key ∈ keys (insertAll d e) ↔ key ∈ keys d ∨ key ∈ keys e := by
  induction e with
  | nil => intro d; simp [insertAll, keys]
  | cons first rest ih =>
    intro d
    rw [insertAll_cons, ih, mem_keys_insert]
    simp only [keys, List.map_cons, List.mem_cons]
    tauto

theorem nodup_keys_insertAll {e : Dict α} :
    ∀ {d : Dict α}, (keys d).Nodup → (keys (insertAll d e)).Nodup := by
  induction e with
  | nil => intro d nodup; exact nodup
  | cons first rest ih =>
    intro d nodup
    rw [insertAll_cons]
    exact ih (nodup_keys_insert nodup first.1 first.2)

theorem get?_insertAll_of_last {key : String} {value : α} {after : Dict α}
    (last : key ∉ keys after) : ∀ before d : Dict α,
      get? (insertAll d (before ++ (key, value) :: after)) key = some value := by
  intro before
  induction before with
  | nil =>
    intro d
    rw [List.nil_append, insertAll_cons]
    -- Entries under other keys leave the value where it is.
    have kept : ∀ rest d : Dict α, key ∉ keys rest → get? (insertAll d rest) key = get? d key := by
      intro rest
      induction rest with
      | nil => intro d _; rfl
      | cons entry rest ih =>
        intro d new
        rw [keys, List.map_cons, List.mem_cons, not_or] at new
        rw [insertAll_cons, ih _ new.2, get?_insert_of_ne d entry.2 new.1]
    rw [kept after _ last, get?_insert_self]
  | cons entry before ih =>
    intro d
    rw [List.cons_append, insertAll_cons]
    exact ih _

theorem nodup_keys_ofEntries (entries : Dict α) : (keys (ofEntries entries)).Nodup :=
  nodup_keys_insertAll List.nodup_nil

theorem mem_keys_ofEntries {key : String} {entries : Dict α} :
    key ∈ keys (ofEntries entries) ↔ key ∈ keys entries := by
  refine mem_keys_insertAll.trans ?_
  simp [keys]

/-- A dictionary has only values that it was given. -/
theorem mem_ofEntries {entry : String × α} {entries : Dict α} (member : entry ∈ ofEntries entries) :
    entry ∈ entries :=
  (mem_insertAll member).resolve_left (List.not_mem_nil)

theorem get?_ofEntries_of_last {key : String} {value : α} {after : Dict α}
    (last : key ∉ keys after) (before : Dict α) :
    get? (ofEntries (before ++ (key, value) :: after)) key = some value :=
  get?_insertAll_of_last last before []

theorem ofEntries_concat (entries : Dict α) (entry : String × α) :
    ofEntries (entries ++ [entry]) = insert (ofEntries entries) entry.1 entry.2 := by
  rw [ofEntries, List.foldl_append]
  rfl

/-- A dictionary has as many entries as it was given exactly if no key was given twice. -/
theorem length_ofEntries_iff (entries : Dict α) :
    (ofEntries entries).length = entries.length ↔ (keys entries).Nodup := by
  constructor
  · intro same
    have within : List.Subperm (keys (ofEntries entries)) (keys entries) :=
      List.subperm_of_subset (nodup_keys_ofEntries entries) fun _ listed =>
        mem_keys_ofEntries.mp listed
    have counted : (keys entries).length ≤ (keys (ofEntries entries)).length := by
      simp [keys, same]
    exact (within.perm_of_length_le counted).nodup_iff.mp (nodup_keys_ofEntries entries)
  · intro nodup
    rw [ofEntries_of_nodup nodup]

end Dict

/-! ### What a join makes of a row -/

namespace Select

/-- The rows that one row and the records of the right side join to. -/
def matched (scope : Scope) (j : Join) (right : List Record) (row : Record) : List Record :=
  (right.map fun r => addEntry row j.source.name (.obj r.toRow)).filter fun joined =>
    (j.on.passes scope (some joined) none).value

/-- The rows that a join makes of one row: its matches, or a null if a left join finds none. -/
def extensions (scope : Scope) (j : Join) (right : List Record) (row : Record) : List Record :=
  if (matched scope j right row).isEmpty ∧ j.kind = .left then [addEntry row j.source.name .null]
  else matched scope j right row

section
variable (scope : Scope) (j : Join) (path : String)

theorem matchRows_value (row : Record) (right : List Record) : ∀ errors : List ValidationError,
    ((matchRows scope j path row right).run errors).1 = matched scope j right row := by
  induction right with
  | nil => intro errors; rfl
  | cons r rest ih =>
    intro errors
    rw [matchRows_cons]
    dsimp only
    rw [ih, matched, matched, List.map_cons, List.filter_cons]

theorem joinRows_value (right rows : List Record) : ∀ errors : List ValidationError,
    ((joinRows scope j path right rows).run errors).1 =
      rows.flatMap (extensions scope j right) := by
  induction rows with
  | nil => intro errors; rfl
  | cons row rest ih =>
    intro errors
    rw [joinRows_cons, List.flatMap_cons]
    dsimp only
    rw [ih, matchRows_value]
    rfl

end

/-- A join adds its own entry to a row. -/
theorem entry_of_mem_extensions {scope : Scope} {j : Join} {right : List Record}
    {row joined : Record} (member : joined ∈ extensions scope j right row) :
    ∃ entry, joined = addEntry row j.source.name entry := by
  rw [extensions] at member
  split at member
  · exact ⟨.null, List.mem_singleton.mp member⟩
  · obtain ⟨r, -, rfl⟩ := List.mem_map.mp (List.mem_filter.mp member).1
    exact ⟨_, rfl⟩

/-! ### Types and names -/

/-- The types of the sources of a query, as the schema has them. -/
structure Typed (s : Select) (schema : Schema) (base : TypeDef) (types : List TypeDef) : Prop where
  base : schema.get? s.base.table = some base
  joins : List.Forall₂ (fun j d => schema.get? j.source.table = some d) s.joins types

theorem typed_of_joinTypes {s : Select} {schema : Schema} {base : TypeDef} {types : List TypeDef}
    {errors later : List ValidationError} (known : schema.get? s.base.table = some base)
    (ran : (joinTypes schema 0 s.joins).run errors = (types, later))
    (complete : types.length = s.joins.length) : s.Typed schema base types := by
  have found : types = s.joins.filterMap fun j => schema.get? j.source.table := by
    rw [← joinTypes_value schema s.joins 0 errors, ran]
  subst found
  exact ⟨known, forall₂_filterMap (List.filterMap_length_eq_length.mp complete)⟩

section
variable {s : Select} {ctx : Context} {base : TypeDef} {types : List TypeDef}

theorem mem_keys_bindings {name : String} : name ∈ Dict.keys (s.bindings base types) ↔
    name = s.base.name ∨ ∃ entry ∈ s.joins.zip types, entry.1.source.name = name := by
  rw [bindings]
  refine Dict.mem_keys_insertAll.trans ?_
  simp [Dict.keys]

theorem bindings_ne_nil : s.bindings base types ≠ [] := by
  intro empty
  have bound : s.base.name ∈ Dict.keys (s.bindings base types) := mem_keys_bindings.mpr (.inl rfl)
  rw [empty] at bound
  cases bound

theorem types_of_bindings (typed : s.Typed ctx.schema base types) :
    ∀ entry ∈ s.bindings base types, ∃ table ∈ s.tables, ∃ d,
      ctx.schema.get? table = some d ∧ entry.2 = d.name := by
  intro entry member
  rcases Dict.mem_insertAll (d := []) member with none | listed
  · cases none
  · rcases List.mem_cons.mp listed with rfl | joined
    · exact ⟨s.base.table, List.mem_cons_self, base, typed.base, rfl⟩
    · obtain ⟨level, paired, rfl⟩ := List.mem_map.mp joined
      have inTables : level.1.source.table ∈ s.tables :=
        List.mem_cons_of_mem _ (List.mem_map_of_mem (List.of_mem_zip paired).1)
      exact ⟨_, inTables, level.2, List.forall₂_zip typed.joins paired, rfl⟩

end

end Select

/-! ### What a query has loaded -/

/-- The records that a query reads of the table of a type. -/
def Context.reads (ctx : Context) (store : Store) (d : TypeDef) : List Record :=
  (store.scan (some ctx.stage) d.name none).take ctx.limits.maxScanRows

theorem records_of_run_scanTable {w after : World} {ctx : Context} {d : TypeDef} {path : String}
    {records : List Record} {errors later : List ValidationError}
    (ran : w.run (scanTable ctx d.name path errors) = ((.ok records, later), after)) :
    records = ctx.reads w.store d ∧ after = w := by
  rw [run_scanTable] at ran
  split at ran
  · cases ran
  · cases ran
    exact ⟨rfl, rfl⟩

namespace Select

/-- The rows that joins make of given rows, one join after another. -/
def joinedRows (ctx : Context) (store : Store) : List (Join × TypeDef) → List Record → List Record
  | [], rows => rows
  | (j, d) :: rest, rows =>
    joinedRows ctx store rest (rows.flatMap (extensions ctx.scope j (ctx.reads store d)))

theorem rows_of_run_joinAll {ctx : Context} {w after : World} (levels : List (Join × TypeDef)) :
    ∀ {index : Nat} {rows joined : List Record} {errors later : List ValidationError},
      w.run (joinAll ctx index levels rows errors) = ((.ok joined, later), after) →
        joined = joinedRows ctx w.store levels rows ∧ after = w := by
  induction levels with
  | nil =>
    intro index rows joined errors later ran
    cases ran
    exact ⟨rfl, rfl⟩
  | cons level rest ih =>
    intro index rows joined errors later ran
    obtain ⟨j, d⟩ := level
    obtain ⟨right, found, between, scanned, ran⟩ := Exec.run_bind_inv ran
    obtain ⟨rfl, rfl⟩ := records_of_run_scanTable scanned
    rw [Exec.run_bind (Exec.run_log between _ found), joinRows_value] at ran
    exact ih ran

/-- What a query has loaded: the records of its only table, or the rows of its joins. -/
inductive Fetched (s : Select) (ctx : Context) (store : Store) : Context → List Record → Prop
  | records {base : TypeDef} (single : s.joins = []) (unnamed : s.base.givenName = none)
      (known : ctx.schema.get? s.base.table = some base) :
    Fetched s ctx store { ctx with aliases := [] } (ctx.reads store base)
  | joined {base : TypeDef} {types : List TypeDef}
      (several : s.joins ≠ [] ∨ s.base.givenName ≠ none) (typed : s.Typed ctx.schema base types) :
    Fetched s ctx store { ctx with aliases := s.bindings base types }
      (joinedRows { ctx with aliases := s.bindings base types } store (s.joins.zip types)
        ((ctx.reads store base).map (entryRow s.base.name)))

theorem fetched_of_run {s : Select} {ctx inner : Context} {w after : World} {rows : List Record}
    {errors later : List ValidationError}
    (ran : w.run (s.loadRows ctx errors) = ((.ok (some (inner, rows)), later), after)) :
    s.Fetched ctx w.store inner rows ∧ after = w := by
  -- Each call is taken apart in turn; a missing table or type ends the run without rows.
  rw [loadRows] at ran
  cases known : ctx.schema.get? s.base.table with
  | none =>
    rw [known] at ran
    cases ran
  | some base =>
    rw [known] at ran
    obtain ⟨types, mid, between, typedRan, chosen⟩ := Exec.run_bind_inv ran
    obtain ⟨listed, rfl⟩ := Exec.run_log_inv typedRan
    by_cases complete : types.length = s.joins.length
    · have typed := typed_of_joinTypes known listed complete
      rw [if_neg (not_not_intro complete)] at chosen
      obtain ⟨records, found, scannedWorld, scanned, loaded⟩ := Exec.run_bind_inv chosen
      obtain ⟨rfl, rfl⟩ := records_of_run_scanTable scanned
      by_cases alone : s.joins = [] ∧ s.base.givenName = none
      · rw [if_pos (by simp [alone])] at loaded
        cases loaded
        exact ⟨.records alone.1 alone.2 known, rfl⟩
      · rw [if_neg (by simpa using alone)] at loaded
        obtain ⟨joined, final, last, joinedRan, answered⟩ := Exec.run_bind_inv loaded
        obtain ⟨rfl, rfl⟩ := rows_of_run_joinAll _ joinedRan
        cases answered
        exact ⟨.joined (not_and_or.mp alone) typed, rfl⟩
    · rw [if_pos complete] at chosen
      cases chosen

end Select
end RecordQuery
