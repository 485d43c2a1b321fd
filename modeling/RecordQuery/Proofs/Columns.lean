import RecordQuery.Proofs.LowerCase
import RecordQuery.Proofs.Observations
import RecordQuery.Proofs.Evaluation

/-!
What a column reads. A column is looked up in the type that its source resolves to, and read from
the row only if the type declares it (`Expr.evalColumn_eq`). A record in which the store's own
columns are no fields reads the same directly and through its row (`Record.Plain.get?_toRow`), so an
entry of a joined row that was filled from a record reads as the record does
(`Record.Plain.readEntry`).
-/
namespace RecordQuery

/-! ### Dictionaries -/

namespace Dict
variable {α : Type}

theorem get?_map {β : Type} (f : β → String) (g : β → α) (items : List β) (key : String) :
    get? (items.map fun b => (f b, g b)) key = (items.find? (f · == key)).map g := by
  induction items with
  | nil => rfl
  | cons b rest ih =>
    rw [List.map_cons, get?, ih]
    by_cases same : f b = key
    · rw [if_pos same, List.find?_cons_of_pos (by simpa using same)]
      rfl
    · rw [if_neg same, List.find?_cons_of_neg (by simpa using same)]

theorem insert_of_not_mem {d : Dict α} {key : String} (new : key ∉ keys d) (value : α) :
    insert d key value = d ++ [(key, value)] := by
  induction d with
  | nil => rfl
  | cons entry rest ih =>
    rw [keys, List.map_cons, List.mem_cons, not_or] at new
    rw [insert, if_neg (Ne.symm new.1), ih new.2, List.cons_append]

theorem insertAll_cons (d : Dict α) (entry : String × α) (rest : Dict α) :
    insertAll d (entry :: rest) = insertAll (insert d entry.1 entry.2) rest := rfl

/-- Entries without a repeated key are a dictionary as they stand. -/
theorem insertAll_of_nodup {e : Dict α} (nodup : (keys e).Nodup) :
    ∀ d : Dict α, (∀ key ∈ keys e, key ∉ keys d) → insertAll d e = d ++ e := by
  induction e with
  | nil => intro d _; rw [List.append_nil]; rfl
  | cons entry rest ih =>
    intro d new
    rw [keys, List.map_cons, List.nodup_cons] at nodup
    have first := insert_of_not_mem (new entry.1 (by simp [keys])) entry.2
    have later : ∀ key ∈ keys rest, key ∉ keys (d ++ [entry]) := by
      intro key listed known
      rw [keys, List.map_append, List.mem_append] at known
      rcases known with known | known
      · exact new key (List.mem_cons_of_mem _ listed) known
      · obtain rfl : key = entry.1 := by simpa using known
        exact nodup.1 listed
    rw [insertAll_cons, first, ih nodup.2 _ later, List.append_assoc]
    rfl

theorem ofEntries_of_nodup {entries : Dict α} (nodup : (keys entries).Nodup) :
    ofEntries entries = entries := insertAll_of_nodup nodup [] fun _ _ => by simp [keys]

theorem get?_insertAll {e : Dict α} (nodup : (keys e).Nodup) (key : String) :
    ∀ d : Dict α, get? (insertAll d e) key = (get? e key).or (get? d key) := by
  induction e with
  | nil => intro d; rfl
  | cons entry rest ih =>
    intro d
    rw [keys, List.map_cons, List.nodup_cons] at nodup
    rw [insertAll_cons, ih nodup.2, get?]
    split
    · rename_i same
      subst same
      have last : get? rest entry.1 = none := (get?_eq_none_iff rest entry.1).mpr nodup.1
      rw [last, get?_insert_self]
      rfl
    · rename_i ne
      rw [get?_insert_of_ne d entry.2 (Ne.symm ne)]

end Dict

/-! ### Records and their rows -/

namespace Record

/-- A record as users see it: no field occurs twice, and none has the name of a column that the
store maintains. -/
structure Plain (r : Record) : Prop where
  distinct : (Dict.keys r.fields).Nodup
  user : ∀ name ∈ Dict.keys r.fields, isSystemColumn name = false

instance (r : Record) : Decidable r.Plain :=
  decidable_of_iff
    ((Dict.keys r.fields).Nodup ∧ ∀ name ∈ Dict.keys r.fields, isSystemColumn name = false)
    ⟨fun plain => ⟨plain.1, plain.2⟩, fun plain => ⟨plain.distinct, plain.user⟩⟩

/-- What a column of a record holds; the column `*` is the whole row. -/
def cell (r : Record) (column : String) : Json :=
  if column = "*" then .obj r.toRow else (r.get? column).getD .null

/-- What a column of an entry of a joined row holds; null where the entry is no row. -/
def readEntry (entry : Option Json) (column : String) : Json :=
  match entry with
  | some (.obj row) => if column = "*" then .obj row else (Dict.get? row column).getD .null
  | _ => .null

theorem Plain.get?_toRow {r : Record} (plain : r.Plain) (column : String) :
    Dict.get? r.toRow column = r.get? column := by
  rw [toRow, Dict.get?_insertAll plain.distinct, get?]
  have hidden (system : isSystemColumn column = true) : Dict.get? r.fields column = none := by
    refine (Dict.get?_eq_none_iff r.fields column).mpr fun listed => ?_
    rw [plain.user column listed] at system
    cases system
  by_cases isId : column = "id"
  · rw [hidden (by rw [isId]; rfl), isId]
    rfl
  · by_cases isCreated : column = "created"
    · rw [hidden (by rw [isCreated]; rfl), isCreated]
      rfl
    · by_cases isUpdated : column = "updated"
      · rw [hidden (by rw [isUpdated]; rfl), isUpdated]
        rfl
      · simp [Dict.get?, Ne.symm isId, Ne.symm isCreated, Ne.symm isUpdated, isId, isCreated,
          isUpdated]

/-- The row of a record lists the columns of the store and then the fields as they stand. -/
theorem Plain.toRow_eq {r : Record} (plain : r.Plain) :
    r.toRow = [("id", .str r.id), ("created", .str r.created.rowText),
      ("updated", .str r.updated.rowText)] ++ r.fields := by
  refine Dict.insertAll_of_nodup plain.distinct _ fun name listed system => ?_
  have maintained : isSystemColumn name = true := List.contains_iff_mem.mpr system
  rw [plain.user name listed] at maintained
  cases maintained

theorem Plain.readEntry {r : Record} (plain : r.Plain) (column : String) :
    readEntry (some (.obj r.toRow)) column = r.cell column := by
  rw [Record.readEntry, cell, plain.get?_toRow]

end Record

/-! ### Columns of a type -/

/-- Where a column of a type is read from, if the type has it: every type has the columns of the
store and the whole row. -/
def TypeDef.origin? (d : TypeDef) (column : String) : Option Origin :=
  if column = "*" ∨ isSystemColumn column then some ⟨d.name, none⟩
  else (d.field? column).map fun field => ⟨d.name, some field⟩

namespace Scope

/-- A name refers to a type, and not to one of several sources of that type. -/
structure Refers (scope : Scope) (source : String) (d : TypeDef) : Prop where
  resolves : scope.resolve? source = some d
  unambiguous : Dict.hasKey scope.aliases source = true ∨ (scope.aliasesOf source).length ≤ 1

theorem length_aliasesOf (scope : Scope) (typeName : String) :
    (scope.aliasesOf typeName).length = (scope.aliases.filter (·.2 == typeName)).length := by
  rw [aliasesOf, List.length_mergeSort, List.length_map]

end Scope

namespace Expr

theorem resolveColumn_eq {scope : Scope} {source : String} {d : TypeDef}
    (refers : scope.Refers source d) (column : String) :
    resolveColumn scope source column = match d.origin? column with
      | some origin => .ok origin
      | none => .error (.unknownColumn source column d.name d.availableColumns) := by
  have names : ¬ 1 < (if Dict.hasKey scope.aliases source then []
      else scope.aliasesOf source).length := by
    rcases refers.unambiguous with named | few
    · simp [named]
    · split
      · simp
      · exact Nat.not_lt.mpr few
  rw [resolveColumn, if_neg names, refers.resolves, TypeDef.origin?]
  by_cases everywhere : column = "*" ∨ isSystemColumn column = true
  · simp [everywhere]
  · cases found : d.field? column <;> simp [everywhere, found]

/-- A column is read from the row if the type of its source has it, and is null otherwise. -/
theorem evalColumn_eq {scope : Scope} {source : String} {d : TypeDef}
    (refers : scope.Refers source d) (row : Option Record) (column : String) :
    evalColumn scope row source column = match d.origin? column with
      | some origin => ⟨⟨(row.map (readColumn scope · source column)).getD .null, some origin⟩, []⟩
      | none => .fault (.unknownColumn source column d.name d.availableColumns) .null := by
  rw [evalColumn, resolveColumn_eq refers]
  cases d.origin? column with
  | none => rfl
  | some origin => cases row <;> rfl

theorem readColumn_plain {scope : Scope} (plain : scope.aliases = []) (row : Record)
    (source column : String) : readColumn scope row source column = row.cell column := by
  simp [readColumn, Record.cell, Scope.inJoin, plain]

/-- Without names for sources, a column is the record's own, whatever type its source has. -/
theorem evalColumn_plain {scope : Scope} (plain : scope.aliases = []) {source : String}
    {d : TypeDef} (resolves : scope.resolve? source = some d) (row : Record) (column : String) :
    evalColumn scope (some row) source column = match d.origin? column with
      | some origin => ⟨⟨row.cell column, some origin⟩, []⟩
      | none => .fault (.unknownColumn source column d.name d.availableColumns) .null := by
  have refers : scope.Refers source d := by
    refine ⟨resolves, .inr ?_⟩
    rw [Scope.length_aliasesOf, plain]
    exact Nat.zero_le 1
  rw [evalColumn_eq refers]
  cases d.origin? column with
  | none => rfl
  | some origin => rw [Option.map_some, Option.getD_some, readColumn_plain plain]

theorem readColumn_joined {scope : Scope} (joined : scope.aliases ≠ []) (row : Record)
    (source column : String) :
    readColumn scope row source column =
      Record.readEntry ( joinedEntry? scope row source) column := by
  have inJoin : scope.inJoin = true := by simpa [Scope.inJoin] using joined
  rw [readColumn, if_pos inJoin]
  cases joinedEntry? scope row source with
  | none => rfl
  | some entry => cases entry <;> rfl

end Expr
end RecordQuery
