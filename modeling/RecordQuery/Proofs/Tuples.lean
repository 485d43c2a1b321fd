import RecordQuery.Proofs.Columns

/-!
Joined rows as tuples of records. A joined row shows a tuple if its entries are the rows of the
records, each under the name of its source (`Shows`). A column that refers to one of the sources
that the tuple has reads the record of that source (`Shows.evalColumn`): by the name of the source,
or by the name of a type that is no source's name and belongs to one source only.
-/
namespace RecordQuery

open RecordQuery.Expr (evalColumn joinedEntry? resolveColumn readColumn)

/-- A source of a joined query: the name it goes by, and its type. -/
structure Binding where
  name : String
  type : TypeDef
  deriving DecidableEq

/-- What a row is joined from: for each source its record, or none where a left join found no
match. -/
abbrev Tuple := List (Binding × Option Record)

namespace Tuple

/-- The entry that a name refers to: that of the source of this name, or else that of the only
source whose type has this name. -/
def source? (t : Tuple) (source : String) : Option (Binding × Option Record) :=
  match t.find? (·.1.name == source) with
  | some entry => some entry
  | none =>
    match t.filter (·.1.type.name == source) with
    | [entry] => some entry
    | _ => none

/-- What a column of a source holds: null if the source has no record or its type no such column. -/
def read (t : Tuple) (source column : String) : Json :=
  match t.source? source with
  | some (b, some r) => if (b.type.origin? column).isSome then r.cell column else .null
  | _ => .null

/-- Columns are read from tuples. -/
def reader : Expr.ColumnReader Tuple := fun t source column =>
  return .of ((t.map (·.read source column)).getD .null)

/-- The entry of a joined row for the record of a source. -/
def shown (r : Option Record) : Json := (r.map fun r => .obj r.toRow).getD .null

/-- The entries of the joined row of a tuple. -/
def entries (t : Tuple) : Dict Json := t.map fun entry => (entry.1.name, shown entry.2)

theorem get?_entries (t : Tuple) (name : String) :
    Dict.get? t.entries name = (t.find? (·.1.name == name)).map (shown ·.2) :=
  Dict.get?_map _ _ t name

end Tuple

/-- A reference is to one of the first `count` sources: by the name of one of them, or by a type
name that is no source's name, where only one source has this type. -/
def RefersWithin (bs : List Binding) (count : Nat) (source : String) : Prop :=
  source ∈ (bs.take count).map Binding.name ∨
    source ∉ bs.map Binding.name ∧ ∃ b ∈ bs.take count, bs.filter (·.type.name == source) = [b]

instance (bs : List Binding) (count : Nat) (source : String) :
    Decidable (RefersWithin bs count source) := inferInstanceAs (Decidable (_ ∨ _))

/-- The scope of a query that joins the given sources. -/
structure Scope.Binds (scope : Scope) (bs : List Binding) : Prop where
  aliases : scope.aliases = bs.map fun b => (b.name, b.type.name)
  nonempty : bs ≠ []
  distinct : (bs.map Binding.name).Nodup
  known : ∀ b ∈ bs, scope.schema.get? b.type.name = some b.type

/-- A joined row has the entries of a tuple over the first `count` sources. -/
structure Shows (bs : List Binding) (count : Nat) (row : Record) (t : Tuple) : Prop where
  fields : row.fields = t.entries
  sources : t.map Prod.fst = bs.take count
  plain : ∀ entry ∈ t, ∀ r, entry.2 = some r → r.Plain

theorem Scope.Binds.get?_aliases {scope : Scope} {bs : List Binding} (binds : scope.Binds bs)
    (source : String) :
    Dict.get? scope.aliases source = (bs.find? (·.name == source)).map (·.type.name) := by
  rw [binds.aliases]
  exact Dict.get?_map _ _ bs source

/-- A name that no source has is that of a type, if of anything. -/
theorem Scope.Binds.get?_aliases_of_not_mem {scope : Scope} {bs : List Binding}
    (binds : scope.Binds bs) {source : String} (unnamed : source ∉ bs.map Binding.name) :
    Dict.get? scope.aliases source = none := by
  have missing : bs.find? (·.name == source) = none := by
    rw [List.find?_eq_none]
    intro b member same
    exact unnamed (List.mem_map.mpr ⟨b, member, by simpa using same⟩)
  rw [binds.get?_aliases, missing]
  rfl

theorem Scope.Binds.length_aliasesOf {scope : Scope} {bs : List Binding} (binds : scope.Binds bs)
    (source : String) :
    (scope.aliasesOf source).length = (bs.filter (·.type.name == source)).length := by
  rw [Scope.length_aliasesOf, binds.aliases, List.filter_map, List.length_map]
  rfl

theorem Scope.Binds.joined {scope : Scope} {bs : List Binding} (binds : scope.Binds bs) :
    scope.aliases ≠ [] := by
  rw [binds.aliases]
  simpa using binds.nonempty

namespace Shows
variable {scope : Scope} {bs : List Binding} {count : Nat} {row : Record} {t : Tuple}

/-- Where a name refers to an entry of the tuple, the joined row reads what the tuple does. -/
theorem evalColumn_entry (shows : Shows bs count row t) (binds : scope.Binds bs) {source : String}
    {entry : Binding × Option Record} (refers : scope.Refers source entry.1.type)
    (inRow : joinedEntry? scope row source = some (Tuple.shown entry.2))
    (inTuple : t.source? source = some entry) (member : entry ∈ t) (column : String) :
    (evalColumn scope (some row) source column).value.raw = t.read source column := by
  obtain ⟨b, r?⟩ := entry
  have value : readColumn scope row source column =
      Record.readEntry (some (Tuple.shown r?)) column := by
    rw [Expr.readColumn_joined binds.joined, inRow]
  rw [Expr.evalColumn_eq refers, Tuple.read, inTuple]
  cases r? with
  | none =>
    cases b.type.origin? column with
    | none => rfl
    | some origin => exact value
  | some r =>
    have plain : r.Plain := shows.plain _ member r rfl
    cases found : b.type.origin? column with
    | none => simp [found, Reported.fault, Value.null, Value.of]
    | some origin =>
      rw [Tuple.shown, Option.map_some, Option.getD_some, plain.readEntry] at value
      simp [found, value]

theorem names (shows : Shows bs count row t) :
    t.map (fun entry => entry.1.name) = (bs.take count).map Binding.name := by
  rw [← shows.sources, List.map_map]
  rfl

theorem find?_of_mem (shows : Shows bs count row t) (binds : scope.Binds bs)
    {entry : Binding × Option Record} (member : entry ∈ t) :
    t.find? (·.1.name == entry.1.name) = some entry := by
  have distinct : (t.map fun entry => entry.1.name).Nodup := by
    rw [shows.names, List.map_take]
    exact binds.distinct.sublist (List.take_sublist _ _)
  clear shows
  induction t with
  | nil => cases member
  | cons first rest ih =>
    rw [List.map_cons, List.nodup_cons] at distinct
    rcases List.mem_cons.mp member with rfl | later
    · exact List.find?_cons_of_pos (by simp)
    · have ne : first.1.name ≠ entry.1.name := fun same =>
        distinct.1 (List.mem_map.mpr ⟨entry, later, same.symm⟩)
      rw [List.find?_cons_of_neg (by simpa using ne)]
      exact ih later distinct.2

theorem find?_none (shows : Shows bs count row t) {source : String}
    (unnamed : source ∉ bs.map Binding.name) : t.find? (·.1.name == source) = none := by
  rw [List.find?_eq_none]
  intro entry member same
  have listed : entry.1.name ∈ (bs.take count).map Binding.name :=
    shows.names ▸ List.mem_map_of_mem (f := fun entry => entry.1.name) member
  rw [List.map_take] at listed
  obtain rfl : entry.1.name = source := by simpa using same
  exact unnamed (List.mem_of_mem_take listed)

theorem evalColumn_named (shows : Shows bs count row t) (binds : scope.Binds bs) {source : String}
    (named : source ∈ (bs.take count).map Binding.name) (column : String) :
    (evalColumn scope (some row) source column).value.raw = t.read source column := by
  rw [← shows.names] at named
  obtain ⟨entry, member, rfl⟩ := List.mem_map.mp named
  have found := shows.find?_of_mem binds member
  have first : bs.find? (·.name == entry.1.name) = some entry.1 := by
    have inTake : (bs.take count).find? (·.name == entry.1.name) = some entry.1 := by
      rw [← shows.sources, List.find?_map]
      exact congrArg (Option.map Prod.fst) found
    rw [← List.take_append_drop count bs, List.find?_append, inTake]
    rfl
  have listed : entry.1 ∈ bs := List.mem_of_find?_eq_some first
  have bound : Dict.get? scope.aliases entry.1.name = some entry.1.type.name := by
    rw [binds.get?_aliases, first]
    rfl
  have refers : scope.Refers entry.1.name entry.1.type := by
    refine ⟨?_, .inl ?_⟩
    · rw [Scope.resolve?, bound]
      exact binds.known entry.1 listed
    · rw [Dict.hasKey, bound]
      rfl
  refine shows.evalColumn_entry binds refers ?_ ?_ member column
  · rw [Expr.joinedEntry?, shows.fields, Tuple.get?_entries, found]
    rfl
  · rw [Tuple.source?, found]

theorem evalColumn_typed (shows : Shows bs count row t) (binds : scope.Binds bs) {source : String}
    (unnamed : source ∉ bs.map Binding.name) {b : Binding} (listed : b ∈ bs.take count)
    (only : bs.filter (·.type.name == source) = [b]) (column : String) :
    (evalColumn scope (some row) source column).value.raw = t.read source column := by
  have inBs : b ∈ bs.filter (·.type.name == source) := by rw [only]; exact List.mem_singleton_self b
  obtain ⟨known, typed⟩ := List.mem_filter.mp inBs
  have typeName : b.type.name = source := by simpa using typed
  have inTake : (bs.take count).filter (·.type.name == source) = [b] := by
    have sub := (List.take_sublist count bs).filter (·.type.name == source)
    rw [only] at sub
    have kept : b ∈ (bs.take count).filter (·.type.name == source) :=
      List.mem_filter.mpr ⟨listed, typed⟩
    rcases List.sublist_singleton.mp sub with none | one
    · rw [none] at kept
      cases kept
    · exact one
  rw [← shows.sources, List.filter_map] at inTake
  obtain ⟨entry, alone, rfl⟩ := List.map_eq_singleton_iff.mp inTake
  have member : entry ∈ t := by
    have first : entry ∈ [entry] := List.mem_singleton_self entry
    rw [← alone] at first
    exact (List.mem_filter.mp first).1
  have noAlias := binds.get?_aliases_of_not_mem unnamed
  have refers : scope.Refers source entry.1.type := by
    refine ⟨?_, .inr ?_⟩
    · rw [Scope.resolve?, noAlias, ← typeName]
      exact binds.known entry.1 known
    · rw [binds.length_aliasesOf, only]
      exact Nat.le_refl 1
  have bound : scope.aliases.find? (·.2 == source) = some (entry.1.name, entry.1.type.name) := by
    rw [binds.aliases, List.find?_map, ← List.head?_filter]
    exact congrArg (fun found => (found.head?).map fun b : Binding => (b.name, b.type.name)) only
  refine shows.evalColumn_entry binds refers ?_ ?_ member column
  · rw [Expr.joinedEntry?, shows.fields, Tuple.get?_entries, shows.find?_none unnamed, bound]
    change Dict.get? t.entries entry.1.name = _
    rw [Tuple.get?_entries, shows.find?_of_mem binds member]
    rfl
  · rw [Tuple.source?, shows.find?_none unnamed]
    have same : t.filter (·.1.type.name == source) = [entry] := alone
    rw [same]

/-- A name that stands for no source, or for several, is null in rows that have all sources. -/
theorem evalColumn_other (shows : Shows bs count row t) (binds : scope.Binds bs)
    (complete : bs.length ≤ count) {source : String} (unnamed : source ∉ bs.map Binding.name)
    (other : (bs.filter (·.type.name == source)).length ≠ 1) (column : String) :
    (evalColumn scope (some row) source column).value.raw = t.read source column := by
  have sources : t.map Prod.fst = bs := by rw [shows.sources, List.take_of_length_le complete]
  have noEntry : t.source? source = none := by
    rw [← sources, List.filter_map, List.length_map] at other
    rw [Tuple.source?, shows.find?_none unnamed]
    dsimp only
    split
    · rename_i entry alone
      have one : (t.filter (·.1.type.name == source)).length = 1 := by rw [alone]; rfl
      exact absurd one other
    · rfl
  rw [Tuple.read, noEntry]
  have noAlias := binds.get?_aliases_of_not_mem unnamed
  by_cases several : 1 < (bs.filter (·.type.name == source)).length
  · have unclear : Dict.hasKey scope.aliases source = false := by
      rw [Dict.hasKey, noAlias]
      rfl
    have names : 1 < (scope.aliasesOf source).length := by
      rw [binds.length_aliasesOf]
      exact several
    simp [evalColumn, resolveColumn, unclear, names, Reported.fault, Value.null, Value.of]
  · have none : bs.filter (·.type.name == source) = [] := List.length_eq_zero_iff.mp (by omega)
    have unbound : scope.aliases.find? (·.2 == source) = .none := by
      rw [binds.aliases, List.find?_map, ← List.head?_filter]
      exact congrArg (fun found => (found.head?).map fun b : Binding => (b.name, b.type.name)) none
    have noValue : readColumn scope row source column = .null := by
      rw [Expr.readColumn_joined binds.joined, joinedEntry?, shows.fields, Tuple.get?_entries,
        shows.find?_none unnamed, unbound]
      rfl
    rw [evalColumn]
    split
    · rfl
    · exact noValue

/-- A joined row reads a column as its tuple does, where the tuple has the source that is meant. -/
theorem evalColumn (shows : Shows bs count row t) (binds : scope.Binds bs) {source : String}
    (within : RefersWithin bs count source ∨ bs.length ≤ count) (column : String) :
    (Expr.evalColumn scope (some row) source column).value.raw = t.read source column := by
  rcases within with (named | ⟨unnamed, b, listed, only⟩) | complete
  · exact shows.evalColumn_named binds named column
  · exact shows.evalColumn_typed binds unnamed listed only column
  · by_cases named : source ∈ bs.map Binding.name
    · refine shows.evalColumn_named binds ?_ column
      rw [List.take_of_length_le complete]
      exact named
    · by_cases one : (bs.filter (·.type.name == source)).length = 1
      · obtain ⟨b, only⟩ := List.length_eq_one_iff.mp one
        refine shows.evalColumn_typed binds named ?_ only column
        rw [List.take_of_length_le complete]
        have listed : b ∈ bs.filter (·.type.name == source) := by rw [only]; simp
        exact (List.mem_filter.mp listed).1
      · exact shows.evalColumn_other binds complete named one column

end Shows

theorem evalColumn_none (scope : Scope) (source column : String) :
    (evalColumn scope none source column).value.raw = .null := by
  rw [evalColumn]
  split <;> rfl

/-- Joined rows read the columns of an expression as their tuples do. -/
theorem readAlike_shows {scope : Scope} {bs : List Binding} {count : Nat} (binds : scope.Binds bs)
    {columns : List (String × String)}
    (within : ∀ ref ∈ columns, RefersWithin bs count ref.1 ∨ bs.length ≤ count) :
    Expr.ReadAlike False (Shows bs count) (evalColumn scope) Tuple.reader columns := by
  intro row t related source column listed
  refine ⟨?_, False.elim⟩
  cases related with
  | none => exact evalColumn_none scope source column
  | some shows => exact shows.evalColumn binds (within _ listed) column

end RecordQuery
