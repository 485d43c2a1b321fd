import RecordQuery.Proofs.Aliasing
import RecordQuery.Proofs.Sources

/-!
The order in which the names of a join are gone through. Names are looked up by key, counted and
sorted, which does not depend on their order; only the search for a name of a type, where a row has
no entry for the source, takes the first name that it meets. That name is the only one unless the
source is a name itself, which makes the type's several names go unnoticed
(`Scope.Reordered.evalColumn`). Rows that all joins have made have an entry for every name, so a
query depends on the order through the conditions of its joins only, and not at all where these
name what rows have already (`Select.settles`). The main statement is `Select.order_free`.
-/
namespace RecordQuery

/-! ### Dictionaries in another order -/

namespace Dict
variable {α : Type} {d e : Dict α}

theorem get?_eq_some_iff (nodup : (keys d).Nodup) (key : String) (value : α) :
    get? d key = some value ↔ (key, value) ∈ d := by
  constructor
  · exact mem_of_get?
  · intro member
    obtain ⟨before, after, rfl⟩ := List.append_of_mem member
    have last : key ∉ keys after := by
      rw [keys, List.map_append, List.map_cons, List.nodup_append, List.nodup_cons] at nodup
      exact nodup.2.1.1
    rw [← ofEntries_of_nodup nodup]
    exact get?_ofEntries_of_last last before

theorem get?_perm (nodup : (keys d).Nodup) (perm : e.Perm d) (key : String) :
    get? e key = get? d key := by
  have nodup' : (keys e).Nodup := (perm.map Prod.fst).nodup_iff.mpr nodup
  ext value
  rw [get?_eq_some_iff nodup', get?_eq_some_iff nodup, perm.mem_iff]

end Dict

theorem eq_of_perm_of_length_le {α : Type} {as bs : List α} (perm : as.Perm bs)
    (short : bs.length ≤ 1) : as = bs := by
  match bs, short with
  | [], _ => exact List.perm_nil.mp perm
  | [b], _ => exact List.perm_singleton.mp perm

/-! ### Columns -/

namespace Scope

/-- The second scope goes through the names of the first one in another order. -/
structure Reordered (scope other : Scope) : Prop where
  schema : other.schema = scope.schema
  maxPattern : other.maxPattern = scope.maxPattern
  now : other.now = scope.now
  aliases : other.aliases.Perm scope.aliases
  distinct : (Dict.keys scope.aliases).Nodup

/-- A source does not make the row be searched for one of several names: either it is no name
itself, or the row has its entry, or at most one name has the type that it could also mean. -/
def Settles (scope : Scope) (row : Record) (source : String) : Prop :=
  Dict.hasKey scope.aliases source = true → Dict.hasKey row.fields source = true ∨
    (scope.aliases.filter (·.2 == source)).length ≤ 1

namespace Reordered
variable {scope other : Scope} (reordered : scope.Reordered other)

include reordered

theorem get?_aliases (source : String) :
    Dict.get? other.aliases source = Dict.get? scope.aliases source :=
  Dict.get?_perm reordered.distinct reordered.aliases source

theorem resolve? (source : String) : other.resolve? source = scope.resolve? source := by
  rw [Scope.resolve?, Scope.resolve?, reordered.get?_aliases, reordered.schema]

theorem aliasesOf (typeName : String) : other.aliasesOf typeName = scope.aliasesOf typeName := by
  rw [Scope.aliasesOf, Scope.aliasesOf]
  have sorted (names : List String) :
      (names.mergeSort fun a b => decide (a ≤ b)).Pairwise fun a b => decide (a ≤ b) = true := by
    refine List.pairwise_mergeSort (fun a b c first second => ?_) (fun a b => ?_) names
    · rw [decide_eq_true_iff] at *
      exact String.le_trans first second
    · simpa using String.le_total a b
  refine List.Perm.eq_of_pairwise (fun a b _ _ first second => ?_) (sorted _) (sorted _) ?_
  · rw [decide_eq_true_iff] at *
    exact String.le_antisymm first second
  · have names := (reordered.aliases.filter (·.2 == typeName)).map Prod.fst
    exact (List.mergeSort_perm _ _).trans (names.trans (List.mergeSort_perm _ _).symm)

theorem inJoin : other.inJoin = scope.inJoin := by
  rw [Scope.inJoin, Scope.inJoin, reordered.aliases.isEmpty_eq]

theorem resolveColumn (source column : String) :
    Expr.resolveColumn other source column = Expr.resolveColumn scope source column := by
  rw [Expr.resolveColumn, Expr.resolveColumn, Dict.hasKey, Dict.hasKey, reordered.get?_aliases,
    reordered.aliasesOf, reordered.resolve?, reordered.schema]

theorem joinedEntry? {row : Record} {source : String}
    (settled : Dict.hasKey row.fields source = true ∨
      (scope.aliases.filter (·.2 == source)).length ≤ 1) :
    Expr.joinedEntry? other row source = Expr.joinedEntry? scope row source := by
  rw [Expr.joinedEntry?, Expr.joinedEntry?]
  rcases settled with inRow | few
  · obtain ⟨entry, found⟩ := Option.isSome_iff_exists.mp inRow
    rw [found]
  · rw [← List.head?_filter, ← List.head?_filter,
      eq_of_perm_of_length_le (reordered.aliases.filter (·.2 == source)) few]

/-- A column that the source settles is read alike in any order, with the same fault if any. -/
theorem evalColumn {row : Option Record} {source : String}
    (settled : ∀ r ∈ row, scope.Settles r source) (column : String) :
    Expr.evalColumn other row source column = Expr.evalColumn scope row source column := by
  rw [Expr.evalColumn, Expr.evalColumn, reordered.resolveColumn]
  cases found : Expr.resolveColumn scope source column with
  | error fault => rfl
  | ok origin =>
    cases row with
    | none => rfl
    | some r =>
      have same : Expr.joinedEntry? other r source = Expr.joinedEntry? scope r source := by
        refine reordered.joinedEntry? ?_
        by_cases named : Dict.hasKey scope.aliases source = true
        · exact settled r rfl named
        · -- A type name with several names would have been reported.
          rw [Expr.resolveColumn, if_neg named] at found
          split at found
          · cases found
          · rename_i few
            rw [Scope.length_aliasesOf] at few
            exact .inr (Nat.not_lt.mp few)
      dsimp only
      rw [Expr.readColumn, Expr.readColumn, same, reordered.inJoin]

end Reordered
/-- Where a source is not settled, any name of its type can be the one that is read. -/
theorem exists_reordered {scope : Scope} (distinct : (Dict.keys scope.aliases).Nodup)
    {row : Record} {source : String} (missing : Dict.hasKey row.fields source = false)
    {name : String} (bound : (name, source) ∈ scope.aliases) :
    ∃ other, scope.Reordered other ∧
      Expr.joinedEntry? other row source = Dict.get? row.fields name := by
  -- The order that begins with the name.
  have perm : ((name, source) :: scope.aliases.erase (name, source)).Perm scope.aliases :=
    (List.perm_cons_erase bound).symm
  refine ⟨{ scope with aliases := (name, source) :: scope.aliases.erase (name, source) },
    ⟨rfl, rfl, rfl, perm, distinct⟩, ?_⟩
  have noEntry : Dict.get? row.fields source = none := by simpa [Dict.hasKey] using missing
  rw [Expr.joinedEntry?, noEntry]
  dsimp only
  rw [List.find?_cons_of_pos (by simp)]
  rfl

end Scope

/-! ### Conditions of joins -/

/-- A row has entries under certain names. -/
def Present (names : List String) (row : Record) : Prop :=
  ∀ name ∈ names, Dict.hasKey row.fields name = true

theorem Present.addEntry {names : List String} {row : Record} (present : Present names row)
    (name : String) (entry : Json) : Present (name :: names) (Select.addEntry row name entry) := by
  intro other member
  rw [Dict.hasKey, Option.isSome_iff_ne_none, Ne, Dict.get?_eq_none_iff, not_not, Select.addEntry,
    Dict.mem_keys_insert]
  rcases List.mem_cons.mp member with same | old
  · exact .inl same
  · refine .inr (not_not.mp fun absent => ?_)
    have inRow := present other old
    rw [Dict.hasKey, (Dict.get?_eq_none_iff row.fields other).mpr absent] at inRow
    cases inRow

/-- Two rows are the same one, and it has a property. -/
def SameRow (P : Record → Prop) (row row' : Record) : Prop := row = row' ∧ P row

namespace Scope.Reordered

section
variable {scope other : Scope} (reordered : scope.Reordered other)

include reordered

/-- An expression has the same values and meets the same faults on rows where its columns are
settled. -/
theorem expr_alike {P : Record → Prop} {e : Expr}
    (settled : ∀ row, P row → ∀ ref ∈ e.columns, scope.Settles row ref.1) :
    e.Alike True scope other (SameRow P) e := by
  have reads : Expr.ReadAlike True (SameRow P) (Expr.evalColumn scope) (Expr.evalColumn other)
      e.columns := by
    intro row row' related source column listed
    have same : Expr.evalColumn other row' source column =
        Expr.evalColumn scope row source column := by
      cases related with
      | none => exact reordered.evalColumn (by simp) column
      | @some r r' same =>
        obtain ⟨rfl, holds⟩ := same
        refine reordered.evalColumn (fun r' member => ?_) column
        cases member
        exact settled r holds _ listed
    rw [same]
    exact Reported.alike_refl _ rfl
  intro row row' group group' rows groups
  exact Expr.eval_alike ⟨reordered.maxPattern.symm, reordered.now.symm⟩ rows groups reads

theorem passes {e : Expr} {row : Record} (settled : ∀ ref ∈ e.columns, scope.Settles row ref.1) :
    e.passes other (some row) none = e.passes scope (some row) none := by
  have alike : e.Alike True scope other (SameRow (· = row)) e := by
    refine reordered.expr_alike ?_
    rintro r rfl
    exact settled
  exact (alike.passes ⟨rfl, rfl⟩).eq.symm

theorem answer {P : Record → Prop} {s : Select} {rows : List Record}
    (holds : ∀ row ∈ rows, P row)
    (settled : ∀ row, P row → ∀ e ∈ s.exprs, ∀ ref ∈ e.columns, scope.Settles row ref.1) :
    s.answer other rows = s.answer scope rows := by
  have same : List.Forall₂ (SameRow P) rows rows :=
    List.forall₂_same.mpr fun row member => ⟨rfl, holds row member⟩
  have alike : ∀ e ∈ s.exprs, e.Alike True scope other (SameRow P) e := fun e member =>
    reordered.expr_alike fun row holds => settled row holds e member
  funext errors
  exact Select.run_answer_of_alike alike same errors

section
variable {j : Join} {names : List String}
  (settled : ∀ joined, Present (j.source.name :: names) joined →
    ∀ ref ∈ j.on.columns, scope.Settles joined ref.1)

include settled

theorem matchRows {row : Record} (present : Present names row) (path : String)
    (right : List Record) :
    Select.matchRows other j path row right = Select.matchRows scope j path row right := by
  induction right with
  | nil => rfl
  | cons r rest ih =>
    have joined := present.addEntry j.source.name (.obj r.toRow)
    rw [Select.matchRows, Select.matchRows, ih, reordered.passes (settled _ joined)]

theorem joinRows {rows : List Record} (present : ∀ row ∈ rows, Present names row) (path : String)
    (right : List Record) :
    Select.joinRows other j path right rows = Select.joinRows scope j path right rows := by
  induction rows with
  | nil => rfl
  | cons row rest ih =>
    have first := reordered.matchRows settled (present row List.mem_cons_self) path right
    rw [Select.joinRows, Select.joinRows, first,
      ih fun row member => present row (List.mem_cons_of_mem _ member)]

end

end

end Scope.Reordered

/-! ### Joins -/

namespace Select

/-- Whether a condition settles its columns on rows that have entries under the given names: each
refers to one of these names, to no name at all, or to a name whose type has at most one name. -/
def settlesOn (aliases : Dict String) (names : List String) (e : Expr) : Bool :=
  e.columns.all fun ref => names.contains ref.1 || !Dict.hasKey aliases ref.1 ||
    decide ((aliases.filter (·.2 == ref.1)).length ≤ 1)

/-- Whether the conditions of joins settle their columns, where rows start with entries under the
given names and each join adds its own. -/
def settlesFrom (aliases : Dict String) : List String → List Join → Bool
  | _, [] => true
  | names, j :: rest =>
    settlesOn aliases (j.source.name :: names) j.on &&
      settlesFrom aliases (j.source.name :: names) rest

theorem settles_of_settlesOn {scope : Scope} {names : List String} {e : Expr}
    (settled : settlesOn scope.aliases names e = true) {row : Record}
    (present : Present names row) : ∀ ref ∈ e.columns, scope.Settles row ref.1 := by
  intro ref listed named
  have one := List.all_eq_true.mp settled ref listed
  simp only [named, Bool.not_true, Bool.or_false, Bool.or_eq_true, List.contains_iff_mem,
    decide_eq_true_eq] at one
  exact one.imp_left (present ref.1)

theorem present_joinRows {scope : Scope} {j : Join} {path : String} {names : List String}
    {right rows : List Record} (present : ∀ row ∈ rows, Present names row)
    (errors : List ValidationError) :
    ∀ row ∈ ((joinRows scope j path right rows).run errors).1,
      Present (j.source.name :: names) row := by
  intro row member
  rw [joinRows_value] at member
  obtain ⟨old, inRows, extended⟩ := List.mem_flatMap.mp member
  obtain ⟨entry, rfl⟩ := entry_of_mem_extensions extended
  exact (present old inRows).addEntry j.source.name entry

/-- Joins whose conditions settle their columns make the same rows and report the same errors,
whatever is done with the rows. -/
theorem joinAll_reordered {β : Type} {ctx : Context} {aliases : Dict String}
    (reordered : ctx.scope.Reordered { ctx with aliases }.scope) (levels : List (Join × TypeDef)) :
    ∀ {index : Nat} {rows : List Record} {names : List String} {f f' : List Record → Exec β},
      (∀ row ∈ rows, Present names row) →
      settlesFrom ctx.aliases names (levels.map Prod.fst) = true →
      (∀ rows, (∀ row ∈ rows, Present (names ++ levels.map (·.1.source.name)) row) →
        f' rows = f rows) →
      (joinAll { ctx with aliases } index levels rows >>= f') =
        (joinAll ctx index levels rows >>= f) := by
  induction levels with
  | nil =>
    intro index rows names f f' present _ same
    rw [joinAll, joinAll, pure_bind, pure_bind]
    exact same rows (by simpa using present)
  | cons level rest ih =>
    intro index rows names f f' present settled same
    obtain ⟨j, d⟩ := level
    rw [List.map_cons, settlesFrom, Bool.and_eq_true] at settled
    have scanned (path : String) :
        scanTable { ctx with aliases } d.name path = scanTable ctx d.name path := rfl
    rw [joinAll, joinAll, bind_assoc, bind_assoc, scanned]
    refine bind_congr fun right => ?_
    rw [bind_assoc, bind_assoc, reordered.joinRows
      (fun joined present => settles_of_settlesOn settled.1 present) present]
    funext errors
    rw [Exec.log_bind, Exec.log_bind]
    -- The names that rows have grow by one a join, so what is done with the rows afterwards may
    -- count on one name less than the induction hypothesis provides.
    refine congrFun (ih (present_joinRows present errors) settled.2 fun rows all => ?_) _
    refine same rows fun row member name listed => all row member name ?_
    simpa [or_left_comm] using listed

/-! ### Queries -/

/-- The names of the sources of a query, each with the name of its type. -/
def aliasMap (s : Select) : Dict String :=
  Dict.ofEntries (s.sources.map fun source => (source.name, Text.lower source.table))

/-- Whether a query settles the columns of the conditions of its joins. -/
def settles (s : Select) : Bool := settlesFrom s.aliasMap [s.base.name] s.joins

/-- The rows of the sources, where the names of a join are gone through in a given order. -/
def loadRowsWith (enumerate : Dict String → Dict String) (s : Select) (ctx : Context) :
    Exec (Option (Context × List Record)) := do
  match ctx.schema.get? s.base.table with
  | none =>
    Exec.log (Log.report (unknownTable ctx.schema s.base.table "select.from"))
    return none
  | some base =>
    let types ← Exec.log (joinTypes ctx.schema 0 s.joins)
    if types.length ≠ s.joins.length then return none
    else
      let records ← scanTable ctx base.name "select.from"
      if s.joins.isEmpty && s.base.givenName.isNone then
        return some ({ ctx with aliases := [] }, records)
      else
        let ctx := { ctx with aliases := enumerate (s.bindings base types) }
        let rows ← joinAll ctx 0 (s.joins.zip types) (records.map (entryRow s.base.name))
        return some (ctx, rows)

/-- The output columns of the rows of a query, with a given order of names. -/
def executeEntriesWith (enumerate : Dict String → Dict String) (s : Select) (ctx : Context) :
    Exec (Option (List Entries)) := do
  match ← s.loadRowsWith enumerate { ctx with aliases := [] } with
  | none => return none
  | some (ctx, rows) => return some (← Exec.log (s.answer ctx.scope rows))

theorem executeEntriesWith_id (s : Select) (ctx : Context) :
    s.executeEntriesWith id ctx = s.executeEntries ctx := rfl

/-- Executes a query with a given order of names. -/
def executeWith (enumerate : Dict String → Dict String) (s : Select) (ctx : Context) :
    Exec Result := do
  match ← s.executeEntriesWith enumerate ctx with
  | some rows => Result.finish (rows.map Entries.toRow)
  | none => return .rejected

theorem executeWith_id (s : Select) (ctx : Context) : s.executeWith id ctx = s.execute ctx := rfl

theorem names_zip {schema : Schema} {joins : List Join} {types : List TypeDef}
    (typed : List.Forall₂ (fun j d => schema.get? j.source.table = some d) joins types) :
    (joins.zip types).map (fun entry => (entry.1.source.name, entry.2.name)) =
      joins.map fun j => (j.source.name, Text.lower j.source.table) := by
  induction typed with
  | nil => rfl
  | cons known _ ih =>
    rw [List.zip_cons_cons, List.map_cons, List.map_cons, ih, Schema.name_of_get? known]

section
variable {s : Select} {ctx : Context} {base : TypeDef} {types : List TypeDef}

theorem bindings_eq_aliasMap (typed : s.Typed ctx.schema base types) :
    s.bindings base types = s.aliasMap := by
  rw [bindings, aliasMap, sources, names_zip typed.joins, Schema.name_of_get? typed.base,
    List.map_cons, List.map_map]
  rfl

/-- A row with an entry for every source settles all columns. -/
theorem settles_of_present {row : Record}
    (present : Present ([s.base.name] ++ (s.joins.zip types).map (·.1.source.name)) row)
    (source : String) :
    Scope.Settles { ctx with aliases := s.bindings base types }.scope row source := by
  intro named
  left
  refine present source ?_
  obtain ⟨typeName, bound⟩ := Option.isSome_iff_exists.mp named
  have listed : source ∈ Dict.keys (s.bindings base types) :=
    List.mem_map_of_mem (f := Prod.fst) (Dict.mem_of_get? bound)
  rcases mem_keys_bindings.mp listed with rfl | ⟨level, member, rfl⟩
  · exact List.mem_cons_self
  · exact List.mem_cons_of_mem _ (List.mem_map_of_mem (f := (·.1.source.name)) member)

/-- A query that settles the columns of its conditions yields the same output rows and reports the
same errors in any order of the names. -/
theorem executeEntriesWith_eq {enumerate : Dict String → Dict String}
    (permutes : ∀ d, (enumerate d).Perm d) (settled : s.settles = true) :
    s.executeEntriesWith enumerate ctx = s.executeEntries ctx := by
  rw [← executeEntriesWith_id, executeEntriesWith, executeEntriesWith, loadRowsWith, loadRowsWith]
  cases known : ctx.schema.get? s.base.table with
  | none => rfl
  | some base =>
    dsimp only
    rw [bind_assoc, bind_assoc]
    funext errors
    rw [Exec.log_bind, Exec.log_bind]
    rcases listed : (joinTypes ctx.schema 0 s.joins).run errors with ⟨types, later⟩
    by_cases complete : types.length = s.joins.length
    · have typed := typed_of_joinTypes known listed complete
      rw [if_neg (not_not_intro complete), if_neg (not_not_intro complete), bind_assoc, bind_assoc]
      refine congrFun (bind_congr fun records => ?_) later
      by_cases alone : (s.joins.isEmpty && s.base.givenName.isNone) = true
      · rw [if_pos alone, if_pos alone]
      · rw [if_neg alone, if_neg alone]
        have reordered : Scope.Reordered { ctx with aliases := s.bindings base types }.scope
            { ctx with aliases := enumerate (s.bindings base types) }.scope :=
          ⟨rfl, rfl, rfl, permutes _, Dict.nodup_keys_ofEntries _⟩
        have start : ∀ row ∈ records.map (entryRow s.base.name), Present [s.base.name] row := by
          intro row member
          obtain ⟨r, -, rfl⟩ := List.mem_map.mp member
          simp [Present, entryRow, Dict.hasKey, Dict.get?]
        have conditions : settlesFrom (s.bindings base types) [s.base.name]
            ((s.joins.zip types).map Prod.fst) = true := by
          rw [bindings_eq_aliasMap typed, List.map_fst_zip (Nat.le_of_eq typed.joins.length_eq)]
          exact settled
        rw [bind_assoc, bind_assoc]
        refine joinAll_reordered reordered (s.joins.zip types) start conditions fun rows all => ?_
        have answers :
            s.answer { ctx with aliases := enumerate (s.bindings base types) }.scope rows =
              s.answer { ctx with aliases := s.bindings base types }.scope rows :=
          reordered.answer all fun row present e _ ref _ => settles_of_present present ref.1
        rw [pure_bind, pure_bind]
        dsimp only
        rw [answers]
        rfl
    · rw [if_pos complete, if_pos complete]

theorem executeWith_eq {enumerate : Dict String → Dict String}
    (permutes : ∀ d, (enumerate d).Perm d) (settled : s.settles = true) :
    s.executeWith enumerate ctx = s.execute ctx := by
  rw [← executeWith_id, executeWith, executeWith, executeEntriesWith_eq permutes settled,
    executeEntriesWith_id]

end

/-- Results depend on the order in which the names of a join are gone through only where a source
that is a name itself, without an entry in the row yet, also means a type with several names. Any
other column is read alike in any order, with the same fault if any. In that case no fault is
reported, and any of the names can be the one that is read. A query whose conditions of joins avoid
the case is executed alike in any order, whatever the store replies. -/
theorem order_free (enumerate : Dict String → Dict String) (permutes : ∀ d, (enumerate d).Perm d) :
    (∀ (scope : Scope) (row : Option Record) (source : String),
      (Dict.keys scope.aliases).Nodup → (∀ r ∈ row, scope.Settles r source) → ∀ column,
        Expr.evalColumn { scope with aliases := enumerate scope.aliases } row source column =
          Expr.evalColumn scope row source column) ∧
    (∀ (scope : Scope) (row : Record) (source : String) (d : TypeDef),
      (Dict.keys scope.aliases).Nodup → ¬ scope.Settles row source →
      scope.resolve? source = some d → ∀ name, (name, source) ∈ scope.aliases →
      ∃ other, scope.Reordered other ∧ ∀ column origin, d.origin? column = some origin →
        Expr.evalColumn other (some row) source column =
          ⟨⟨Record.readEntry (Dict.get? row.fields name) column, some origin⟩, []⟩) ∧
    ∀ (s : Select) (ctx : Context), s.settles = true →
      s.executeWith enumerate ctx = s.execute ctx := by
  refine ⟨?_, ?_, ?_⟩
  · intro scope row source distinct settled column
    have reordered : scope.Reordered { scope with aliases := enumerate scope.aliases } :=
      ⟨rfl, rfl, rfl, permutes _, distinct⟩
    exact reordered.evalColumn settled column
  · intro scope row source d distinct unsettled resolves name bound
    obtain ⟨named, others⟩ := Classical.not_imp.mp unsettled
    obtain ⟨missing, -⟩ := not_or.mp others
    obtain ⟨other, reordered, entry⟩ := Scope.exists_reordered distinct
      (Bool.eq_false_iff.mpr missing) bound
    have refers : other.Refers source d := by
      refine ⟨(reordered.resolve? source).trans resolves, .inl ?_⟩
      rw [Dict.hasKey, reordered.get?_aliases]
      exact named
    have joined : other.aliases ≠ [] := by
      intro empty
      have listed := reordered.aliases.mem_iff.mpr bound
      rw [empty] at listed
      cases listed
    refine ⟨other, reordered, fun column origin declared => ?_⟩
    rw [Expr.evalColumn_eq refers, declared, Option.map_some, Option.getD_some,
      Expr.readColumn_joined joined, entry]
  · intro s ctx settled
    exact executeWith_eq permutes settled

/-- The names of a join of users under two names, and of teams under that of the users. -/
def crossedScope : Scope :=
  { schema := .ofTypes
      [.ofFields "users" [.ofType "name" .string], .ofFields "teams" [.ofType "title" .string]]
    aliases := [("a", "users"), ("b", "users"), ("users", "teams")]
    now := ⟨0, 0, 0⟩ }

/-- A joined row of two users, before it has been joined with a team. -/
def crossedRow : Record :=
  { id := "u1", created := ⟨0, 0, 0⟩, updated := ⟨0, 0, 0⟩
    fields := [("a", .obj [("id", .str "u1")]), ("b", .obj [("id", .str "u2")])] }

/-- Pairs of different users with a team, where the condition of the first join refers to the users
by the name that the teams are going to have. -/
def crossed : Select :=
  { projections := [⟨.ref "a" "id", some "a"⟩, ⟨.ref "b" "id", some "b"⟩]
    base := .ofTable "users" (some "a")
    joins :=
      [⟨.inner, .ofTable "users" (some "b"),
          .comparison .eq (.ref "users" "id") (.literal (.str "u1"))⟩,
        ⟨.inner, .ofTable "teams" (some "users"), .literal (.bool true)⟩]
    filter := some (.comparison .ne (.ref "a" "id") (.ref "b" "id")) }

/-- The same pairs, where the condition says which user it means. -/
def uncrossed : Select :=
  { crossed with
    joins :=
      [⟨.inner, .ofTable "users" (some "b"),
          .comparison .eq (.ref "b" "id") (.literal (.str "u1"))⟩,
        ⟨.inner, .ofTable "teams" (some "users"), .literal (.bool true)⟩] }

theorem order_free_crossed :
    (∀ d : Dict String, d.reverse.Perm d) ∧
    (crossedScope.Settles crossedRow "a" ∧
      Expr.evalColumn { crossedScope with aliases := crossedScope.aliases.reverse }
        (some crossedRow) "a" "id" = Expr.evalColumn crossedScope (some crossedRow) "a" "id") ∧
    (¬ crossedScope.Settles crossedRow "users" ∧
      ∃ other, crossedScope.Reordered other ∧
        (Expr.evalColumn other (some crossedRow) "users" "id").value.raw = .str "u2") ∧
    (uncrossed.settles = true ∧ ∀ ctx,
      uncrossed.executeWith List.reverse ctx = uncrossed.execute ctx) := by
  have permutes : ∀ d : Dict String, d.reverse.Perm d := fun d => List.reverse_perm d
  obtain ⟨columns, names, queries⟩ := order_free List.reverse permutes
  have distinct : (Dict.keys crossedScope.aliases).Nodup := by decide
  have settled : crossedScope.Settles crossedRow "a" := fun _ => .inl (by decide)
  have unsettled : ¬ crossedScope.Settles crossedRow "users" := by
    rw [Scope.Settles]
    decide
  have unmoved := columns crossedScope (some crossedRow) "a" distinct (by simpa using settled) "id"
  refine ⟨permutes, ⟨settled, unmoved⟩, ⟨unsettled, ?_⟩, ?_⟩
  · obtain ⟨other, turned, reads⟩ := names crossedScope crossedRow "users"
      (.ofFields "teams" [.ofType "title" .string]) distinct unsettled (by decide +kernel) "b"
      (by decide)
    refine ⟨other, turned, ?_⟩
    rw [reads "id" _ rfl]
    rfl
  · have avoids : uncrossed.settles = true := by decide +kernel
    exact ⟨avoids, fun ctx => queries uncrossed ctx avoids⟩

/-- A world with two users and a team. -/
def crossedWorld : World :=
  let now : Calendar.Instant := ⟨0, 0, 0⟩
  let users := (Store.seed {} now "users" "u1" []).seed now "users" "u2" []
  { store := users.seed now "teams" "t1" [], now, ids := fun _ => "new" }

/-- The texts of the rows that the pairs yield, with the names in a given order, and how many errors
are reported. -/
def crossedAnswer (enumerate : Dict String → Dict String) : Option (List String) × Nat :=
  let ctx : Context := { schema := crossedScope.schema, stage := ⟨1⟩, now := ⟨0, 0, 0⟩ }
  let out := (crossedWorld.run (crossed.executeWith enumerate ctx [])).1
  (out.1.toOption.map (·.rows.map Json.text), out.2.length)

/-- The condition finds the user `u1` on one side or on the other, as the order has it, and nothing
is reported in either case. -/
theorem crossed_order_dependent :
    crossedAnswer id = (some ["\x7b\"a\":\"u1\",\"b\":\"u2\"\x7d"], 0) ∧
    crossedAnswer List.reverse = (some ["\x7b\"a\":\"u2\",\"b\":\"u1\"\x7d"], 0) ∧
    ¬ ∀ (s : Select) (ctx : Context) (enumerate : Dict String → Dict String),
      (∀ d, (enumerate d).Perm d) → s.executeWith enumerate ctx = s.execute ctx := by
  have first : crossedAnswer id = (some ["\x7b\"a\":\"u1\",\"b\":\"u2\"\x7d"], 0) := by
    decide +kernel
  have turned : crossedAnswer List.reverse =
      (some ["\x7b\"a\":\"u2\",\"b\":\"u1\"\x7d"], 0) := by decide +kernel
  refine ⟨first, turned, fun orderFree => ?_⟩
  have same : crossedAnswer List.reverse = crossedAnswer id := by
    rw [crossedAnswer, crossedAnswer, orderFree _ _ _ fun d => List.reverse_perm d, executeWith_id]
  rw [first, turned] at same
  exact absurd same (by decide)

end Select

end RecordQuery
