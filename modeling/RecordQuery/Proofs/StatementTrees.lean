import RecordQuery.Statement.Reader
import RecordQuery.Proofs.ExpressionTrees

/-!
Trees of statements. The members of a tree are those fields that are not left out, and they are read
as the same fields (`Json.fields?_written`). A statement is canonical if its parts are: the names of
tables and of assigned columns are in lower case, and counts fit a word. Every canonical statement
is read back from its tree, and every statement that is read from a tree is canonical, so that it
is read again from the tree it is written to (`Statement.ofJson?_toJson`).
-/
namespace RecordQuery

/-! ### Written fields -/

namespace Json

/-- The members for fields, some of which are left out. -/
def written (fields : List (String × Option Json)) : List (String × Json) :=
  fields.flatMap fun field => someMember field.1 field.2

theorem listMember_eq (name : String) (items : List Json) :
    listMember name items = someMember name (ofItems? items) := by
  cases items <;> rfl

theorem keys_written (fields : List (String × Option Json)) :
    (Dict.keys (written fields)).Sublist (fields.map Prod.fst) := by
  induction fields with
  | nil => exact .slnil
  | cons field rest ih =>
    obtain ⟨name, value⟩ := field
    cases value with
    | none => exact ih.cons name
    | some tree => exact ih.cons_cons name

theorem get?_written {fields : List (String × Option Json)}
    (distinct : (fields.map Prod.fst).Nodup) :
    ∀ field ∈ fields, Dict.get? (written fields) field.1 = field.2 := by
  induction fields with
  | nil => intro field listed; cases listed
  | cons first rest ih =>
    obtain ⟨name, value⟩ := first
    obtain ⟨apart, others⟩ := List.nodup_cons.mp distinct
    intro field listed
    rcases List.mem_cons.mp listed with rfl | later
    · cases value with
      | none =>
        exact (Dict.get?_eq_none_iff _ name).mpr fun key => apart ((keys_written rest).mem key)
      | some tree => exact if_pos rfl
    · have other : name ≠ field.1 := by
        rintro rfl
        exact apart (List.mem_map.mpr ⟨field, later, rfl⟩)
      cases value with
      | none => exact ih others field later
      | some tree => exact (if_neg other).trans (ih others field later)

theorem occurrences_le_one {members : List (String × Json)} (distinct : (Dict.keys members).Nodup)
    (key : String) : occurrences members key ≤ 1 := by
  have counted : occurrences members key = (Dict.keys members).count key := by
    rw [occurrences, Dict.keys, List.count, List.countP_map, List.countP_eq_length_filter]
    rfl
  rw [counted]
  exact List.nodup_iff_count_le_one.mp distinct key

/-- What is written of a structure is read as its fields. -/
theorem fields?_written {fields : List (String × Option Json)}
    (distinct : (fields.map Prod.fst).Nodup) :
    fields? (fields.map Prod.fst) (.obj (written fields)) = some (fields.map Prod.snd) := by
  have once : (fields.map Prod.fst).all (occurrences (written fields) · ≤ 1) = true :=
    List.all_eq_true.mpr fun key _ =>
      decide_eq_true (occurrences_le_one ((keys_written fields).nodup distinct) key)
  rw [fields?, if_pos once, List.map_map]
  exact congrArg some (List.map_congr_left (get?_written distinct))

/-- A structure that is told by its kind. -/
theorem tagged?_written (place : Place) {names : List String} {kind : String}
    (listed : kind ∈ names) {fields : List (String × Option Json)}
    (apart : "kind" ∉ fields.map Prod.fst) :
    tagged? place names (.obj (("kind", .str kind) :: written fields)) =
      some (kind, .obj (written fields)) := by
  have other : ∀ member ∈ written fields, member.1 ≠ "kind" := fun member inside same =>
    apart ((keys_written fields).mem (List.mem_map.mpr ⟨member, inside, same⟩))
  have only : (written fields).filter (·.1 == "kind") = [] :=
    List.filter_eq_nil_iff.mpr fun member inside => by simpa using other member inside
  have kept : (written fields).filter (·.1 != "kind") = written fields :=
    List.filter_eq_self.mpr fun member inside => by simpa using other member inside
  simp [tagged?, occurrences, only, kept, Dict.get?, asTag?, listed]

end Json

/-! ### Parts

Each part is canonical if what it holds is; aliases and the columns of an insertion may be written in
any case. -/

theorem Expr.toJson_ne_null (e : Expr) : e.toJson ≠ .null := by
  cases e <;> rw [toJson] <;> exact Json.noConfusion

def Projection.Canonical (p : Projection) : Prop := p.expr.Canonical

theorem Projection.codec : Codec ofJson? toJson Canonical where
  reads p canonical := by
    have fields : Json.fields? ["expr", "alias"] p.toJson =
        some [some p.expr.toJson, p.givenName.map .str] := by
      rw [toJson]
      cases p.givenName <;> rfl
    have expr := Expr.codec.required.reads p.expr canonical
    have givenName := (Codec.text.optional nofun).reads p.givenName fun _ _ => trivial
    simp only [ofJson?, fields, Option.bind_eq_bind, Option.bind_some, expr, givenName]
    rfl
  canonical tree := by
    rw [ofJson?]
    refine .bind .any fun fields _ => ?_
    split
    · exact (Expr.codec.required.canonical _).bind fun expr holds =>
        .bind .any fun _ _ => .pure holds
    · exact .none

def Source.Canonical (s : Source) : Prop := Text.lower s.table = s.table

theorem Source.codec : Codec ofJson? toJson Canonical where
  reads s canonical := by
    have fields : Json.fields? ["table", "alias"] s.toJson =
        some [some (.str s.table), s.givenName.map .str] := by
      rw [toJson]
      cases s.givenName <;> rfl
    have table := Codec.lowerText.required.reads s.table canonical
    have givenName := (Codec.text.optional nofun).reads s.givenName fun _ _ => trivial
    simp only [ofJson?, fields, Option.bind_eq_bind, Option.bind_some, table, givenName]
    rfl
  canonical tree := by
    rw [ofJson?]
    refine .bind .any fun fields _ => ?_
    split
    · exact (Codec.lowerText.required.canonical _).bind fun table lower =>
        .bind .any fun _ _ => .pure lower
    · exact .none

theorem JoinKind.ofJson?_name (kind : JoinKind) : ofJson? (.str kind.name) = some kind := by
  cases kind <;> rfl

theorem Source.canonical_ofTable (table : String) (givenName : Option String) :
    (ofTable table givenName).Canonical := Text.lower_lower table

structure Join.Canonical (j : Join) : Prop where
  source : j.source.Canonical
  on : j.on.Canonical

theorem Join.codec : Codec ofJson? toJson Canonical where
  reads j canonical := by
    have fields : Json.fields? ["kind", "source", "on"] j.toJson =
        some [some (.str j.kind.name), some j.source.toJson, some j.on.toJson] := rfl
    have kind : Json.required JoinKind.ofJson? (some (.str j.kind.name)) = some j.kind :=
      JoinKind.ofJson?_name j.kind
    have source := Source.codec.required.reads j.source canonical.source
    have on := Expr.codec.required.reads j.on canonical.on
    simp only [ofJson?, fields, Option.bind_eq_bind, Option.bind_some, kind, source, on]
    rfl
  canonical tree := by
    rw [ofJson?]
    refine .bind .any fun fields _ => ?_
    split
    · exact .bind .any fun kind _ =>
        (Source.codec.required.canonical _).bind fun source lower =>
          (Expr.codec.required.canonical _).bind fun on holds => .pure ⟨lower, holds⟩
    · exact .none

def SortKey.Canonical (k : SortKey) : Prop := k.expr.Canonical

theorem SortKey.codec : Codec ofJson? toJson Canonical where
  reads k canonical := by
    have fields : Json.fields? ["expr", "descending"] k.toJson =
        some [some k.expr.toJson, some (.bool k.descending)] := rfl
    have expr := Expr.codec.required.reads k.expr canonical
    have descending : Json.defaulted false Json.asBool? (some (.bool k.descending)) =
        some k.descending := rfl
    simp only [ofJson?, fields, Option.bind_eq_bind, Option.bind_some, expr, descending]
    rfl
  canonical tree := by
    rw [ofJson?]
    refine .bind .any fun fields _ => ?_
    split
    · exact (Expr.codec.required.canonical _).bind fun expr holds =>
        .bind .any fun _ _ => .pure holds
    · exact .none

structure Assignment.Canonical (a : Assignment) : Prop where
  column : Text.lower a.column = a.column
  value : a.value.Canonical

theorem Assignment.codec : Codec ofJson? toJson Canonical where
  reads a canonical := by
    have fields : Json.fields? ["column", "value"] a.toJson =
        some [some (.str a.column), some a.value.toJson] := rfl
    have column := Codec.lowerText.required.reads a.column canonical.column
    have value := Expr.codec.required.reads a.value canonical.value
    simp only [ofJson?, fields, Option.bind_eq_bind, Option.bind_some, column, value]
    rfl
  canonical tree := by
    rw [ofJson?]
    refine .bind .any fun fields _ => ?_
    split
    · exact (Codec.lowerText.required.canonical _).bind fun column lower =>
        (Expr.codec.required.canonical _).bind fun value holds => .pure ⟨lower, holds⟩
    · exact .none

theorem Assignment.canonical_to (column : String) {value : Expr} (holds : value.Canonical) :
    (Assignment.to column value).Canonical := ⟨Text.lower_lower column, holds⟩

/-! ### Queries -/

namespace Select

structure Canonical (s : Select) : Prop where
  projections : ∀ p ∈ s.projections, p.Canonical
  base : s.base.Canonical
  joins : ∀ j ∈ s.joins, j.Canonical
  filter : ∀ e ∈ s.filter, e.Canonical
  groupBy : ∀ e ∈ s.groupBy, e.Canonical
  orderBy : ∀ k ∈ s.orderBy, k.Canonical
  limit : ∀ n ∈ s.limit, n < Nat.pow 2 64
  offset : ∀ n ∈ s.offset, n < Nat.pow 2 64

/-- The fields of a query as trees. -/
def fields (s : Select) : List (String × Option Json) :=
  [("projections", some (.arr (s.projections.map Projection.toJson))),
    ("from", some s.base.toJson),
    ("joins", Json.ofItems? (s.joins.map Join.toJson)),
    ("where", s.filter.map Expr.toJson),
    ("group_by", Json.ofItems? (s.groupBy.map Expr.toJson)),
    ("order_by", Json.ofItems? (s.orderBy.map SortKey.toJson)),
    ("limit", s.limit.map Json.ofNat),
    ("offset", s.offset.map Json.ofNat)]

theorem members_eq (s : Select) : s.members = Json.written s.fields := by
  simp [members, fields, Json.written, Json.listMember_eq, someMember]

theorem codec : Codec ofJson? (fun s => .obj s.members) Canonical where
  reads s canonical := by
    have distinct : (s.fields.map Prod.fst).Nodup := by simp [fields]
    have read := Json.fields?_written distinct
    rw [← members_eq] at read
    simp only [fields, List.map_cons, List.map_nil] at read
    have projections := Projection.codec.list.required.reads s.projections canonical.projections
    have base := Source.codec.required.reads s.base canonical.base
    have joins := Join.codec.items.reads s.joins canonical.joins
    have filter := (Expr.codec.optional Expr.toJson_ne_null).reads s.filter canonical.filter
    have groupBy := Expr.codec.items.reads s.groupBy canonical.groupBy
    have orderBy := SortKey.codec.items.reads s.orderBy canonical.orderBy
    have limit := (Codec.count.optional nofun).reads s.limit canonical.limit
    have offset := (Codec.count.optional nofun).reads s.offset canonical.offset
    simp only [ofJson?, read, Option.bind_eq_bind, Option.bind_some, projections, base, joins,
      filter, groupBy, orderBy, limit, offset]
    rfl
  canonical tree := by
    rw [ofJson?]
    refine .bind .any fun fields _ => ?_
    split
    · refine (Projection.codec.list.required.canonical _).bind fun projections named => ?_
      refine (Source.codec.required.canonical _).bind fun base lower => ?_
      refine (Join.codec.items.canonical _).bind fun joins joined => ?_
      refine ((Expr.codec.optional Expr.toJson_ne_null).canonical _).bind fun filter filtered => ?_
      refine (Expr.codec.items.canonical _).bind fun groupBy grouped => ?_
      refine (SortKey.codec.items.canonical _).bind fun orderBy ordered => ?_
      refine ((Codec.count.optional nofun).canonical _).bind fun limit small => ?_
      refine ((Codec.count.optional nofun).canonical _).bind fun offset smallOffset => ?_
      exact .pure ⟨named, lower, joined, filtered, grouped, ordered, small, smallOffset⟩
    · exact .none

end Select

/-! ### Insertions and updates -/

/-- The expressions of given rows are canonical, or the query that yields the rows is. -/
def RowSource.Canonical : RowSource → Prop
  | values rows => ∀ row ∈ rows, ∀ e ∈ row, e.Canonical
  | query select => select.Canonical

theorem RowSource.codec : Codec ofJson? toJson Canonical where
  reads
    | values rows, canonical => by
      have read := Expr.codec.list.list.reads rows canonical
      show (do return values (← Json.asList? _
        (.arr (rows.map fun row : List Expr => .arr (row.map Expr.toJson))))) = _
      rw [read]
      rfl
    | query select, canonical => by
      have read := Select.codec.reads select canonical
      show (do return query (← Select.ofJson? (.obj select.members))) = _
      rw [read]
      rfl
  canonical tree := by
    rw [ofJson?]
    refine .bind .any fun member _ => ?_
    split
    · exact (Expr.codec.list.list.canonical _).bind fun rows holds => .pure holds
    · exact (Select.codec.canonical _).bind fun select holds => .pure holds
    · exact .none

namespace Insert

structure Canonical (s : Insert) : Prop where
  table : Text.lower s.table = s.table
  source : s.source.Canonical
  returning : ∀ p ∈ s.returning, p.Canonical

/-- The fields of an insertion as trees. -/
def fields (s : Insert) : List (String × Option Json) :=
  [("table", some (.str s.table)),
    ("columns", some (.arr (s.columns.map .str))),
    ("source", some s.source.toJson),
    ("returning", Json.ofItems? (s.returning.map Projection.toJson))]

theorem members_eq (s : Insert) : s.members = Json.written s.fields := by
  simp [members, fields, Json.written, Json.listMember_eq, someMember]

theorem canonical_into (table : String) (columns : List String) {source : RowSource}
    (holds : source.Canonical) : (into table columns source).Canonical :=
  ⟨Text.lower_lower table, holds, by simp [into]⟩

theorem codec : Codec ofJson? (fun s => .obj s.members) Canonical where
  reads s canonical := by
    have distinct : (s.fields.map Prod.fst).Nodup := by simp [fields]
    have read := Json.fields?_written distinct
    rw [← members_eq] at read
    simp only [fields, List.map_cons, List.map_nil] at read
    have table := Codec.lowerText.required.reads s.table canonical.table
    have columns := Codec.text.list.required.reads s.columns fun _ _ => trivial
    have source := RowSource.codec.required.reads s.source canonical.source
    have returning := Projection.codec.items.reads s.returning canonical.returning
    simp only [ofJson?, read, Option.bind_eq_bind, Option.bind_some, table, columns, source,
      returning]
    rfl
  canonical tree := by
    rw [ofJson?]
    refine .bind .any fun fields _ => ?_
    split
    · refine (Codec.lowerText.required.canonical _).bind fun table lower => ?_
      refine .bind .any fun columns _ => ?_
      refine (RowSource.codec.required.canonical _).bind fun source holds => ?_
      refine (Projection.codec.items.canonical _).bind fun returning named => ?_
      exact .pure ⟨lower, holds, named⟩
    · exact .none

end Insert

namespace Update

structure Canonical (s : Update) : Prop where
  table : Text.lower s.table = s.table
  assignments : ∀ a ∈ s.assignments, a.Canonical
  filter : ∀ e ∈ s.filter, e.Canonical
  returning : ∀ p ∈ s.returning, p.Canonical

/-- The fields of an update as trees. -/
def fields (s : Update) : List (String × Option Json) :=
  [("table", some (.str s.table)),
    ("set", some (.arr (s.assignments.map Assignment.toJson))),
    ("where", s.filter.map Expr.toJson),
    ("returning", Json.ofItems? (s.returning.map Projection.toJson))]

theorem members_eq (s : Update) : s.members = Json.written s.fields := by
  simp [members, fields, Json.written, Json.listMember_eq, someMember]

theorem codec : Codec ofJson? (fun s => .obj s.members) Canonical where
  reads s canonical := by
    have distinct : (s.fields.map Prod.fst).Nodup := by simp [fields]
    have read := Json.fields?_written distinct
    rw [← members_eq] at read
    simp only [fields, List.map_cons, List.map_nil] at read
    have table := Codec.lowerText.required.reads s.table canonical.table
    have assignments := Assignment.codec.list.required.reads s.assignments canonical.assignments
    have filter := (Expr.codec.optional Expr.toJson_ne_null).reads s.filter canonical.filter
    have returning := Projection.codec.items.reads s.returning canonical.returning
    simp only [ofJson?, read, Option.bind_eq_bind, Option.bind_some, table, assignments, filter,
      returning]
    rfl
  canonical tree := by
    rw [ofJson?]
    refine .bind .any fun fields _ => ?_
    split
    · refine (Codec.lowerText.required.canonical _).bind fun table lower => ?_
      refine (Assignment.codec.list.required.canonical _).bind fun assignments set => ?_
      refine ((Expr.codec.optional Expr.toJson_ne_null).canonical _).bind fun filter filtered => ?_
      refine (Projection.codec.items.canonical _).bind fun returning named => ?_
      exact .pure ⟨lower, set, filtered, named⟩
    · exact .none

end Update

/-! ### Statements -/

namespace Statement

/-- The names of tables, sources, columns, functions and assigned columns in a statement are in
lower case, no object in its literals has a repeated member, and its counts fit a word. -/
def Canonical : Statement → Prop
  | select s => s.Canonical
  | insert s => s.Canonical
  | update s => s.Canonical

theorem codec : Codec ofJson? toJson Canonical where
  reads
    | select s, canonical => by
      have apart : "kind" ∉ s.fields.map Prod.fst := by simp [Select.fields]
      have read := Select.codec.reads s canonical
      rw [Select.members_eq] at read
      rw [toJson, ofJson?, Select.members_eq, Json.tagged?_written .alone (by decide) apart]
      simp only [Option.bind_eq_bind, Option.bind_some, read]
      rfl
    | insert s, canonical => by
      have apart : "kind" ∉ s.fields.map Prod.fst := by simp [Insert.fields]
      have read := Insert.codec.reads s canonical
      rw [Insert.members_eq] at read
      rw [toJson, ofJson?, Insert.members_eq, Json.tagged?_written .alone (by decide) apart]
      simp only [Option.bind_eq_bind, Option.bind_some, read]
      rfl
    | update s, canonical => by
      have apart : "kind" ∉ s.fields.map Prod.fst := by simp [Update.fields]
      have read := Update.codec.reads s canonical
      rw [Update.members_eq] at read
      rw [toJson, ofJson?, Update.members_eq, Json.tagged?_written .alone (by decide) apart]
      simp only [Option.bind_eq_bind, Option.bind_some, read]
      rfl
  canonical tree := by
    rw [ofJson?]
    refine .bind .any fun kind _ => ?_
    split
    · exact (Select.codec.canonical _).bind fun select holds => .pure holds
    · exact (Insert.codec.canonical _).bind fun insert holds => .pure holds
    · exact (Update.codec.canonical _).bind fun update holds => .pure holds
    · exact .none

/-- A canonical statement is read back from its tree. What is read from any tree is canonical, so
that it is read again from the tree it is written to. -/
theorem ofJson?_toJson :
    (∀ s : Statement, s.Canonical → ofJson? s.toJson = some s) ∧
      ∀ tree s, ofJson? tree = some s → s.Canonical ∧ ofJson? s.toJson = some s :=
  ⟨codec.reads, fun tree s known => ⟨codec.canonical tree s known, codec.stable known⟩⟩

/-- The titles of adults, put among the teams in capitals. -/
def titledTeams : Insert :=
  .into "Teams" ["Title", "meta"] (.query
    { projections :=
        [⟨.invoke "UPPER" [.ref "U" "Name"], some "Title"⟩,
          ⟨.literal (.obj [("tags", .arr [.null])]), none⟩]
      base := .ofTable "Users" (some "U")
      joins := [⟨.left, .ofTable "Users", .not (.inList (.ref "u" "age") [.ref "users" "age"] false)⟩]
      filter := some (.comparison .ge (.ref "u" "age") (.literal (.ofNat 18)))
      orderBy := [⟨.negate (.ref "u" "age"), true⟩]
      limit := some 3 })

/-- An update of a table, written with capitals, with an unknown member and a repeated one. -/
def capitalUpdate : Json :=
  .obj
    [("kind", .str "update"), ("note", .null), ("table", .str "USERS"),
      ("set", .arr [.obj
        [("column", .str "Name"),
          ("value", .obj [("kind", .str "literal"),
            ("value", .obj [("a", .null), ("a", .bool true)])])]])]

theorem ofJson?_toJson_titledTeams :
    (insert titledTeams).Canonical ∧
      ofJson? (insert titledTeams).toJson = some (insert titledTeams) ∧
      ∃ s, ofJson? capitalUpdate = some s ∧ s.table = "users" ∧ s.Canonical ∧
        ofJson? s.toJson = some s := by
  have age : (Expr.ref "u" "age").Canonical := Expr.canonical_ref _ _
  have canonical : (insert titledTeams).Canonical := by
    refine Insert.canonical_into _ _
      { projections := ?_
        base := Source.canonical_ofTable _ _
        joins := ?_
        filter := ?_
        groupBy := by simp
        orderBy := ?_
        limit := by simp
        offset := by simp }
    · have name : (Expr.invoke "UPPER" [.ref "U" "Name"]).Canonical :=
        Expr.canonical_invoke _ (by simpa using Expr.canonical_ref "U" "Name")
      have tags : (Expr.literal (.obj [("tags", .arr [.null])])).Canonical := rfl
      exact List.forall_mem_cons.mpr ⟨name, List.forall_mem_singleton.mpr tags⟩
    · have items : Expr.CanonicalAll [.ref "users" "age"] := ⟨Expr.canonical_ref _ _, trivial⟩
      exact List.forall_mem_singleton.mpr ⟨Source.canonical_ofTable _ _, age, items⟩
    · rintro e ⟨⟩
      exact ⟨age, rfl⟩
    · exact List.forall_mem_singleton.mpr age
  have known : (ofJson? capitalUpdate).isSome = true := by decide +kernel
  obtain ⟨s, known⟩ := Option.isSome_iff_exists.mp known
  have table : (ofJson? capitalUpdate).map Statement.table = some "users" := by decide +kernel
  rw [known] at table
  obtain ⟨again, stable⟩ := ofJson?_toJson.2 capitalUpdate s known
  exact ⟨canonical, ofJson?_toJson.1 _ canonical, s, known, Option.some.inj table, again, stable⟩

end Statement
end RecordQuery
