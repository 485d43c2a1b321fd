import RecordQuery.Proofs.StatementTrees

/-!
The names in the tree of a statement. What a tree inside a statement stands for is its role, and the
role says which of its parts are names (`Role.fields`, `Role.item`). `Json.lowerNames` puts all
names of a tree into lower case and keeps everything else as it is. From a tree with its names in
lower case the same statement is read as from the tree itself, but for its aliases and its inserted
columns, which are in lower case then (`Statement.ofJson?_lowerNames`).
-/
namespace RecordQuery

/-! ### Roles -/

/-- The structures that are told by their kind. -/
inductive Choice where
  | expr | statement

/-- What a tree inside the tree of a statement stands for. -/
inductive Role where
  /-- Anything without names: a literal, an operator, a count, the name of an output column. -/
  | other
  /-- The name of a table, a source, a column or a function. -/
  | name
  | list (items : Role)
  | record (fields : List (String × Role))
  | choice (family : Choice)

namespace Role

/-- The role of an expression inside a statement. -/
def expr : Role := choice .expr

def projection : Role := record [("expr", expr), ("alias", other)]

def source : Role := record [("table", name), ("alias", name)]

def join : Role := record [("kind", other), ("source", source), ("on", expr)]

def sortKey : Role := record [("expr", expr), ("descending", other)]

def assignment : Role := record [("column", name), ("value", expr)]

/-- The fields of a query. -/
def query : List (String × Role) :=
  [("projections", list projection), ("from", source), ("joins", list join), ("where", expr),
    ("group_by", list expr), ("order_by", list sortKey), ("limit", other), ("offset", other)]

def rowSource : Role := record [("values", list (list expr)), ("select", record query)]

/-- The fields of an insertion. -/
def insertion : List (String × Role) :=
  [("table", name), ("columns", list name), ("source", rowSource), ("returning", list projection)]

/-- The fields of an update. -/
def update : List (String × Role) :=
  [("table", name), ("set", list assignment), ("where", expr), ("returning", list projection)]

/-- The role of a field of an expression. -/
def exprField : String → Role
  | "source" | "column" | "func" => name
  | "left" | "right" | "operand" => expr
  | "list" | "args" => list expr
  | _ => other

end Role

namespace Choice

/-- Where a choice is read. -/
def place : Choice → Json.Place
  | expr => .nested
  | statement => .alone

/-- The names of the kinds. -/
def kinds : Choice → List String
  | expr => Expr.kinds
  | statement => ["select", "insert", "update"]

/-- The fields that a kind has besides its tag. -/
def fields : Choice → String → List (String × Role)
  | expr, kind => (Expr.fieldNames kind).map fun field => (field, Role.exprField field)
  | statement, "select" => Role.query
  | statement, "insert" => Role.insertion
  | statement, "update" => Role.update
  | statement, _ => []

end Choice

namespace Role

/-- The fields that a tree of a role has, in their declared order; a tag comes first. -/
def fields : Role → Json → List (String × Role)
  | record fields, _ => fields
  | choice family, tree =>
    match tree.tagged? family.place family.kinds with
    | some (kind, _) => ("kind", other) :: family.fields kind
    | none => []
  | _, _ => []

/-- The role of a member among fields. -/
def ofMember (fields : List (String × Role)) (key : String) : Role :=
  (Dict.get? fields key).getD other

/-- The role of the item at a place of the list of fields. -/
def ofPlace (fields : List (String × Role)) (index : Nat) : Role :=
  (fields[index]?.map Prod.snd).getD other

/-- The role of an item of a tree: all items of a list have one role, those of a structure are its
fields. -/
def item : Role → Json → Nat → Role
  | list items, _ => fun _ => items
  | role, tree => ofPlace (role.fields tree)

/-- What becomes of a text. -/
def spelling : Role → String → String
  | name => Text.lower
  | _ => id

end Role

/-! ### Names in lower case -/

namespace Json

mutual

/-- The tree with all its names in lower case. -/
def lowerNames (role : Role) : Json → Json
  | str s => str (role.spelling s)
  | arr items => arr (lowerItems (role.item (arr items)) items)
  | obj members => obj (lowerMembers (Role.ofMember (role.fields (obj members))) members)
  | tree => tree

/-- The items of a list, the first of which has the role of place 0. -/
def lowerItems (roles : Nat → Role) : List Json → List Json
  | [] => []
  | x :: xs => lowerNames (roles 0) x :: lowerItems (fun index => roles (index + 1)) xs

/-- The members of an object. -/
def lowerMembers (roles : String → Role) : List (String × Json) → List (String × Json)
  | [] => []
  | (key, value) :: rest => (key, lowerNames (roles key) value) :: lowerMembers roles rest

end

theorem lowerItems_list (role : Role) (items : List Json) :
    lowerItems (fun _ => role) items = items.map (lowerNames role) := by
  induction items with
  | nil => rfl
  | cons x xs ih => rw [lowerItems, List.map_cons, ih]

theorem lowerMembers_eq (roles : String → Role) (members : List (String × Json)) :
    lowerMembers roles members =
      members.map fun member => (member.1, lowerNames (roles member.1) member.2) := by
  induction members with
  | nil => rfl
  | cons member rest ih => rw [lowerMembers, List.map_cons, ih]

mutual

/-- What has no names stays as it is. -/
@[simp] theorem lowerNames_other : ∀ tree : Json, tree.lowerNames .other = tree
  | null | bool _ | num _ | str _ => rfl
  | arr items => congrArg arr (lowerItems_other items)
  | obj members => congrArg obj (lowerMembers_other members)

theorem lowerItems_other : ∀ items : List Json, lowerItems (fun _ => .other) items = items
  | [] => rfl
  | x :: xs => by rw [lowerItems, lowerNames_other x, lowerItems_other xs]

theorem lowerMembers_other : ∀ members : List (String × Json),
    lowerMembers (fun _ => .other) members = members
  | [] => rfl
  | (key, value) :: rest => by rw [lowerMembers, lowerNames_other value, lowerMembers_other rest]

end

mutual

/-- Lower case does not change how deep a tree is. -/
theorem depth_lowerNames : ∀ (role : Role) (tree : Json), (tree.lowerNames role).depth = tree.depth
  | _, null | _, bool _ | _, num _ | _, str _ => rfl
  | role, arr items => by
    rw [lowerNames, depth, depth, depthItems_lowerItems _ items]
  | role, obj members => by
    rw [lowerNames, depth, depth, depthMembers_lowerMembers _ members]

theorem depthItems_lowerItems : ∀ (roles : Nat → Role) (items : List Json),
    depthItems (lowerItems roles items) = depthItems items
  | _, [] => rfl
  | roles, x :: xs => by
    rw [lowerItems, depthItems, depthItems, depth_lowerNames _ x, depthItems_lowerItems _ xs]

theorem depthMembers_lowerMembers : ∀ (roles : String → Role) (members : List (String × Json)),
    depthMembers (lowerMembers roles members) = depthMembers members
  | _, [] => rfl
  | roles, (key, value) :: rest => by
    rw [lowerMembers, depthMembers, depthMembers, depth_lowerNames _ value,
      depthMembers_lowerMembers _ rest]

end

theorem lowerNames_ne_null {tree : Json} (given : tree ≠ null) (role : Role) :
    tree.lowerNames role ≠ null := by
  cases tree with
  | null => exact absurd rfl given
  | _ => exact nofun

/-! ### Members -/

theorem occurrences_lowerMembers (roles : String → Role) (members : List (String × Json))
    (key : String) : occurrences (lowerMembers roles members) key = occurrences members key := by
  rw [lowerMembers_eq, occurrences, List.filter_map, List.length_map]
  rfl

theorem get?_lowerMembers (roles : String → Role) (members : List (String × Json)) (key : String) :
    Dict.get? (lowerMembers roles members) key =
      (Dict.get? members key).map (lowerNames (roles key)) := by
  induction members with
  | nil => rfl
  | cons member rest ih =>
    obtain ⟨name, value⟩ := member
    by_cases here : name = key
    · simp [lowerMembers, Dict.get?, here]
    · simp [lowerMembers, Dict.get?, here, ih]

end Json

theorem Role.ofMember_of_mem {fields : List (String × Role)}
    (distinct : (fields.map Prod.fst).Nodup) :
    ∀ field ∈ fields, ofMember fields field.1 = field.2 := by
  induction fields with
  | nil => intro field listed; cases listed
  | cons first rest ih =>
    obtain ⟨apart, others⟩ := List.nodup_cons.mp distinct
    intro field listed
    rcases List.mem_cons.mp listed with rfl | later
    · simp [ofMember, Dict.get?]
    · have other : first.1 ≠ field.1 := fun same =>
        apart (List.mem_map.mpr ⟨field, later, same.symm⟩)
      simpa [ofMember, Dict.get?, other] using ih others field later

namespace Json

/-! ### Fields -/

/-- The values of fields with their names in lower case. -/
def lowerFields (fields : List (String × Role)) (values : List (Option Json)) :
    List (Option Json) :=
  List.zipWith (fun field value => value.map (lowerNames field.2)) fields values

theorem lowerItems_fields (fields : List (String × Role)) :
    ∀ items : List Json, items.length ≤ fields.length →
      (lowerItems (Role.ofPlace fields) items).map some ++
          List.replicate (fields.length - items.length) none =
        lowerFields fields
          (items.map some ++ List.replicate (fields.length - items.length) none) := by
  induction fields with
  | nil =>
    intro items short
    rw [List.eq_nil_of_length_eq_zero (Nat.le_zero.mp short)]
    rfl
  | cons field rest ih =>
    intro items short
    cases items with
    | nil => exact congrArg (none :: ·) (ih [] (Nat.zero_le _))
    | cons x xs =>
      have later := ih xs (Nat.le_of_succ_le_succ short)
      rw [List.length_cons, List.length_cons, Nat.add_sub_add_right]
      exact congrArg (some (x.lowerNames field.2) :: ·) later

theorem length_lowerItems (roles : Nat → Role) (items : List Json) :
    (lowerItems roles items).length = items.length := by
  induction items generalizing roles with
  | nil => rfl
  | cons x xs ih => rw [lowerItems, List.length_cons, List.length_cons, ih]

/-- The fields of a structure are those of the tree as it is written, each with its names in lower
case. -/
theorem fields?_lowerNames {fields : List (String × Role)} (distinct : (fields.map Prod.fst).Nodup)
    (tree : Json) :
    fields? (fields.map Prod.fst) (tree.lowerNames (.record fields)) =
      (fields? (fields.map Prod.fst) tree).map (lowerFields fields) := by
  cases tree with
  | null | bool _ | num _ | str _ => rfl
  | arr items =>
    have placed : Role.item (.record fields) (arr items) = Role.ofPlace fields := rfl
    rw [lowerNames, placed, fields?, fields?, length_lowerItems, List.length_map]
    by_cases fits : items.length ≤ fields.length
    · rw [if_pos fits, if_pos fits, Option.map_some, lowerItems_fields fields items fits]
    · rw [if_neg fits, if_neg fits, Option.map_none]
  | obj members =>
    have read : (fields.map Prod.fst).map
        (Dict.get? (lowerMembers (Role.ofMember fields) members)) =
          lowerFields fields ((fields.map Prod.fst).map (Dict.get? members)) := by
      rw [lowerFields, List.map_map, List.map_map, List.zipWith_map_right, List.zipWith_self]
      refine List.map_congr_left fun field listed => ?_
      rw [Function.comp_apply, get?_lowerMembers, Role.ofMember_of_mem distinct field listed]
      rfl
    rw [lowerNames, Role.fields, fields?, fields?]
    simp only [occurrences_lowerMembers]
    split
    · rw [Option.map_some, read]
    · rw [Option.map_none]

/-- The only member of an object stays the only one. -/
theorem asSingle?_lowerNames (fields : List (String × Role)) (tree : Json) :
    asSingle? (tree.lowerNames (.record fields)) =
      (asSingle? tree).map fun member =>
        (member.1, member.2.lowerNames (Role.ofMember fields member.1)) :=
  match tree with
  | null | bool _ | num _ | str _ | arr _ | obj [] | obj [_] | obj (_ :: _ :: _) => rfl

theorem length_of_fields? {names : List String} {tree : Json} {values : List (Option Json)}
    (known : fields? names tree = some values) : values.length = names.length := by
  cases tree with
  | null | bool _ | num _ | str _ => cases known
  | arr items =>
    rw [fields?, Option.ite_none_right_eq_some] at known
    obtain ⟨fits, known⟩ := known
    cases known
    rw [List.length_append, List.length_map, List.length_replicate, Nat.add_sub_cancel' fits]
  | obj members =>
    rw [fields?, Option.ite_none_right_eq_some] at known
    cases known.2
    exact List.length_map _

/-! ### Tags -/

theorem mem_of_asTag? {place : Place} {names : List String} {tree : Json} {name : String}
    (known : asTag? place names tree = some name) : name ∈ names := by
  rw [asTag?.eq_def] at known
  split at known
  · rw [Option.ite_none_right_eq_some] at known
    obtain ⟨listed, same⟩ := known
    exact Option.some.inj same ▸ listed
  · rw [Option.ite_none_right_eq_some] at known
    exact List.mem_of_getElem? known.2
  · cases known

theorem mem_of_tagged? {place : Place} {names : List String} {tree rest : Json} {name : String}
    (known : tagged? place names tree = some (name, rest)) : name ∈ names := by
  rw [tagged?.eq_def] at known
  split at known
  · rw [Option.ite_none_right_eq_some] at known
    obtain ⟨_, known⟩ := known
    split at known
    · obtain ⟨found, tagged, same⟩ := Option.map_eq_some_iff.mp known
      cases same
      exact mem_of_asTag? tagged
    · cases known
  · obtain ⟨found, tagged, same⟩ := Option.map_eq_some_iff.mp known
    cases same
    exact mem_of_asTag? tagged
  · cases known

theorem fields_of_tagged? {family : Choice} {tree rest : Json} {kind : String}
    (known : tagged? family.place family.kinds tree = some (kind, rest)) :
    Role.fields (.choice family) tree = ("kind", .other) :: family.fields kind := by
  rw [Role.fields, known]

/-- A structure of unknown kind has no fields that could be names. -/
theorem lowerNames_of_untagged {family : Choice} {tree : Json}
    (unknown : tagged? family.place family.kinds tree = none) :
    tree.lowerNames (.choice family) = tree := by
  have none : Role.fields (.choice family) tree = [] := by rw [Role.fields, unknown]
  cases tree with
  | null | bool _ | num _ | str _ => rfl
  | arr items =>
    have roles : Role.item (.choice family) (arr items) = fun _ => .other :=
      congrArg Role.ofPlace none
    rw [lowerNames, roles, lowerItems_other]
  | obj members =>
    have roles : Role.ofMember (Role.fields (.choice family) (obj members)) = fun _ => .other :=
      congrArg Role.ofMember none
    rw [lowerNames, roles, lowerMembers_other]

theorem filter_lowerMembers {roles others : String → Role}
    (agree : ∀ key, key ≠ "kind" → roles key = others key) (members : List (String × Json)) :
    (lowerMembers roles members).filter (·.1 != "kind") =
      lowerMembers others (members.filter (·.1 != "kind")) := by
  induction members with
  | nil => rfl
  | cons member rest ih =>
    obtain ⟨key, value⟩ := member
    by_cases tag : key = "kind"
    · simpa [lowerMembers, tag] using ih
    · simp [lowerMembers, tag, agree key tag, ih]

/-- The tag of a structure stays as it is, and its other fields are those of its kind. -/
theorem tagged?_lowerNames (family : Choice) (tree : Json) :
    tagged? family.place family.kinds (tree.lowerNames (.choice family)) =
      (tagged? family.place family.kinds tree).map fun found =>
        (found.1, found.2.lowerNames (.record (family.fields found.1))) := by
  cases known : tagged? family.place family.kinds tree with
  | none => rw [lowerNames_of_untagged known, known, Option.map_none]
  | some found =>
    obtain ⟨kind, rest⟩ := found
    have fields := fields_of_tagged? known
    cases tree with
    | null | bool _ | num _ | str _ => cases known
    | arr items =>
      cases items with
      | nil => cases known
      | cons tag items =>
        have roles : Role.item (.choice family) (arr (tag :: items)) =
            Role.ofPlace (("kind", .other) :: family.fields kind) := congrArg Role.ofPlace fields
        obtain ⟨name, tagged, same⟩ := Option.map_eq_some_iff.mp known
        cases same
        -- The tag is not a name, so the kind is told as before; behind it are the fields.
        have first : Role.ofPlace (("kind", .other) :: family.fields kind) 0 = .other := rfl
        rw [lowerNames, roles, lowerItems, first, lowerNames_other, tagged?, tagged]
        rfl
    | obj members =>
      rw [tagged?, Option.ite_none_right_eq_some] at known
      obtain ⟨once, known⟩ := known
      split at known
      · rename_i tag present
        obtain ⟨name, tagged, same⟩ := Option.map_eq_some_iff.mp known
        cases same
        have first : Role.ofMember (("kind", .other) :: family.fields kind) "kind" = .other := rfl
        have later : ∀ key, key ≠ "kind" →
            Role.ofMember (("kind", .other) :: family.fields kind) key =
              Role.ofMember (family.fields kind) key := fun key other => by
          rw [Role.ofMember, Role.ofMember, Dict.get?, if_neg other.symm]
        rw [lowerNames, fields, tagged?, occurrences_lowerMembers, if_pos once,
          get?_lowerMembers, present, Option.map_some, first, lowerNames_other,
          filter_lowerMembers later]
        simp only [tagged, Option.map_some]
        rfl
      · cases known

end Json

/-! ### Readers -/

/-- Names may be put into lower case before something is read, if in what is read the rest of them
are put into lower case afterwards. What is read are trees, or members of trees that may be left
out. -/
def Lowers {τ α : Type} (read : τ → Option α) (lower : τ → τ) (lowered : α → α) : Prop :=
  ∀ t, read (lower t) = (read t).map lowered

namespace Lowers

theorem text : Lowers Json.asText? (Json.lowerNames .name) Text.lower := by
  intro tree
  cases tree <;> rfl

theorem lowerText : Lowers Expr.asLower? (Json.lowerNames .name) id := by
  intro tree
  rw [Expr.asLower?, text tree, Option.map_id, Option.map_map]
  exact congrArg (Option.map · tree.asText?) (funext Text.lower_lower)

/-- What has no names is read as it is. -/
theorem other {α : Type} (read : Json → Option α) : Lowers read (Json.lowerNames .other) id := by
  intro tree
  rw [Json.lowerNames_other, Option.map_id, id]

section
variable {α : Type} {read : Json → Option α} {role : Role} {lowered : α → α}
  (each : Lowers read (Json.lowerNames role) lowered)

include each

theorem list : Lowers (Json.asList? read) (Json.lowerNames (.list role)) (List.map lowered) := by
  intro tree
  cases tree with
  | null | bool _ | num _ | str _ | obj _ => rfl
  | arr items =>
    have same : Role.item (.list role) (.arr items) = fun _ => role := rfl
    rw [Json.lowerNames, same, Json.lowerItems_list, Json.asList?, Json.asList?]
    induction items with
    | nil => rfl
    | cons x xs ih =>
      rw [List.map_cons, List.mapM_cons, List.mapM_cons, each x, ih rfl]
      cases read x with
      | none => rfl
      | some a => cases xs.mapM read <;> rfl

theorem required :
    Lowers (Json.required read) (Option.map (Json.lowerNames role)) lowered
  | none => rfl
  | some tree => each tree

theorem defaulted {value : α} (own : lowered value = value) :
    Lowers (Json.defaulted value read) (Option.map (Json.lowerNames role)) lowered
  | none => congrArg some own.symm
  | some tree => each tree

theorem optional :
    Lowers (Json.optional read) (Option.map (Json.lowerNames role)) (Option.map lowered)
  | none => rfl
  | some tree => by
    by_cases empty : tree = .null
    · subst empty
      rfl
    · have given := Json.lowerNames_ne_null empty role
      rw [Option.map_some, Json.optional.eq_3 _ _ given, Json.optional.eq_3 _ _ empty, each tree,
        Option.map_map, Option.map_map]
      rfl

end

/-- A structure is read from its fields. -/
theorem record {α : Type} {next : List (Option Json) → Option α} {lowered : α → α}
    (fields : List (String × Role)) (distinct : (fields.map Prod.fst).Nodup)
    (each : ∀ values : List (Option Json), values.length = fields.length →
      next (Json.lowerFields fields values) = (next values).map lowered) :
    Lowers (fun tree => Json.fields? (fields.map Prod.fst) tree >>= next)
      (Json.lowerNames (.record fields)) lowered := by
  intro tree
  dsimp only
  rw [Json.fields?_lowerNames distinct]
  cases known : Json.fields? (fields.map Prod.fst) tree with
  | none => rfl
  | some values => exact each values ((Json.length_of_fields? known).trans (List.length_map _))

/-- A structure that is told by its kind is read from its other fields. -/
theorem choice {α : Type} {next : String × Json → Option α} {lowered : α → α} (family : Choice)
    (each : ∀ kind ∈ family.kinds, ∀ rest : Json,
      next (kind, rest.lowerNames (.record (family.fields kind))) =
        (next (kind, rest)).map lowered) :
    Lowers (fun tree => Json.tagged? family.place family.kinds tree >>= next)
      (Json.lowerNames (.choice family)) lowered := by
  intro tree
  dsimp only
  rw [Json.tagged?_lowerNames]
  cases known : Json.tagged? family.place family.kinds tree with
  | none => rfl
  | some found => exact each found.1 (Json.mem_of_tagged? known) found.2

/-- What is read first is put into lower case first. -/
theorem bind {α β : Type} {first written : Option α} {next later : α → Option β} {f : α → α}
    {g : β → β} (read : first = written.map f) (continued : ∀ a, next (f a) = (later a).map g) :
    (first >>= next) = (written >>= later).map g := by
  subst read
  cases written with
  | none => rfl
  | some a => exact continued a

end Lowers

/-! ### Expressions -/

namespace Expr

/-- The spelling of the names in an expression is gone when it has been read. -/
theorem lowers_read? (fuel : Nat) :
    Lowers (read? fuel .nested) (Json.lowerNames .expr) id := by
  induction fuel with
  | zero => exact fun _ => rfl
  | succ fuel ih =>
    have name := Lowers.lowerText.required
    have part := ih.required
    have parts : Lowers (Json.asList? (read? fuel .nested)) (Json.lowerNames (.list .expr)) id := by
      simpa using ih.list
    have plain (field : Option Json) : field.map (Json.lowerNames .other) = field.map id :=
      congrArg (Option.map · field) (funext Json.lowerNames_other)
    refine Lowers.choice .expr fun kind listed rest => ?_
    simp only [Choice.kinds, kinds, List.mem_cons, List.not_mem_nil, or_false] at listed
    rcases listed with rfl | rfl | rfl | rfl | rfl | rfl | rfl | rfl | rfl | rfl
    · refine Lowers.record (Choice.fields .expr "literal") (by decide) ?_ rest
      exact fun
        | [value], _ =>
          Lowers.bind (plain value) fun _ => rfl
    · refine Lowers.record (Choice.fields .expr "source_column") (by decide) ?_ rest
      exact fun
        | [source, field], _ =>
          Lowers.bind (name source) fun _ => Lowers.bind (name field) fun _ => rfl
    · refine Lowers.record (Choice.fields .expr "binary") (by decide) ?_ rest
      exact fun
        | [op, left, right], _ =>
          Lowers.bind ((Lowers.other _).required op) fun _ =>
            Lowers.bind (part left) fun _ => Lowers.bind (part right) fun _ => rfl
    · refine Lowers.record (Choice.fields .expr "comparison") (by decide) ?_ rest
      exact fun
        | [op, left, right], _ =>
          Lowers.bind ((Lowers.other _).required op) fun _ =>
            Lowers.bind (part left) fun _ => Lowers.bind (part right) fun _ => rfl
    · refine Lowers.record (Choice.fields .expr "logical") (by decide) ?_ rest
      exact fun
        | [op, left, right], _ =>
          Lowers.bind ((Lowers.other _).required op) fun _ =>
            Lowers.bind (part left) fun _ => Lowers.bind (part right) fun _ => rfl
    · refine Lowers.record (Choice.fields .expr "not") (by decide) ?_ rest
      exact fun
        | [operand], _ =>
          Lowers.bind (part operand) fun _ => rfl
    · refine Lowers.record (Choice.fields .expr "negate") (by decide) ?_ rest
      exact fun
        | [operand], _ =>
          Lowers.bind (part operand) fun _ => rfl
    · refine Lowers.record (Choice.fields .expr "is_null") (by decide) ?_ rest
      exact fun
        | [operand, negated], _ =>
          Lowers.bind (part operand) fun _ =>
            Lowers.bind ((Lowers.other _).defaulted rfl negated) fun _ => rfl
    · refine Lowers.record (Choice.fields .expr "in_list") (by decide) ?_ rest
      exact fun
        | [operand, items, negated], _ =>
          Lowers.bind (part operand) fun _ => Lowers.bind (parts.required items) fun _ =>
            Lowers.bind ((Lowers.other _).defaulted rfl negated) fun _ => rfl
    · refine Lowers.record (Choice.fields .expr "function_call") (by decide) ?_ rest
      exact fun
        | [func, args], _ =>
          Lowers.bind (name func) fun _ =>
            Lowers.bind (parts.defaulted rfl args) fun _ => rfl

theorem lowers : Lowers ofNestedJson? (Json.lowerNames .expr) id := by
  intro tree
  -- The fuel is the depth of the tree, which stays the same.
  rw [ofNestedJson?, Json.depth_lowerNames]
  exact lowers_read? _ tree

end Expr

/-! ### Parts of statements

Of what has been read, the aliases of sources and the columns of an insertion may still be in any
case. -/

theorem Projection.lowers : Lowers ofJson? (Json.lowerNames .projection) id :=
  Lowers.record _ (by decide) fun
    | [expr, givenName], _ =>
      Lowers.bind (Expr.lowers.required expr) fun _ =>
        Lowers.bind ((Lowers.other _).optional givenName) fun _ => by simp

def Source.lowered (s : Source) : Source := { s with givenName := s.givenName.map Text.lower }

theorem Source.lowers : Lowers ofJson? (Json.lowerNames .source) lowered :=
  Lowers.record _ (by decide) fun
    | [table, givenName], _ =>
      Lowers.bind (Lowers.lowerText.required table) fun _ =>
        Lowers.bind (Lowers.text.optional givenName) fun _ => rfl

def Join.lowered (j : Join) : Join := { j with source := j.source.lowered }

theorem Join.lowers : Lowers ofJson? (Json.lowerNames .join) lowered :=
  Lowers.record _ (by decide) fun
    | [kind, source, on], _ =>
      Lowers.bind ((Lowers.other _).required kind) fun _ =>
        Lowers.bind (Source.lowers.required source) fun _ =>
          Lowers.bind (Expr.lowers.required on) fun _ => rfl

theorem SortKey.lowers : Lowers ofJson? (Json.lowerNames .sortKey) id :=
  Lowers.record _ (by decide) fun
    | [expr, descending], _ =>
      Lowers.bind (Expr.lowers.required expr) fun _ =>
        Lowers.bind ((Lowers.other _).defaulted rfl descending) fun _ => rfl

theorem Assignment.lowers : Lowers ofJson? (Json.lowerNames .assignment) id :=
  Lowers.record _ (by decide) fun
    | [column, value], _ =>
      Lowers.bind (Lowers.lowerText.required column) fun _ =>
        Lowers.bind (Expr.lowers.required value) fun _ => rfl

/-! ### Statements -/

def Select.lowered (s : Select) : Select :=
  { s with base := s.base.lowered, joins := s.joins.map Join.lowered }

theorem Select.lowers : Lowers ofJson? (Json.lowerNames (.record Role.query)) lowered :=
  Lowers.record _ (by decide) fun
    | [projections, base, joins, filter, groupBy, orderBy, limit, offset], _ =>
      Lowers.bind (Projection.lowers.list.required projections) fun _ =>
        Lowers.bind (Source.lowers.required base) fun _ =>
          Lowers.bind (Join.lowers.list.defaulted rfl joins) fun _ =>
            Lowers.bind (Expr.lowers.optional filter) fun _ =>
              Lowers.bind (Expr.lowers.list.defaulted rfl groupBy) fun _ =>
                Lowers.bind (SortKey.lowers.list.defaulted rfl orderBy) fun _ =>
                  Lowers.bind ((Lowers.other _).optional limit) fun _ =>
                    Lowers.bind ((Lowers.other _).optional offset) fun _ => by simp [lowered]

def RowSource.lowered : RowSource → RowSource
  | values rows => values rows
  | query select => query select.lowered

theorem RowSource.lowers : Lowers ofJson? (Json.lowerNames .rowSource) lowered := by
  intro tree
  refine Lowers.bind (Json.asSingle?_lowerNames _ tree) fun (key, value) => ?_
  by_cases values : key = "values"
  · subst values
    exact Lowers.bind (Expr.lowers.list.list value) fun _ => by simp [lowered]
  by_cases select : key = "select"
  · subst select
    exact Lowers.bind (Select.lowers value) fun _ => rfl
  · simp [values, select]

def Insert.lowered (s : Insert) : Insert :=
  { s with columns := s.columns.map Text.lower, source := s.source.lowered }

theorem Insert.lowers : Lowers ofJson? (Json.lowerNames (.record Role.insertion)) lowered :=
  Lowers.record _ (by decide) fun
    | [table, columns, source, returning], _ =>
      Lowers.bind (Lowers.lowerText.required table) fun _ =>
        Lowers.bind (Lowers.text.list.required columns) fun _ =>
          Lowers.bind (RowSource.lowers.required source) fun _ =>
            Lowers.bind (Projection.lowers.list.defaulted rfl returning) fun _ => by
              simp [lowered]

theorem Update.lowers : Lowers ofJson? (Json.lowerNames (.record Role.update)) id :=
  Lowers.record _ (by decide) fun
    | [table, assignments, filter, returning], _ =>
      Lowers.bind (Lowers.lowerText.required table) fun _ =>
        Lowers.bind (Assignment.lowers.list.required assignments) fun _ =>
          Lowers.bind (Expr.lowers.optional filter) fun _ =>
            Lowers.bind (Projection.lowers.list.defaulted rfl returning) fun _ => by simp

namespace Statement

/-- The statement with its aliases and its inserted columns in lower case; all other names are so
since they have been read. -/
def lowered : Statement → Statement
  | select s => select s.lowered
  | insert s => insert s.lowered
  | update s => update s

theorem ofJson?_lowerNames : Lowers ofJson? (Json.lowerNames (.choice .statement)) lowered := by
  refine Lowers.choice .statement fun kind listed rest => ?_
  simp only [Choice.kinds, List.mem_cons, List.not_mem_nil, or_false] at listed
  rcases listed with rfl | rfl | rfl
  · exact Lowers.bind (Select.lowers rest) fun _ => rfl
  · exact Lowers.bind (Insert.lowers rest) fun _ => rfl
  · exact Lowers.bind (Update.lowers rest) fun _ => rfl

end Statement
end RecordQuery
