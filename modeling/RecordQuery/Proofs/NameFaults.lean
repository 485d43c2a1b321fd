import RecordQuery.Expr.Walk
import RecordQuery.Proofs.Columns
import RecordQuery.Proofs.AddedErrors

/-!
The faults of names. Whether a column has a source and a type that declares it is a matter of the
schema and of the names of the join (`Expr.misnamed?`), and every part of an expression is evaluated
whatever the parts beside it yield. So an expression without aggregates reports the same faults of
names on every row and in every group: those of its columns, in the order in which a walk comes to
them (`Expr.name_faults`).
-/
namespace RecordQuery

/-- The faults of names that have been met. -/
def Reported.nameFaults {α : Type} (x : Reported α) : List Fault :=
  x.faults.filter Fault.isNameFault

theorem Reported.nameFaults_bind {α β : Type} (x : Reported α) (f : α → Reported β) :
    (x >>= f).nameFaults = x.nameFaults ++ (f x.value).nameFaults := by
  simp [nameFaults]

namespace Expr

/-! ### Walks -/

/-- Collects a column with its source. -/
def collectColumn : Visitor (List (String × String))
  | found, column source name => (found ++ [(source, name)], true)
  | found, _ => (found, true)

mutual

/-- A walk comes to every column once, from left to right. -/
theorem walk_collectColumn (found : List (String × String)) :
    ∀ e : Expr, e.walk collectColumn found = found ++ e.columns
  | literal _ => by simp [walk, collectColumn, columns]
  | column _ _ => by simp [walk, collectColumn, columns]
  | binary _ left right => by
    simp [walk, collectColumn, columns, walk_collectColumn _ left, walk_collectColumn _ right]
  | comparison _ left right => by
    simp [walk, collectColumn, columns, walk_collectColumn _ left, walk_collectColumn _ right]
  | logical _ left right => by
    simp [walk, collectColumn, columns, walk_collectColumn _ left, walk_collectColumn _ right]
  | not operand => by simp [walk, collectColumn, columns, walk_collectColumn _ operand]
  | negate operand => by simp [walk, collectColumn, columns, walk_collectColumn _ operand]
  | isNull operand _ => by simp [walk, collectColumn, columns, walk_collectColumn _ operand]
  | inList operand items _ => by
    simp [walk, collectColumn, columns, walk_collectColumn _ operand, walkAll_collectColumn _ items]
  | call _ args => by simp [walk, collectColumn, columns, walkAll_collectColumn _ args]

theorem walkAll_collectColumn (found : List (String × String)) :
    ∀ es : List Expr, walkAll collectColumn found es = found ++ columnsAll es
  | [] => by simp [walkAll, columnsAll]
  | e :: es => by
    simp [walkAll, columnsAll, walk_collectColumn _ e, walkAll_collectColumn _ es]

end

/-- Whether the root of an expression is a call of an aggregate. -/
def isAggregateCall : Expr → Bool
  | call func args => Functions.isAggregate func args.length
  | _ => false

/-- A walk that has found an aggregate stops with that, and otherwise it looks for one. -/
theorem walk_findAggregate (found : Bool) (e : Expr) :
    e.walk findAggregate found = (found || e.containsAggregate) := by
  cases found with
  | false => rfl
  | true => cases e <;> simp [walk, findAggregate]

theorem walkAll_findAggregate (es : List Expr) :
    ∀ found, walkAll findAggregate found es = (found || es.any containsAggregate) := by
  induction es with
  | nil => intro found; simp [walkAll]
  | cons e es ih =>
    intro found
    rw [walkAll, walk_findAggregate, ih, List.any_cons, Bool.or_assoc]

/-- An expression contains an aggregate if it calls one itself or a part of it contains one. -/
theorem containsAggregate_eq (e : Expr) :
    e.containsAggregate = (e.isAggregateCall || e.children.any containsAggregate) := by
  rw [containsAggregate]
  cases e with
  | call func args =>
    by_cases own : Functions.isAggregate func args.length = true
    · simp [walk, findAggregate, isAggregateCall, own]
    · simp [walk, findAggregate, isAggregateCall, own, children, walkAll_findAggregate]
  | inList operand items negated =>
    simp [walk, findAggregate, isAggregateCall, children, walkAll_findAggregate, walk_findAggregate]
  | literal _ | column _ _ => simp [walk, findAggregate, isAggregateCall, children]
  | binary _ _ _ | comparison _ _ _ | logical _ _ _ | not _ | negate _ | isNull _ _ =>
    simp [walk, findAggregate, isAggregateCall, children, walk_findAggregate]

/-- No part of an expression without aggregates contains one. -/
theorem free_of_mem_children {e part : Expr} (free : e.containsAggregate = false)
    (member : part ∈ e.children) : part.containsAggregate = false := by
  rw [containsAggregate_eq, Bool.or_eq_false_iff, List.any_eq_false] at free
  simpa using free.2 part member

/-! ### Names of columns -/

/-- What is wrong with a column and its source. A type name that is no name of the join itself must
not be joined twice; the source has to stand for a type, by its name in the join or else by the type
name, and the type has to have the column. -/
def misnamed? (schema : Schema) (aliases : Dict String) (ref : String × String) : Option Fault :=
  let (source, name) := ref
  let joined := aliases.filter (·.2 == source)
  if source ∉ Dict.keys aliases ∧ 2 ≤ joined.length then
    some (.ambiguousSource source name (joined.map (·.1)).mergeSort)
  else
    match schema.get? ((Dict.get? aliases source).getD source) with
    | none => some (.unknownTable source name schema.availableTables)
    | some d =>
      if name = "*" ∨ isSystemColumn name ∨ (d.field? name).isSome then none
      else some (.unknownColumn source name d.name d.availableColumns)

/-- What is wrong with a column is a fault of its name. -/
theorem isNameFault_of_misnamed {schema : Schema} {aliases : Dict String} {ref : String × String}
    {f : Fault} (found : misnamed? schema aliases ref = some f) : f.isNameFault = true := by
  rw [misnamed?] at found
  split at found
  · obtain rfl := Option.some.inj found
    rfl
  · split at found
    · obtain rfl := Option.some.inj found
      rfl
    · split at found
      · cases found
      · obtain rfl := Option.some.inj found
        rfl

section
variable (scope : Scope)

theorem resolve?_eq (source : String) : scope.resolve? source =
    scope.schema.get? ((Dict.get? scope.aliases source).getD source) := by
  rw [Scope.resolve?]
  cases Dict.get? scope.aliases source <;> rfl

theorem resolveColumn_eq_error_iff (source name : String) (f : Fault) :
    resolveColumn scope source name = .error f ↔
      misnamed? scope.schema scope.aliases (source, name) = some f := by
  have named : Dict.hasKey scope.aliases source = true ↔ source ∈ Dict.keys scope.aliases := by
    rw [Dict.hasKey, Option.isSome_iff_ne_none, ne_eq, Dict.get?_eq_none_iff, not_not]
  have names := scope.length_aliasesOf source
  rw [resolveColumn, misnamed?, resolve?_eq]
  by_cases several : source ∉ Dict.keys scope.aliases ∧
      2 ≤ (scope.aliases.filter (·.2 == source)).length
  · have unnamed : ¬ Dict.hasKey scope.aliases source = true := fun key => several.1 (named.mp key)
    rw [if_pos several, if_neg unnamed, if_pos (names ▸ several.2), Scope.aliasesOf]
    simp
  · have clear : ¬ 1 < (if Dict.hasKey scope.aliases source then []
        else scope.aliasesOf source).length := by
      split
      · simp
      · rename_i unnamed
        rw [names]
        exact fun few => several ⟨fun key => unnamed (named.mpr key), few⟩
    rw [if_neg several, if_neg clear]
    cases scope.schema.get? ((Dict.get? scope.aliases source).getD source) with
    | none => simp
    | some d =>
      by_cases everywhere : name = "*" ∨ isSystemColumn name = true
      · simp [everywhere, ← or_assoc]
      · cases found : d.field? name <;> simp [everywhere, found]

/-- A column is checked before it is read, so that it reports the same with and without a row. -/
theorem faults_evalColumn (row : Option Record) (source name : String) :
    (evalColumn scope row source name).faults =
      (misnamed? scope.schema scope.aliases (source, name)).toList := by
  rw [evalColumn]
  cases resolved : resolveColumn scope source name with
  | error f =>
    rw [(resolveColumn_eq_error_iff scope source name f).mp resolved]
    rfl
  | ok origin =>
    cases wrong : misnamed? scope.schema scope.aliases (source, name) with
    | none => cases row <;> rfl
    | some f =>
      rw [(resolveColumn_eq_error_iff scope source name f).mpr wrong] at resolved
      cases resolved

end

/-! ### Operators -/

theorem nameFaults_evalArithmetic (op : ArithmeticOp) (a b : Json) :
    (evalArithmetic op a b).nameFaults = [] := by
  rw [evalArithmetic]
  split
  · rfl
  · split
    · rfl
    · split
      · rfl
      · split <;> rfl

theorem nameFaults_evalComparison (scope : Scope) (op : ComparisonOp) (a b : Json) :
    (evalComparison scope op a b).nameFaults = [] := by
  rw [evalComparison]
  split
  · rfl
  · split
    · rfl
    · split
      · rfl
      · split
        · split <;> rfl
        · rfl

theorem nameFaults_evalNegate (a : Json) : (evalNegate a).nameFaults = [] := by
  rw [evalNegate]
  split <;> rfl

theorem nameFaults_evalCall (scope : Scope) (func : String) (args : List Json) :
    (evalCall scope func args).nameFaults = [] := by
  rw [evalCall]
  split <;> rfl

/-! ### Expressions -/

section
variable {scope : Scope} {row : Option Record} {group : Option (List Record)}

mutual

/-- The faults of names are those of the columns, also in parts whose value is not needed. -/
theorem nameFaults_eval : ∀ e : Expr, e.containsAggregate = false →
    (e.eval scope row group).nameFaults =
      e.columns.filterMap (misnamed? scope.schema scope.aliases)
  | literal _, _ => by rw [eval, columns]; rfl
  | column source name, _ => by
    have own : ∀ f ∈ (misnamed? scope.schema scope.aliases (source, name)).toList,
        f.isNameFault = true := by
      intro f wrong
      exact isNameFault_of_misnamed (Option.mem_toList.mp wrong)
    rw [eval, columns, Reported.nameFaults, faults_evalColumn, List.filter_eq_self.mpr own]
    cases wrong : misnamed? scope.schema scope.aliases (source, name) <;> simp [wrong]
  | binary op left right, free => by
    have first := nameFaults_eval left (free_of_mem_children free (by simp [children]))
    have second := nameFaults_eval right (free_of_mem_children free (by simp [children]))
    rw [eval, columns, List.filterMap_append, Reported.nameFaults_bind, Reported.nameFaults_bind,
      first, second, nameFaults_evalArithmetic, List.append_nil]
  | comparison op left right, free => by
    have first := nameFaults_eval left (free_of_mem_children free (by simp [children]))
    have second := nameFaults_eval right (free_of_mem_children free (by simp [children]))
    rw [eval, columns, List.filterMap_append, Reported.nameFaults_bind, Reported.nameFaults_bind,
      first, second, Reported.nameFaults_bind, nameFaults_evalComparison, List.nil_append]
    exact congrArg _ (List.append_nil _)
  | logical op left right, free => by
    have first := nameFaults_eval left (free_of_mem_children free (by simp [children]))
    have second := nameFaults_eval right (free_of_mem_children free (by simp [children]))
    rw [eval, columns, List.filterMap_append, Reported.nameFaults_bind, Reported.nameFaults_bind,
      first, second]
    exact congrArg _ (List.append_nil _)
  | not operand, free => by
    have inner := nameFaults_eval operand (free_of_mem_children free (by simp [children]))
    rw [eval, columns, Reported.nameFaults_bind, inner]
    exact List.append_nil _
  | negate operand, free => by
    have inner := nameFaults_eval operand (free_of_mem_children free (by simp [children]))
    rw [eval, columns, Reported.nameFaults_bind, inner, nameFaults_evalNegate, List.append_nil]
  | isNull operand negated, free => by
    have inner := nameFaults_eval operand (free_of_mem_children free (by simp [children]))
    rw [eval, columns, Reported.nameFaults_bind, inner]
    exact List.append_nil _
  | inList operand items negated, free => by
    have inner := nameFaults_eval operand (free_of_mem_children free (by simp [children]))
    have others := nameFaults_evalAll items fun e member =>
      free_of_mem_children free (by simp [children, member])
    rw [eval, columns, List.filterMap_append, Reported.nameFaults_bind, Reported.nameFaults_bind,
      inner, others]
    exact congrArg _ (List.append_nil _)
  | call func args, free => by
    have scalar : ¬ Functions.isAggregate func args.length = true := by
      rw [containsAggregate_eq, Bool.or_eq_false_iff] at free
      exact Bool.eq_false_iff.mp free.1
    have inner := nameFaults_evalAll args fun e member => free_of_mem_children free member
    rw [eval.eq_def]
    dsimp only
    rw [if_neg scalar, columns, Reported.nameFaults_bind, inner, nameFaults_evalCall,
      List.append_nil]

theorem nameFaults_evalAll : ∀ es : List Expr, (∀ e ∈ es, e.containsAggregate = false) →
    (evalAll scope row group es).nameFaults =
      (columnsAll es).filterMap (misnamed? scope.schema scope.aliases)
  | [], _ => by rw [evalAll, columnsAll]; rfl
  | e :: es, free => by
    have first := nameFaults_eval e (free e List.mem_cons_self)
    have others := nameFaults_evalAll es fun other later =>
      free other (List.mem_cons_of_mem e later)
    rw [evalAll, columnsAll, List.filterMap_append, Reported.nameFaults_bind,
      Reported.nameFaults_bind, first, others]
    exact congrArg _ (List.append_nil _)

end

end

end Expr

/-! ### Errors of names -/

theorem ValidationError.eq_of_same {a b : ValidationError} (bare : a.metadata = none)
    (same : (a == b) = true) : a = b := by
  have said : a.same b = true := same
  obtain ⟨path, message, expected, actual, suggestion, metadata⟩ := a
  obtain ⟨path', message', expected', actual', suggestion', metadata'⟩ := b
  obtain rfl : metadata = none := bare
  cases metadata' with
  | none => simpa [ValidationError.same, and_assoc] using said
  | some _ => simp [ValidationError.same] at said

/-- An error without metadata is in the list once it is reported: it is the same as another one only
if it is that one. -/
theorem mem_reportOnce {e : ValidationError} (bare : e.metadata = none)
    (errors : List ValidationError) : e ∈ reportOnce errors e := by
  rw [reportOnce]
  split
  · rename_i reported
    obtain ⟨other, member, same⟩ := List.contains_iff_exists_mem_beq.mp reported
    rwa [ValidationError.eq_of_same bare same]
  · exact List.mem_append_right errors (List.mem_singleton.mpr rfl)

theorem scopeErrors_eq_foldl (clause : String) (errors found : List ValidationError) :
    scopeErrors errors.length clause (errors ++ found) =
      found.foldl (fun kept e => reportOnce kept (e.within clause)) errors := by
  rw [scopeErrors, List.drop_left, List.take_left]

/-- Errors without metadata are not lost when they are moved into a clause. -/
theorem mem_scopeErrors {e : ValidationError} (bare : e.metadata = none) (clause : String)
    (errors : List ValidationError) {found : List ValidationError} (member : e ∈ found) :
    e.within clause ∈ scopeErrors errors.length clause (errors ++ found) := by
  obtain ⟨before, later, rfl⟩ := List.append_of_mem member
  rw [scopeErrors_eq_foldl, List.foldl_append, List.foldl_cons, ← scopeErrors_eq_foldl]
  have reported := mem_reportOnce (e := e.within clause) bare
  exact (prefix_scopeErrors clause (List.prefix_append _ later)).subset (reported _)

theorem Fault.metadata_error {f : Fault} (named : f.isNameFault = true) :
    f.error.metadata = none := by
  cases f <;> first | rfl | cases named

/-- An expression without aggregates meets the faults of its columns in the order of a walk, each of
them checked against the schema and the names of the join alone. So they are the same on every row
and without one, and in every group and without one. A clause in which the expression is evaluated
keeps the errors found before it and adds all of these to them. -/
theorem Expr.name_faults (schema : Schema) (aliases : Dict String) {e : Expr}
    (free : e.containsAggregate = false) (scope : Scope) (sameSchema : scope.schema = schema)
    (sameAliases : scope.aliases = aliases) (row : Option Record) (group : Option (List Record)) :
    (e.eval scope row group).nameFaults =
        (e.walk collectColumn []).filterMap (misnamed? schema aliases) ∧
      ∀ clause errors, ∃ added,
        ((Log.within clause (e.eval scope row group)).run errors).2 = errors ++ added ∧
        (∀ error ∈ added, ∃ f ∈ (e.eval scope row group).faults, error = f.error.within clause) ∧
        ∀ ref ∈ e.walk collectColumn [], ∀ f ∈ misnamed? schema aliases ref,
          f.error.within clause ∈ errors ++ added := by
  subst sameSchema sameAliases
  have met : (e.eval scope row group).nameFaults =
      (e.walk collectColumn []).filterMap (misnamed? scope.schema scope.aliases) := by
    rw [walk_collectColumn, List.nil_append, nameFaults_eval e free]
  refine ⟨met, fun clause errors => ?_⟩
  obtain ⟨added, same, origin⟩ := Log.adds_within (P := fun error =>
    ∃ f ∈ (e.eval scope row group).faults, error = f.error.within clause)
    (fun f member => ⟨f, member, rfl⟩) errors
  refine ⟨added, same, origin, fun ref listed f wrong => ?_⟩
  have reported : f ∈ (e.eval scope row group).nameFaults := by
    rw [met]
    exact List.mem_filterMap.mpr ⟨ref, listed, wrong⟩
  have member := List.mem_of_mem_filter reported
  have bare := Fault.metadata_error (isNameFault_of_misnamed wrong)
  rw [← same]
  exact mem_scopeErrors bare clause errors (List.mem_map_of_mem member)

/-- Users joined with users, under two names. -/
def pairedUsers : Scope where
  schema := .ofTypes [.ofFields "users" [.ofType "name" .string]]
  aliases := [("a", "users"), ("b", "users")]
  now := ⟨0, 0, 0⟩

/-- A condition whose outcome is settled before its columns are reached. -/
def settledCondition : Expr :=
  .logical .and (.literal (.bool false))
    (.inList (.literal .null)
      [.ref "a" "nickname", .invoke "abs" [.ref "ghosts" "name"], .ref "users" "name"] true)

theorem Expr.name_faults_settledCondition : settledCondition.containsAggregate = false ∧
    ∀ row group, (settledCondition.eval pairedUsers row group).nameFaults.map (·.error.path) =
      ["a.nickname", "ghosts.name", "users.name"] := by
  have free : settledCondition.containsAggregate = false := by decide +kernel
  refine ⟨free, fun row group => ?_⟩
  rw [(name_faults _ _ free pairedUsers rfl rfl row group).1]
  decide +kernel

end RecordQuery
