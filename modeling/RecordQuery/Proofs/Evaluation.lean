import RecordQuery.Expr.Eval
import Mathlib.Data.List.Forall2

/-!
Expressions read rows only through their columns. `Expr.evalWith` is the evaluator with the reading
of columns as a parameter, so that rows of any kind can be evaluated; the program's evaluator is the
instance that reads records (`Expr.eval_eq`). Two evaluations agree as soon as the columns of the
expression do (`Expr.evalWith_alike`).
-/
namespace RecordQuery

/-! ### Values with faults -/

namespace Reported
variable {α β γ δ : Type}

instance : LawfulMonad Reported :=
  LawfulMonad.mk' Reported (fun _ => by simp [Functor.map]) (fun _ _ => by simp)
    (fun _ _ _ => by simp [List.append_assoc])

/-- What two computations yield is related and, where `exact` holds, they meet the same faults. -/
structure Alike (exact : Prop) (R : α → β → Prop) (x : Reported α) (y : Reported β) : Prop where
  value : R x.value y.value
  faults : exact → x.faults = y.faults

variable {exact : Prop} {R : α → β → Prop} {S : γ → δ → Prop}

theorem alike_pure {a : α} {b : β} (related : R a b) : Alike exact R (pure a) (pure b) :=
  ⟨related, fun _ => rfl⟩

theorem alike_refl {R : α → α → Prop} (x : Reported α) (related : R x.value x.value) :
    Alike exact R x x := ⟨related, fun _ => rfl⟩

theorem Alike.eq {x y : Reported α} (alike : Alike True Eq x y) : x = y := by
  obtain ⟨value, faults⟩ := x
  obtain ⟨value', faults'⟩ := y
  obtain ⟨rfl, same⟩ := alike
  exact congrArg _ (same trivial)

theorem Alike.bind {x : Reported α} {y : Reported β} {f : α → Reported γ} {g : β → Reported δ}
    (first : Alike exact R x y) (second : ∀ a b, R a b → Alike exact S (f a) (g b)) :
    Alike exact S (x >>= f) (y >>= g) := by
  have rest := second x.value y.value first.value
  refine ⟨rest.value, fun same => ?_⟩
  rw [bind_eq, bind_eq, first.faults same, rest.faults same]

theorem Alike.mapM {f : α → Reported γ} {g : β → Reported δ}
    (each : ∀ a b, R a b → Alike exact S (f a) (g b)) {as : List α} {bs : List β}
    (related : List.Forall₂ R as bs) : Alike exact (List.Forall₂ S) (as.mapM f) (bs.mapM g) := by
  induction related with
  | nil => rw [List.mapM_nil, List.mapM_nil]; exact alike_pure .nil
  | cons head _ ih =>
    rw [List.mapM_cons, List.mapM_cons]
    refine (each _ _ head).bind fun c d first => ?_
    exact ih.bind fun cs ds rest => alike_pure (.cons first rest)

end Reported

/-- The values have the same tree, wherever they were read. -/
def Value.Same (a b : Value) : Prop := a.raw = b.raw

/-- The scopes differ at most in the names that they resolve. -/
structure Scope.Agrees (scope other : Scope) : Prop where
  maxPattern : scope.maxPattern = other.maxPattern
  now : scope.now = other.now

namespace Expr

/-! ### Evaluating with any reading of columns -/

/-- How a column, by its source and its name, is read from a row, if there is one. -/
abbrev ColumnReader (ρ : Type) := Option ρ → String → String → Reported Value

section
variable {ρ : Type}

mutual

/-- Evaluates an expression on a row whose columns are read in a given way. -/
def evalWith (scope : Scope) (read : ColumnReader ρ) (row : Option ρ) (group : Option (List ρ)) :
    Expr → Reported Value
  | literal value => return .of value
  | column source name => read row source name
  | binary op left right => do
    let a ← evalWith scope read row group left
    let b ← evalWith scope read row group right
    evalArithmetic op a.raw b.raw
  | comparison op left right => do
    let a ← evalWith scope read row group left
    let b ← evalWith scope read row group right
    return .bool (← evalComparison scope op a.raw b.raw)
  | logical op left right => do
    let a ← evalWith scope read row group left
    let b ← evalWith scope read row group right
    return .bool (evalLogical op a.raw.toBool b.raw.toBool)
  | not operand => do
    let a ← evalWith scope read row group operand
    return if a.isNull then .null else .bool (!a.raw.toBool)
  | negate operand => do
    let a ← evalWith scope read row group operand
    evalNegate a.raw
  | isNull operand negated => do
    let a ← evalWith scope read row group operand
    return .bool (a.isNull != negated)
  | inList operand items negated => do
    let a ← evalWith scope read row group operand
    let values ← evalAllWith scope read row group items
    return if a.isNull then .bool false else .bool (member a.raw values != negated)
  | call func args =>
    if Functions.isAggregate func args.length then
      match group with
      | none => .fault (.aggregateOutsideGroup func) .null
      | some members =>
        match aggregateArity? func args.length with
        | some expected => .fault (.aggregateArity func expected args.length) .null
        | none => do
          let values ← members.mapM fun r => evalFirstWith scope read r args
          evalAggregate func values members.length
    else do
      let values ← evalAllWith scope read row group args
      evalCall scope func values

/-- Evaluates expressions from left to right. -/
def evalAllWith (scope : Scope) (read : ColumnReader ρ) (row : Option ρ)
    (group : Option (List ρ)) : List Expr → Reported (List Json)
  | [] => return []
  | e :: es => do
    let a ← evalWith scope read row group e
    let rest ← evalAllWith scope read row group es
    return a.raw :: rest

/-- Evaluates the argument of an aggregate on one row of the group. -/
def evalFirstWith (scope : Scope) (read : ColumnReader ρ) (r : ρ) : List Expr → Reported Json
  | [] => return Functions.recordMark
  | e :: _ => do
    let a ← evalWith scope read (some r) none e
    return a.raw

end

end

mutual

/-- Evaluation is evaluation with the columns read from records. -/
theorem eval_eq (scope : Scope) (row : Option Record) (group : Option (List Record)) :
    ∀ e : Expr, e.eval scope row group = e.evalWith scope (evalColumn scope) row group
  | literal _ => by rw [eval, evalWith]
  | column _ _ => by rw [eval, evalWith]
  | binary _ left right => by
    rw [eval, evalWith, eval_eq scope row group left, eval_eq scope row group right]
  | comparison _ left right => by
    rw [eval, evalWith, eval_eq scope row group left, eval_eq scope row group right]
  | logical _ left right => by
    rw [eval, evalWith, eval_eq scope row group left, eval_eq scope row group right]
  | not operand => by rw [eval, evalWith, eval_eq scope row group operand]
  | negate operand => by rw [eval, evalWith, eval_eq scope row group operand]
  | isNull operand _ => by rw [eval, evalWith, eval_eq scope row group operand]
  | inList operand items _ => by
    rw [eval, evalWith, eval_eq scope row group operand, evalAll_eq scope row group items]
  | call func args => by
    rw [eval.eq_def, evalWith.eq_def]
    simp only [evalAll_eq scope row group args, fun r => evalFirst_eq scope r args]
    cases group with
    | none => rfl
    | some members => cases aggregateArity? func args.length <;> rfl

theorem evalAll_eq (scope : Scope) (row : Option Record) (group : Option (List Record)) :
    ∀ es : List Expr, evalAll scope row group es = evalAllWith scope (evalColumn scope) row group es
  | [] => by rw [evalAll, evalAllWith]
  | e :: es => by
    rw [evalAll, evalAllWith, eval_eq scope row group e, evalAll_eq scope row group es]

theorem evalFirst_eq (scope : Scope) (r : Record) :
    ∀ es : List Expr, evalFirst scope r es = evalFirstWith scope (evalColumn scope) r es
  | [] => by rw [evalFirst, evalFirstWith]
  | e :: _ => by rw [evalFirst, evalFirstWith, eval_eq scope (some r) none e]

end

/-! ### The columns of an expression -/

mutual

/-- The columns that an expression refers to, each with its source. -/
def columns : Expr → List (String × String)
  | literal _ => []
  | column source name => [(source, name)]
  | binary _ left right => columns left ++ columns right
  | comparison _ left right => columns left ++ columns right
  | logical _ left right => columns left ++ columns right
  | not operand => columns operand
  | negate operand => columns operand
  | isNull operand _ => columns operand
  | inList operand items _ => columns operand ++ columnsAll items
  | call _ args => columnsAll args

/-- The columns that expressions refer to. -/
def columnsAll : List Expr → List (String × String)
  | [] => []
  | e :: es => columns e ++ columnsAll es

end

/-- Two ways to read columns agree on some columns of related rows. -/
def ReadAlike {ρ σ : Type} (exact : Prop) (R : ρ → σ → Prop) (read : ColumnReader ρ)
    (other : ColumnReader σ) (columns : List (String × String)) : Prop :=
  ∀ row row', Option.Rel R row row' → ∀ source name, (source, name) ∈ columns →
    (read row source name).Alike exact Value.Same (other row' source name)

section
variable {ρ σ : Type} {exact : Prop} {R : ρ → σ → Prop} {read : ColumnReader ρ}
  {other : ColumnReader σ}

theorem ReadAlike.left {some more : List (String × String)}
    (alike : ReadAlike exact R read other (some ++ more)) : ReadAlike exact R read other some :=
  fun row row' related source name listed =>
    alike row row' related source name (List.mem_append_left _ listed)

theorem ReadAlike.right {some more : List (String × String)}
    (alike : ReadAlike exact R read other (some ++ more)) : ReadAlike exact R read other more :=
  fun row row' related source name listed =>
    alike row row' related source name (List.mem_append_right _ listed)

variable {scope scope' : Scope}

mutual

/-- An evaluation depends on the columns of the expression only. -/
theorem evalWith_alike (agrees : scope.Agrees scope') {row : Option ρ} {row' : Option σ}
    {group : Option (List ρ)} {group' : Option (List σ)} (rows : Option.Rel R row row')
    (groups : Option.Rel (List.Forall₂ R) group group') :
    ∀ e : Expr, ReadAlike exact R read other e.columns →
      (e.evalWith scope read row group).Alike exact Value.Same
        (e.evalWith scope' other row' group')
  | literal _, _ => by
    rw [evalWith, evalWith]
    exact Reported.alike_pure rfl
  | column source name, alike => by
    rw [evalWith, evalWith]
    exact alike row row' rows source name (by simp [columns])
  | binary op left right, alike => by
    rw [columns] at alike
    rw [evalWith, evalWith]
    refine (evalWith_alike agrees rows groups left alike.left).bind fun a a' same => ?_
    refine (evalWith_alike agrees rows groups right alike.right).bind fun b b' same' => ?_
    rw [same, same']
    exact Reported.alike_refl _ rfl
  | comparison op left right, alike => by
    rw [columns] at alike
    rw [evalWith, evalWith]
    refine (evalWith_alike agrees rows groups left alike.left).bind fun a a' same => ?_
    refine (evalWith_alike agrees rows groups right alike.right).bind fun b b' same' => ?_
    have outcome :
        evalComparison scope op a.raw b.raw = evalComparison scope' op a'.raw b'.raw := by
      rw [same, same', evalComparison, evalComparison, agrees.maxPattern]
    rw [outcome]
    exact Reported.alike_refl _ rfl
  | logical op left right, alike => by
    rw [columns] at alike
    rw [evalWith, evalWith]
    refine (evalWith_alike agrees rows groups left alike.left).bind fun a a' same => ?_
    refine (evalWith_alike agrees rows groups right alike.right).bind fun b b' same' => ?_
    rw [same, same']
    exact Reported.alike_refl _ rfl
  | not operand, alike => by
    rw [columns] at alike
    rw [evalWith, evalWith]
    refine (evalWith_alike agrees rows groups operand alike).bind fun a a' same => ?_
    rw [Value.isNull, Value.isNull, same]
    exact Reported.alike_refl _ rfl
  | negate operand, alike => by
    rw [columns] at alike
    rw [evalWith, evalWith]
    refine (evalWith_alike agrees rows groups operand alike).bind fun a a' same => ?_
    rw [same]
    exact Reported.alike_refl _ rfl
  | isNull operand negated, alike => by
    rw [columns] at alike
    rw [evalWith, evalWith]
    refine (evalWith_alike agrees rows groups operand alike).bind fun a a' same => ?_
    rw [Value.isNull, Value.isNull, same]
    exact Reported.alike_refl _ rfl
  | inList operand items negated, alike => by
    rw [columns] at alike
    rw [evalWith, evalWith]
    refine (evalWith_alike agrees rows groups operand alike.left).bind fun a a' same => ?_
    refine (evalAllWith_alike agrees rows groups items alike.right).bind ?_
    intro values values' equal
    rw [Value.isNull, Value.isNull, same, equal]
    exact Reported.alike_refl _ rfl
  | call func args, alike => by
    rw [columns] at alike
    rw [evalWith.eq_def, evalWith.eq_def]
    dsimp only
    by_cases aggregates : Functions.isAggregate func args.length = true
    · rw [if_pos aggregates, if_pos aggregates]
      cases groups with
      | none => exact Reported.alike_refl _ rfl
      | some related =>
        cases arity : aggregateArity? func args.length with
        | some expected => exact Reported.alike_refl _ rfl
        | none =>
          have each (r : ρ) (r' : σ) (alikeRows : R r r') :
              (evalFirstWith scope read r args).Alike exact Eq
                (evalFirstWith scope' other r' args) :=
            evalFirstWith_alike agrees alikeRows args alike
          refine (Reported.Alike.mapM each related).bind fun values values' equal => ?_
          rw [show values = values' from List.forall₂_eq_eq_eq ▸ equal, related.length_eq]
          exact Reported.alike_refl _ rfl
    · rw [if_neg aggregates, if_neg aggregates]
      refine (evalAllWith_alike agrees rows groups args alike).bind fun values values' equal => ?_
      rw [equal, evalCall, evalCall, agrees.now]
      exact Reported.alike_refl _ rfl

theorem evalAllWith_alike (agrees : scope.Agrees scope') {row : Option ρ} {row' : Option σ}
    {group : Option (List ρ)} {group' : Option (List σ)} (rows : Option.Rel R row row')
    (groups : Option.Rel (List.Forall₂ R) group group') :
    ∀ es : List Expr, ReadAlike exact R read other (columnsAll es) →
      (evalAllWith scope read row group es).Alike exact Eq (evalAllWith scope' other row' group' es)
  | [], _ => by
    rw [evalAllWith, evalAllWith]
    exact Reported.alike_pure rfl
  | e :: es, alike => by
    rw [columnsAll] at alike
    rw [evalAllWith, evalAllWith]
    refine (evalWith_alike agrees rows groups e alike.left).bind fun a a' same => ?_
    refine (evalAllWith_alike agrees rows groups es alike.right).bind fun rest rest' equal => ?_
    rw [same, equal]
    exact Reported.alike_pure rfl

theorem evalFirstWith_alike (agrees : scope.Agrees scope') {r : ρ} {r' : σ} (related : R r r') :
    ∀ es : List Expr, ReadAlike exact R read other (columnsAll es) →
      (evalFirstWith scope read r es).Alike exact Eq (evalFirstWith scope' other r' es)
  | [], _ => by
    rw [evalFirstWith, evalFirstWith]
    exact Reported.alike_pure rfl
  | e :: es, alike => by
    rw [columnsAll] at alike
    rw [evalFirstWith, evalFirstWith]
    refine (evalWith_alike agrees (.some related) .none e alike.left).bind fun a a' same => ?_
    rw [same]
    exact Reported.alike_pure rfl

end

/-- The program's evaluator depends on the columns of the expression only. -/
theorem eval_alike (agrees : scope.Agrees scope') {R : Record → Record → Prop}
    {row row' : Option Record} {group group' : Option (List Record)} (rows : Option.Rel R row row')
    (groups : Option.Rel (List.Forall₂ R) group group') {e : Expr}
    (alike : ReadAlike exact R (evalColumn scope) (evalColumn scope') e.columns) :
    (e.eval scope row group).Alike exact Value.Same (e.eval scope' row' group') := by
  rw [eval_eq, eval_eq]
  exact evalWith_alike agrees rows groups e alike

end

end Expr
end RecordQuery
