import RecordQuery.Expr.Fault
import RecordQuery.Functions.Aggregate
import RecordQuery.Functions.Call
import RecordQuery.Record

/-!
# Evaluating expressions

Evaluation yields a value and the faults it met, in the order of the parts from left to right and
from the inside out. It never fails and changes nothing.
-/
namespace RecordQuery

open Calendar (Instant)

/-! ## Values with faults -/

/-- A result together with the faults that were met on the way to it. -/
structure Reported (α : Type) where
  value : α
  faults : List Fault

namespace Reported
variable {α β : Type}

instance : Monad Reported where
  pure a := ⟨a, []⟩
  bind x f := ⟨(f x.value).value, x.faults ++ (f x.value).faults⟩

/-- A fault and what it yields. -/
def fault (f : Fault) (a : α) : Reported α := ⟨a, [f]⟩

@[simp] theorem pure_eq (a : α) : (pure a : Reported α) = ⟨a, []⟩ := rfl

@[simp] theorem bind_eq (x : Reported α) (f : α → Reported β) :
    x >>= f = ⟨(f x.value).value, x.faults ++ (f x.value).faults⟩ := rfl

end Reported

/-! ## Scopes -/

/-- What expressions are evaluated against, besides a row. -/
structure Scope where
  schema : Schema
  /-- The names of the sources of a join, each with its type, in the order in which they are gone
  through. Without any, rows are plain records. -/
  aliases : Dict String := []
  /-- The greatest length of a pattern. -/
  maxPattern : Nat := 1000
  now : Instant

namespace Scope

/-- The type of a source, by its name in the join first and else by type name. -/
def resolve? (scope : Scope) (source : String) : Option TypeDef :=
  match Dict.get? scope.aliases source with
  | some typeName => scope.schema.get? typeName
  | none => scope.schema.get? source

/-- The names under which a type is joined, sorted. -/
def aliasesOf (scope : Scope) (typeName : String) : List String :=
  ((scope.aliases.filter (·.2 == typeName)).map (·.1)).mergeSort (fun a b => decide (a ≤ b))

/-- Whether rows are joined ones, with one entry for each source. -/
def inJoin (scope : Scope) : Bool := !scope.aliases.isEmpty

end Scope

namespace Expr

/-! ## Columns -/

/-- The type and the field that a column refers to, or why it refers to none. -/
def resolveColumn (scope : Scope) (source column : String) : Except Fault Origin :=
  let names := if Dict.hasKey scope.aliases source then [] else scope.aliasesOf source
  if 1 < names.length then .error (.ambiguousSource source column names)
  else
    match scope.resolve? source with
    | none => .error (.unknownTable source column scope.schema.availableTables)
    | some d =>
      if column = "*" ∨ isSystemColumn column then .ok ⟨d.name, none⟩
      else
        match d.field? column with
        | some field => .ok ⟨d.name, some field⟩
        | none => .error (.unknownColumn source column d.name d.availableColumns)

/-- The entry of a source in a joined row: under its own name, or else under the first name that the
type of that name is joined by. -/
def joinedEntry? (scope : Scope) (row : Record) (source : String) : Option Json :=
  match Dict.get? row.fields source with
  | some entry => some entry
  | none => (scope.aliases.find? (·.2 == source)).bind fun binding => Dict.get? row.fields binding.1

/-- What a row holds in a column. -/
def readColumn (scope : Scope) (row : Record) (source column : String) : Json :=
  if scope.inJoin then
    match joinedEntry? scope row source with
    | some (.obj entry) => if column = "*" then .obj entry else (Dict.get? entry column).getD .null
    | _ => .null
  else if column = "*" then .obj row.toRow
  else (row.get? column).getD .null

/-- The value of a column; null where there is no row. -/
def evalColumn (scope : Scope) (row : Option Record) (source column : String) : Reported Value :=
  match resolveColumn scope source column with
  | .error f => .fault f .null
  | .ok origin =>
    match row with
    | none => return ⟨.null, some origin⟩
    | some row => return ⟨readColumn scope row source column, some origin⟩

/-! ## Operators -/

/-- The result of an operator on two numbers; a division by zero is null. -/
def applyArithmetic (op : ArithmeticOp) (x y : Float) : Value :=
  match op with
  | .add => .float (x + y)
  | .subtract => .float (x - y)
  | .multiply => .float (x * y)
  | .divide => if y == 0.0 then .null else .float (x / y)
  | .modulo => if y == 0.0 then .null else .float (Decimal.remainder x y)

/-- The sum of two values of one type: numerically if both have a number, else as texts. -/
def add (a b : Json) : Value :=
  let x := a.toNumber
  let y := b.toNumber
  if x.isNaN || y.isNaN then .text (a.toText ++ b.toText) else .float (x + y)

/-- The result of an arithmetic operator; null if an operand is. -/
def evalArithmetic (op : ArithmeticOp) (a b : Json) : Reported Value :=
  if a.isNull || b.isNull then return .null
  else if a.kind ≠ b.kind then .fault (.mixedOperands op a.kind b.kind) .null
  else if op = .add then return add a b
  else if a.kind ≠ .number then .fault (.notNumbers op a.kind) .null
  else return applyArithmetic op a.toNumber b.toNumber

/-- The outcome of a comparison by order. -/
def holds (op : ComparisonOp) (order : Ordering) : Bool :=
  match op with
  | .eq => order == .eq
  | .ne => order != .eq
  | .lt => order == .lt
  | .gt => order == .gt
  | .le => order != .gt
  | .ge => order != .lt
  | .like => false
  | .notLike => false

/-- The outcome of a comparison. Two nulls are equal but nothing else; one null makes it false. -/
def evalComparison (scope : Scope) (op : ComparisonOp) (a b : Json) : Reported Bool :=
  if a.isNull && b.isNull then return op = .eq || op = .ge
  else if a.isNull || b.isNull then return false
  else if a.kind ≠ b.kind then .fault (.incomparable op a.kind b.kind) false
  else if op = .like ∨ op = .notLike then
    match Like.check a.toText b.toText scope.maxPattern with
    | .ok found => return found == (op == .like)
    | .error _ => .fault (.patternTooLong op scope.maxPattern) false
  else return holds op (a.order b)

/-- The outcome of a logical operator. -/
def evalLogical (op : LogicalOp) (a b : Bool) : Bool :=
  match op with
  | .and => a && b
  | .or => a || b

/-- The negative of a number; null stays null. -/
def evalNegate (a : Json) : Reported Value :=
  match a.kind with
  | .null => return .null
  | .number => return .float (-a.toNumber)
  | kind => .fault (.notNegatable kind) .null

/-- Whether a value that is not null is among others: one of the same type and equal. -/
def member (a : Json) (items : List Json) : Bool :=
  items.any fun item => item.kind == a.kind && a.order item == .eq

/-- The result of a call. -/
def evalCall (scope : Scope) (func : String) (args : List Json) : Reported Value :=
  match Functions.call scope.now func args with
  | .ok result => return .of result
  | .error e => .fault (.refusedCall func e) .null

/-- The numbers of arguments of an aggregate, in words, if the given number is not one of them. -/
def aggregateArity? (func : String) (arity : Nat) : Option String :=
  let isCount := func.map Char.toLower == "count"
  if 1 < arity ∨ (!isCount ∧ arity = 0) then some (if isCount then "0 or 1" else "1") else none

/-- The result of an aggregate over the values of its argument. -/
def evalAggregate (func : String) (values : List Json) (groupSize : Nat) : Reported Value :=
  match Functions.aggregate func values groupSize with
  | .ok result => return .of result
  | .error e => .fault (.refusedCall func e) .null

/-! ## Expressions -/

mutual

/-- Evaluates an expression on a row, if there is one, and within a group, which only aggregates
read. -/
def eval (scope : Scope) (row : Option Record) (group : Option (List Record)) :
    Expr → Reported Value
  | literal value => return .of value
  | column source name => evalColumn scope row source name
  | binary op left right => do
    let a ← eval scope row group left
    let b ← eval scope row group right
    evalArithmetic op a.raw b.raw
  | comparison op left right => do
    let a ← eval scope row group left
    let b ← eval scope row group right
    return .bool (← evalComparison scope op a.raw b.raw)
  | logical op left right => do
    let a ← eval scope row group left
    let b ← eval scope row group right
    return .bool (evalLogical op a.raw.toBool b.raw.toBool)
  | not operand => do
    let a ← eval scope row group operand
    return if a.isNull then .null else .bool (!a.raw.toBool)
  | negate operand => do
    let a ← eval scope row group operand
    evalNegate a.raw
  | isNull operand negated => do
    let a ← eval scope row group operand
    return .bool (a.isNull != negated)
  | inList operand items negated => do
    let a ← eval scope row group operand
    let values ← evalAll scope row group items
    return if a.isNull then .bool false else .bool (member a.raw values != negated)
  | call func args =>
    if Functions.isAggregate func args.length then
      match group with
      | none => .fault (.aggregateOutsideGroup func) .null
      | some members =>
        match aggregateArity? func args.length with
        | some expected => .fault (.aggregateArity func expected args.length) .null
        | none => do
          let values ← members.mapM fun r => evalFirst scope r args
          evalAggregate func values members.length
    else do
      let values ← evalAll scope row group args
      evalCall scope func values

/-- Evaluates expressions from left to right. -/
def evalAll (scope : Scope) (row : Option Record) (group : Option (List Record)) :
    List Expr → Reported (List Json)
  | [] => return []
  | e :: es => do
    let a ← eval scope row group e
    let rest ← evalAll scope row group es
    return a.raw :: rest

/-- Evaluates the argument of an aggregate on one record of the group; without an argument the
record counts as such. -/
def evalFirst (scope : Scope) (r : Record) : List Expr → Reported Json
  | [] => return Functions.recordMark
  | e :: _ => do
    let a ← eval scope (some r) none e
    return a.raw

end

/-- Evaluates a condition: only the boolean true passes. -/
def passes (scope : Scope) (row : Option Record) (group : Option (List Record)) (e : Expr) :
    Reported Bool := do
  let a ← e.eval scope row group
  return match a.raw with
    | .bool true => true
    | _ => false

end Expr
end RecordQuery
