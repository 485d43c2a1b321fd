import RecordQuery.Expr.Basic
import RecordQuery.Functions.Arguments
import RecordQuery.Like
import RecordQuery.ValidationError

/-!
# Faults of evaluation

What can go wrong when an expression is evaluated. A fault is reported and the part of the
expression yields null or false; the parts beside it are still evaluated.
-/
namespace RecordQuery

/-- One problem met while an expression is evaluated. -/
inductive Fault where
  /-- A type name is bound to several sources of a join. -/
  | ambiguousSource (source column : String) (names : List String)
  | unknownTable (source column : String) (available : String)
  | unknownColumn (source column type available : String)
  /-- The operands of an arithmetic operator are of two types. -/
  | mixedOperands (op : ArithmeticOp) (left right : Kind)
  /-- The operands of an arithmetic operator are of one type that is not number. -/
  | notNumbers (op : ArithmeticOp) (kind : Kind)
  | notNegatable (kind : Kind)
  | incomparable (op : ComparisonOp) (left right : Kind)
  | patternTooLong (op : ComparisonOp) (limit : Nat)
  | aggregateOutsideGroup (func : String)
  | aggregateArity (func expected : String) (actual : Nat)
  | refusedCall (func : String) (error : Functions.CallError)

namespace Fault

/-- Whether the fault is one of a name: of a table, of a column or of an ambiguous source. -/
def isNameFault : Fault → Bool
  | ambiguousSource .. => true
  | unknownTable .. => true
  | unknownColumn .. => true
  | _ => false

/-- Why two values cannot be compared. -/
def incomparableText (left right : Kind) (operator : String) : String :=
  "Cannot compare " ++ left.name ++ " with " ++ right.name ++ " using '" ++ operator ++ "'"

/-- The fault as a validation error, located by the label of the expression. -/
def error : Fault → ValidationError
  | ambiguousSource source column names =>
    let names := ", ".intercalate names
    { path := Expr.columnLabel source column
      message := "Source '" ++ source ++ "' is ambiguous: it is joined as " ++ names
      suggestion := some ("Qualify the column with one of: " ++ names) }
  | unknownTable source column available =>
    { path := Expr.columnLabel source column
      message := "Table '" ++ source ++ "' does not exist"
      suggestion := some ("Available tables: " ++ available) }
  | unknownColumn source column type available =>
    { path := Expr.columnLabel source column
      message := "Column '" ++ column ++ "' does not exist in '" ++ type ++ "'"
      suggestion := some ("Available columns: " ++ available) }
  | mixedOperands op left right =>
    { path := Expr.operatorLabel op.symbol
      message :=
        "Type mismatch in '" ++ op.symbol ++ "': cannot combine " ++ left.name ++ " with " ++
        right.name
      expectedType := some left.name
      actualType := some right.name }
  | notNumbers op kind =>
    { path := Expr.operatorLabel op.symbol
      message := "Operator '" ++ op.symbol ++ "' requires numbers, got " ++ kind.name
      expectedType := some Kind.number.name
      actualType := some kind.name }
  | notNegatable kind =>
    { path := Expr.operatorLabel "neg"
      message := "Cannot negate a " ++ kind.name
      expectedType := some Kind.number.name
      actualType := some kind.name }
  | incomparable op left right =>
    { path := Expr.operatorLabel op.symbol
      message := incomparableText left right op.symbol
      expectedType := some left.name
      actualType := some right.name }
  | patternTooLong op limit =>
    { path := Expr.operatorLabel op.symbol, message := Like.tooLong limit }
  | aggregateOutsideGroup func =>
    { path := Expr.callLabel func
      message := "Aggregate function '" ++ func ++ "' used outside of a group"
      suggestion := some "Use aggregates in SELECT projections" }
  | aggregateArity func expected actual =>
    { path := Expr.callLabel func
      message :=
        Text.upper func ++ " expects " ++ expected ++ " argument(s), got " ++ toString actual }
  | refusedCall func error =>
    { path := Expr.callLabel func
      message := error.message
      metadata := some (.obj [("function", .str func)]) }

end Fault
end RecordQuery
