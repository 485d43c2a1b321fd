import RecordQuery.Json.Printer
import RecordQuery.Text.Case

/-!
# Expressions

The expressions that statements filter, compute and sort by.
-/
namespace RecordQuery

/-- The operators of arithmetic. -/
inductive ArithmeticOp where
  | add | subtract | multiply | divide | modulo
  deriving DecidableEq, Repr

/-- The operators that compare. -/
inductive ComparisonOp where
  | eq | ne | lt | gt | le | ge | like | notLike
  deriving DecidableEq, Repr

/-- The operators that join conditions. -/
inductive LogicalOp where
  | and | or
  deriving DecidableEq, Repr

namespace ArithmeticOp

/-- All operators of arithmetic. -/
def all : List ArithmeticOp := [add, subtract, multiply, divide, modulo]

/-- The sign of an operator. -/
def symbol : ArithmeticOp → String
  | add => "+"
  | subtract => "-"
  | multiply => "*"
  | divide => "/"
  | modulo => "%"

/-- The operator of a sign. -/
def ofSymbol? (s : String) : Option ArithmeticOp := all.find? (·.symbol == s)

end ArithmeticOp

namespace ComparisonOp

/-- All operators that compare. -/
def all : List ComparisonOp := [eq, ne, lt, gt, le, ge, like, notLike]

/-- The sign of an operator. -/
def symbol : ComparisonOp → String
  | eq => "="
  | ne => "<>"
  | lt => "<"
  | gt => ">"
  | le => "<="
  | ge => ">="
  | like => "like"
  | notLike => "notLike"

/-- The operator of a sign. -/
def ofSymbol? (s : String) : Option ComparisonOp := all.find? (·.symbol == s)

end ComparisonOp

namespace LogicalOp

/-- All operators that join conditions. -/
def all : List LogicalOp := [and, or]

/-- The name of an operator. -/
def symbol : LogicalOp → String
  | and => "and"
  | or => "or"

/-- The operator of a name. -/
def ofSymbol? (s : String) : Option LogicalOp := all.find? (·.symbol == s)

/-- The word for an operator inside the text of an expression. -/
def word : LogicalOp → String
  | and => "AND"
  | or => "OR"

end LogicalOp

/-- An expression. -/
inductive Expr where
  | literal (value : Json)
  /-- A column of a source; the column `*` is the whole row. -/
  | column (source column : String)
  | binary (op : ArithmeticOp) (left right : Expr)
  | comparison (op : ComparisonOp) (left right : Expr)
  | logical (op : LogicalOp) (left right : Expr)
  | not (operand : Expr)
  | negate (operand : Expr)
  | isNull (operand : Expr) (negated : Bool)
  | inList (operand : Expr) (items : List Expr) (negated : Bool)
  | call (func : String) (args : List Expr)
  deriving Inhabited

namespace Expr

/-- A reference to a column, its names in lower case. -/
def ref (source column : String) : Expr := .column (Text.lower source) (Text.lower column)

/-- A call of a function, its name in lower case. -/
def invoke (func : String) (args : List Expr) : Expr := .call (Text.lower func) args

/-! ## Labels and text -/

/-- The label of an operator. -/
def operatorLabel (symbol : String) : String := "(" ++ symbol ++ ")"

/-- The label of a column. -/
def columnLabel (source column : String) : String := source ++ "." ++ column

/-- The label of a function. -/
def callLabel (func : String) : String := func ++ "()"

/-- A short text that stands for the root of an expression in the paths of errors. -/
def label : Expr → String
  | literal value => value.text
  | column source name => columnLabel source name
  | binary op _ _ => operatorLabel op.symbol
  | comparison op _ _ => operatorLabel op.symbol
  | logical op _ _ => operatorLabel op.symbol
  | not _ => operatorLabel "not"
  | negate _ => operatorLabel "neg"
  | isNull _ _ => operatorLabel "is null"
  | inList _ _ _ => operatorLabel "in"
  | call func _ => callLabel func

mutual

/-- The whole expression as text. -/
def text : Expr → String
  | literal value => value.text
  | column source name => columnLabel source name
  | binary op left right => "(" ++ text left ++ " " ++ op.symbol ++ " " ++ text right ++ ")"
  | comparison op left right => "(" ++ text left ++ " " ++ op.symbol ++ " " ++ text right ++ ")"
  | logical op left right => "(" ++ text left ++ " " ++ op.word ++ " " ++ text right ++ ")"
  | not operand => "NOT " ++ text operand
  | negate operand => "-" ++ text operand
  | isNull operand negated => text operand ++ (if negated then " IS NOT NULL" else " IS NULL")
  | inList operand items negated =>
    text operand ++ (if negated then " NOT IN (" else " IN (") ++
      ", ".intercalate (texts items) ++ ")"
  | call func args => func ++ "(" ++ ", ".intercalate (texts args) ++ ")"

/-- The texts of expressions. -/
def texts : List Expr → List String
  | [] => []
  | e :: es => text e :: texts es

end

end Expr
end RecordQuery
