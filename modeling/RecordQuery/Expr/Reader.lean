import RecordQuery.Expr.Basic
import RecordQuery.Json.Shape

/-!
# Reading and writing expressions

The tree of an expression is told by its kind. Sources, columns and functions are read into lower
case.
-/
namespace RecordQuery.Expr

/-- The names of the kinds of expressions. -/
def kinds : List String :=
  ["literal", "source_column", "binary", "comparison", "logical", "not", "negate", "is_null",
    "in_list", "function_call"]

/-- A text in lower case. -/
def asLower? (tree : Json) : Option String := tree.asText?.map Text.lower

/-- The operator that a tree inside an expression names. -/
def asOperator? {α : Type} (symbols : List String) (ofSymbol? : String → Option α) (tree : Json) :
    Option α :=
  (Json.asName? .nested symbols tree).bind ofSymbol?

/-- The fields that each kind of expression has, besides its kind. -/
def fieldNames : String → List String
  | "literal" => ["value"]
  | "source_column" => ["source", "column"]
  | "binary" => ["op", "left", "right"]
  | "comparison" => ["cmp", "left", "right"]
  | "logical" => ["op", "left", "right"]
  | "not" => ["operand"]
  | "negate" => ["operand"]
  | "is_null" => ["operand", "negated"]
  | "in_list" => ["operand", "list", "negated"]
  | "function_call" => ["func", "args"]
  | _ => []

/-- Reads an expression whose tree is nested at most `fuel` levels deep. -/
def read? (fuel : Nat) (place : Json.Place) (tree : Json) : Option Expr :=
  match fuel with
  | 0 => none
  | fuel + 1 => do
    let part (field : Option Json) : Option Expr := Json.required (read? fuel .nested) field
    let flag (field : Option Json) : Option Bool := Json.defaulted false Json.asBool? field
    let arithmetic :=
      Json.required (asOperator? (ArithmeticOp.all.map (·.symbol)) ArithmeticOp.ofSymbol?)
    let comparing :=
      Json.required (asOperator? (ComparisonOp.all.map (·.symbol)) ComparisonOp.ofSymbol?)
    let joining := Json.required (asOperator? (LogicalOp.all.map (·.symbol)) LogicalOp.ofSymbol?)
    let (kind, rest) ← Json.tagged? place kinds tree
    match kind, ← Json.fields? (fieldNames kind) rest with
    | "literal", [value] => return literal (← value).normal
    | "source_column", [source, name] =>
      return column (← Json.required asLower? source) (← Json.required asLower? name)
    | "binary", [op, left, right] => return binary (← arithmetic op) (← part left) (← part right)
    | "comparison", [op, left, right] =>
      return comparison (← comparing op) (← part left) (← part right)
    | "logical", [op, left, right] => return logical (← joining op) (← part left) (← part right)
    | "not", [operand] => return not (← part operand)
    | "negate", [operand] => return negate (← part operand)
    | "is_null", [operand, negated] => return isNull (← part operand) (← flag negated)
    | "in_list", [operand, items, negated] =>
      return inList (← part operand) (← Json.required (Json.asList? (read? fuel .nested)) items)
        (← flag negated)
    | "function_call", [func, args] =>
      return call (← Json.required asLower? func)
        (← Json.defaulted [] (Json.asList? (read? fuel .nested)) args)
    | _, _ => none

/-- The expression that a tree describes. -/
def ofJson? (tree : Json) : Option Expr := read? (tree.depth + 1) .alone tree

/-- The expression that a tree inside a statement describes. -/
def ofNestedJson? (tree : Json) : Option Expr := read? (tree.depth + 1) .nested tree

mutual

/-- The expression as a tree. -/
def toJson : Expr → Json
  | literal value => .obj [("kind", .str "literal"), ("value", value)]
  | column source name =>
    .obj [("kind", .str "source_column"), ("source", .str source), ("column", .str name)]
  | binary op left right =>
    .obj [("kind", .str "binary"), ("op", .str op.symbol), ("left", toJson left),
      ("right", toJson right)]
  | comparison op left right =>
    .obj [("kind", .str "comparison"), ("cmp", .str op.symbol), ("left", toJson left),
      ("right", toJson right)]
  | logical op left right =>
    .obj [("kind", .str "logical"), ("op", .str op.symbol), ("left", toJson left),
      ("right", toJson right)]
  | not operand => .obj [("kind", .str "not"), ("operand", toJson operand)]
  | negate operand => .obj [("kind", .str "negate"), ("operand", toJson operand)]
  | isNull operand negated =>
    .obj [("kind", .str "is_null"), ("operand", toJson operand), ("negated", .bool negated)]
  | inList operand items negated =>
    .obj [("kind", .str "in_list"), ("operand", toJson operand), ("list", .arr (toJsonAll items)),
      ("negated", .bool negated)]
  | call func args =>
    .obj [("kind", .str "function_call"), ("func", .str func), ("args", .arr (toJsonAll args))]

/-- The trees of expressions. -/
def toJsonAll : List Expr → List Json
  | [] => []
  | e :: es => toJson e :: toJsonAll es

end

end RecordQuery.Expr
