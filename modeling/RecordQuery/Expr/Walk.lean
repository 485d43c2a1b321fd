import RecordQuery.Expr.Basic
import RecordQuery.Functions.Aggregate

/-!
# Walking expressions

A visitor is led through an expression from the root down and from left to right; it carries a state
and decides at each node whether the walk goes below it.
-/
namespace RecordQuery.Expr

/-- A visitor: from the state and a node to the next state and whether to go below the node. -/
abbrev Visitor (σ : Type) := σ → Expr → σ × Bool

section
variable {σ : Type}

mutual

/-- Leads a visitor through an expression. -/
def walk (visit : Visitor σ) (state : σ) : Expr → σ
  | literal value => (visit state (literal value)).1
  | column source name => (visit state (column source name)).1
  | binary op left right =>
    let (state, below) := visit state (binary op left right)
    if below then walk visit (walk visit state left) right else state
  | comparison op left right =>
    let (state, below) := visit state (comparison op left right)
    if below then walk visit (walk visit state left) right else state
  | logical op left right =>
    let (state, below) := visit state (logical op left right)
    if below then walk visit (walk visit state left) right else state
  | not operand =>
    let (state, below) := visit state (not operand)
    if below then walk visit state operand else state
  | negate operand =>
    let (state, below) := visit state (negate operand)
    if below then walk visit state operand else state
  | isNull operand negated =>
    let (state, below) := visit state (isNull operand negated)
    if below then walk visit state operand else state
  | inList operand items negated =>
    let (state, below) := visit state (inList operand items negated)
    if below then walkAll visit (walk visit state operand) items else state
  | call func args =>
    let (state, below) := visit state (call func args)
    if below then walkAll visit state args else state

/-- Leads a visitor through expressions, one after another. -/
def walkAll (visit : Visitor σ) (state : σ) : List Expr → σ
  | [] => state
  | e :: es => walkAll visit (walk visit state e) es

end

end

/-- The direct parts of an expression from left to right. -/
def children : Expr → List Expr
  | literal _ => []
  | column _ _ => []
  | binary _ left right => [left, right]
  | comparison _ left right => [left, right]
  | logical _ left right => [left, right]
  | not operand => [operand]
  | negate operand => [operand]
  | isNull operand _ => [operand]
  | inList operand items _ => operand :: items
  | call _ args => args

/-- Leads a visitor through the direct parts of an expression and what is below them. -/
def walkChildren {σ : Type} (visit : Visitor σ) (state : σ) (e : Expr) : σ :=
  walkAll visit state e.children

/-- Adds a text to a sorted list unless it is there. -/
def insertName (name : String) : List String → List String
  | [] => [name]
  | other :: rest =>
    match compare name other with
    | .lt => name :: other :: rest
    | .eq => other :: rest
    | .gt => other :: insertName name rest

/-- Collects the source of a column. -/
def collectSource : Visitor (List String)
  | names, column source _ => (insertName source names, true)
  | names, _ => (names, true)

/-- The sources that columns of an expression refer to, sorted and each once. -/
def referencedTables (e : Expr) : List String := e.walk collectSource []

/-- Looks for a call of an aggregate and stops the walk once it has found one. -/
def findAggregate : Visitor Bool
  | found, call func args =>
    if Functions.isAggregate func args.length then (true, false) else (found, !found)
  | found, _ => (found, !found)

/-- Whether an expression calls an aggregate. -/
def containsAggregate (e : Expr) : Bool := e.walk findAggregate false

end RecordQuery.Expr
