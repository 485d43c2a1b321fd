import RecordQuery.Json.Shape
import RecordQuery.Json.Printer

/-!
# Validation errors

What a statement finds wrong with its input. The errors of a statement are collected in a list;
while inner parts report with short paths, the clause around them puts its own path in front and
drops what it has reported before.
-/
namespace RecordQuery

/-- One problem, located by a path such as `insert.values[2].age`. -/
structure ValidationError where
  path : String
  message : String
  expectedType : Option String := none
  actualType : Option String := none
  suggestion : Option String := none
  metadata : Option Json := none

namespace ValidationError

/-- Whether two errors say the same. -/
def same (a b : ValidationError) : Bool :=
  a.path == b.path && a.message == b.message && a.expectedType == b.expectedType &&
    a.actualType == b.actualType && a.suggestion == b.suggestion &&
    match a.metadata, b.metadata with
    | none, none => true
    | some x, some y => x.same y
    | _, _ => false

instance : BEq ValidationError := ⟨same⟩

/-- The error with both types named. -/
def withTypes (e : ValidationError) (expected actual : String) : ValidationError :=
  { e with expectedType := some expected, actualType := some actual }

/-- The error at another place. -/
def atPath (e : ValidationError) (path : String) : ValidationError := { e with path := path }

/-- The error inside a clause: the path of the clause comes first. -/
def within (clause : String) (e : ValidationError) : ValidationError :=
  e.atPath (if e.path.isEmpty then clause else clause ++ "." ++ e.path)

/-- The error in one line. -/
def text (e : ValidationError) : String :=
  let types := match e.expectedType, e.actualType with
    | some expected, some actual => " (expected " ++ expected ++ ", got " ++ actual ++ ")"
    | _, _ => ""
  let suggestion := match e.suggestion with
    | some s => ". " ++ s
    | none => ""
  e.path ++ ": " ++ e.message ++ types ++ suggestion

/-- The error as a tree; what is absent is left out. -/
def toJson (e : ValidationError) : Json :=
  let part (name : String) (value : Option Json) : List (String × Json) :=
    match value with
    | some v => [(name, v)]
    | none => []
  .obj ([("path", .str e.path), ("message", .str e.message)] ++
    part "expectedType" (e.expectedType.map .str) ++ part "actualType" (e.actualType.map .str) ++
    part "suggestion" (e.suggestion.map .str) ++ part "metadata" e.metadata)

/-- The error that a tree describes. -/
def ofJson? (tree : Json) : Option ValidationError := do
  let keys := ["path", "message", "expectedType", "actualType", "suggestion", "metadata"]
  match ← Json.fields? keys tree with
  | [path, message, expected, actual, suggestion, metadata] =>
    return {
      path := ← Json.required Json.asText? path
      message := ← Json.required Json.asText? message
      expectedType := ← Json.optional Json.asText? expected
      actualType := ← Json.optional Json.asText? actual
      suggestion := ← Json.optional Json.asText? suggestion
      metadata := ← Json.optional (fun j => some j.normal) metadata }
  | _ => none

end ValidationError

/-! ## Lists of errors -/

/-- Adds an error unless the list holds the same one. -/
def reportOnce (errors : List ValidationError) (e : ValidationError) : List ValidationError :=
  if errors.contains e then errors else errors ++ [e]

/-- Moves the errors after the first `mark` into a clause; those that then say the same as an
earlier one are dropped. -/
def scopeErrors (mark : Nat) (clause : String) (errors : List ValidationError) :
    List ValidationError :=
  (errors.drop mark).foldl (fun kept e => reportOnce kept (e.within clause)) (errors.take mark)

end RecordQuery
