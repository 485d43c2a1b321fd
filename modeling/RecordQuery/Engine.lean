import RecordQuery.Statement.Insert
import RecordQuery.Statement.Update
import RecordQuery.Statement.Reader
import RecordQuery.Json.Parser

/-!
# The engine

Executes statements on a store: each in a stage of its own, which is committed if the statement
found no error and rolled back otherwise.

The time and the identifiers of new records are given from outside, and a call to the store is one
step. What a run writes to a log is left out, since no result depends on it.
-/
namespace RecordQuery

open Calendar (Instant)

namespace Statement

/-- Executes a statement in a context, without committing. -/
def execute (s : Statement) (ctx : Context) : Exec Result :=
  match s with
  | select q => q.execute ctx
  | insert q => q.execute ctx
  | update q => q.execute ctx

end Statement

/-- What the engine answers: the result of a statement, its errors, and how many writes were
committed. -/
structure Outcome where
  result : Result
  errors : List ValidationError
  committed : Nat

/-- What statements share: a schema, limits and a clock. -/
structure Engine where
  schema : Schema
  limits : Limits := {}
  now : Instant

namespace Engine

/-- The context of a statement that writes to the given stage. -/
def context (engine : Engine) (stage : StageId) : Context :=
  { schema := engine.schema, limits := engine.limits, stage, now := engine.now }

/-- Executes a statement in a new stage and ends the stage. -/
def execute (engine : Engine) (s : Statement) : Script (Except Failure Outcome) := do
  let stage ← Script.ask .openStage
  match ← (s.execute (engine.context stage)).run [] with
  | (.error failure, _) =>
    let _ ← Script.ask (.rollback stage)
    return .error failure
  | (.ok result, errors) =>
    if result.canCommit then
      match ← Script.ask (.commit stage) with
      | .ok count => return .ok ⟨result, errors, count⟩
      | .error failure => return .error failure
    else
      match ← Script.ask (.rollback stage) with
      | .ok _ => return .ok ⟨result, errors, 0⟩
      | .error failure => return .error failure

/-- Executes the statement that a text describes. -/
def executeText (engine : Engine) (source : String) : Script (Except Failure Outcome) :=
  match (Json.parse? source).bind Statement.ofJson? with
  | some s => engine.execute s
  | none => return .error .json

end Engine
end RecordQuery
