import RecordQuery.Lint.Command

/-!
# Running the lint command

Reads files and the environment of the process for the lint command, prints its report and ends with
its exit code.
-/
namespace RecordQuery.Main

open Files (ReadError)

/-- Reads a file from the disk. -/
def readFile (path : String) : IO (Except ReadError String) := do
  try
    return .ok (← IO.FS.readFile path)
  catch
    | .noFileOrDirectory .. => return .error .missing
    | .inappropriateType .. => return .error .isDirectory
    | e => return .error (.other (toString e))

/-- The text of the environment file in a directory or in the nearest one above it that has one. -/
def findEnvFile (fuel : Nat) (directory : String) : IO (Option String) := do
  match fuel with
  | 0 => return none
  | fuel + 1 =>
    match ← readFile (Files.join directory ".env") with
    | .ok text => return some text
    | .error _ =>
      match Files.parent? directory with
      | some above => findEnvFile fuel above
      | none => return none

end RecordQuery.Main

open RecordQuery in
/-- Runs the lint command. -/
def main (arguments : List String) : IO UInt32 := do
  let directory := toString (← IO.currentDir)
  let envFile ← Main.findEnvFile directory.length directory
  let configured ← IO.getEnv Config.variableName
  let environment (name : String) : Option String :=
    if name = Config.variableName then configured else none
  let report ← Lint.run Main.readFile environment envFile arguments
  IO.print report.output
  IO.eprint report.diagnostics
  return report.exitCode.toUInt32
