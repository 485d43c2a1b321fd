import RecordQuery.Config
import RecordQuery.Config.EnvFile
import RecordQuery.Lint.Arguments

/-!
# The lint command

Checks the configured schema, or the schema of a given file, and reports its issues. The exit code
is 0 if there are none, 1 if there are some or nothing could be checked, and 2 for arguments that
cannot be understood.
-/
namespace RecordQuery.Lint

open Files (FileReader)

/-- What a run of the command leaves behind. -/
structure Report where
  exitCode : Nat
  /-- What is printed. -/
  output : String := ""
  /-- What is printed to the error stream. -/
  diagnostics : String := ""

namespace Report

/-- The report on a schema. -/
def ofSchema (json : Bool) (schema : Schema) : Report :=
  let issues := schema.lint
  let lines := issues.map (·.text) ++
    [toString schema.size ++ " types checked, " ++ toString issues.length ++ " issues"]
  { exitCode := if issues.isEmpty then 0 else 1
    output :=
      if json then Json.pretty 0 (.arr (issues.map (·.toJson))) ++ "\n"
      else String.join (lines.map (· ++ "\n")) }

/-- The report on a step that failed. -/
def ofFailure (step : String) (failure : Failure) : Report :=
  { exitCode := 1
    diagnostics := "Error: " ++ step ++ "\n\nCaused by:\n    " ++ failure.text ++ "\n" }

/-- The report on arguments that cannot be understood. -/
def usage : Report :=
  { exitCode := 2
    diagnostics := "error: unexpected arguments\n\nUsage: docql-lint [OPTIONS]\n\n" ++
      "For more information, try '--help'.\n" }

/-- The report that explains the options. -/
def help : Report :=
  { exitCode := 0
    output :=
      "Check a docql schema for structural problems\n\nUsage: docql-lint [OPTIONS]\n\nOptions:\n" ++
      "  -c, --config <CONFIG>  Config file (defaults to $DOCQL_CONFIG)\n" ++
      "  -s, --schema <SCHEMA>  Lint this schema file instead of the configured types\n" ++
      "      --json             Print findings as JSON\n" ++
      "  -h, --help             Print help\n" }

end Report

section
variable {m : Type → Type} [Monad m]

/-- Does a step; its failure becomes the report. -/
def step {α : Type} (name : String) (x : ExceptT Failure m α) : ExceptT Report m α :=
  ExceptT.mk do
    match ← x.run with
    | .ok a => return .ok a
    | .error failure => return .error (.ofFailure name failure)

/-- Checks what the options name. `configPath` is the configuration file of the environment. -/
def check (read : FileReader m) (configPath : Option String) (o : Options) :
    ExceptT Report m Report := do
  let config ← match o.config with
    | some path => step ("loading config " ++ path) (Config.load read path)
    | none =>
      step ("loading config from " ++ Config.variableName) (Config.loadNamed read configPath)
  let schema ← match o.schema with
    | some path => step ("loading schema " ++ path) (Schema.load read path)
    | none => step "loading configured schema" (config.schema read)
  return .ofSchema o.json schema

/-- Where the environment finds the configuration file: its own variable counts before that of an
environment file. -/
def configPath? (environment : String → Option String) (envFile : Option String) : Option String :=
  match environment Config.variableName with
  | some path => some path
  | none => envFile.bind fun text => Dict.get? (EnvFile.read environment text) Config.variableName

/-- Runs the command. `envFile` is the text of the environment file, if there is one. -/
def run (read : FileReader m) (environment : String → Option String) (envFile : Option String)
    (arguments : List String) : m Report :=
  match Request.ofArguments? arguments with
  | none => return .usage
  | some .help => return .help
  | some (.check o) => do
    match ← (check read (configPath? environment envFile) o).run with
    | .ok report => return report
    | .error report => return report

end

end RecordQuery.Lint
