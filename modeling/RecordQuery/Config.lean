import RecordQuery.Engine
import RecordQuery.Schema.Lint
import RecordQuery.Schema.Reader
import RecordQuery.Toml.Reader
import RecordQuery.Files.Directory

/-!
# Configurations

A configuration names the limits and the types of an engine. Types stand in the configuration itself
or in a schema file beside it; of two types of one name that of the configuration counts.
-/
namespace RecordQuery

open Calendar (Instant)
open Files (FileReader)

/-! ## Schema files -/

namespace Schema

/-- The schema that a configuration text describes. -/
def ofTomlText (source : String) : Except Failure Schema :=
  match (Toml.parse? source).bind ofJson? with
  | some schema => .ok schema
  | none => .error .toml

/-- The schema of the text of a file: a data tree if the file is named so, else a configuration. -/
def ofFileText (path source : String) : Except Failure Schema :=
  if Files.extension? path = some "json" then ofJsonText source else ofTomlText source

/-- Reads the schema file at a path. -/
def load {m : Type → Type} [Monad m] (read : FileReader m) (path : String) :
    ExceptT Failure m Schema := do
  match ← read path with
  | .ok source => ofFileText path source
  | .error _ => throw .io

end Schema

/-! ## Configurations -/

/-- The settings of an engine. -/
structure Config where
  limits : Limits := {}
  /-- Which events are to be logged: it is read and kept, and nothing here logs. -/
  logFilter : String := "docql=info"
  /-- Where the schema file is; a relative path is resolved from the directory of the
  configuration. -/
  schemaPath : Option String := none
  types : List TypeDef := []
  /-- The directory of the file that the configuration was read from. -/
  baseDir : Option String := none

namespace Config

/-- The configuration that a tree describes; what is left out has its usual value. -/
def ofJson? (tree : Json) : Option Config := do
  match ← Json.fields? ["limits", "log_filter", "schema_path", "types"] tree with
  | [limits, logFilter, schemaPath, types] =>
    return {
      limits := ← Json.defaulted {} Limits.ofJson? limits
      logFilter := ← Json.defaulted "docql=info" Json.asText? logFilter
      schemaPath := ← Json.optional Json.asText? schemaPath
      types := ← Json.defaulted [] (Json.asList? TypeDef.ofJson?) types }
  | _ => none

/-- The configuration that a text describes. -/
def ofText (source : String) : Except Failure Config :=
  match (Toml.parse? source).bind ofJson? with
  | some config => .ok config
  | none => .error .toml

/-- Where the schema file of a configuration is, if it has one. -/
def schemaFile? (c : Config) : Option String :=
  c.schemaPath.map fun path =>
    match c.baseDir with
    | some base => Files.join base path
    | none => path

section
variable {m : Type → Type} [Monad m]

/-- Reads the configuration file at a path. -/
def load (read : FileReader m) (path : String) : ExceptT Failure m Config := do
  match ← read path with
  | .ok source => return { (← ofText source) with baseDir := Files.parent? path }
  | .error e => throw (.config ("Cannot read '" ++ path ++ "': " ++ e.message))

/-- The environment variable that names the configuration file. -/
def variableName : String := "DOCQL_CONFIG"

/-- Reads the configuration file that the environment names; without one, settings have their usual
values. -/
def loadNamed (read : FileReader m) (path : Option String) : ExceptT Failure m Config :=
  match path with
  | some path => if path.isEmpty then return {} else load read path
  | none => return {}

/-- The types of a configuration over those of a schema file. -/
def overlay (c : Config) (base : Schema) : Except Failure Schema :=
  let schema := base.extend (Schema.ofTypes c.types)
  if schema.isEmpty then .error (.config "No types configured") else .ok schema

/-- The schema of a configuration. -/
def schema (read : FileReader m) (c : Config) : ExceptT Failure m Schema := do
  match c.schemaFile? with
  | some path => c.overlay (← Schema.load read path)
  | none => c.overlay {}

/-- The engine of a configuration; its schema has to pass the lint. -/
def engine (read : FileReader m) (now : Instant) (c : Config) : ExceptT Failure m Engine := do
  let schema ← c.schema read
  schema.validate
  return { schema, limits := c.limits, now }

end

end Config
end RecordQuery
