/-!
# Arguments of the lint command

The command takes options in their short and long forms; a value stands in the argument of its
option or in the next one. Each option is given at most once.
-/
namespace RecordQuery.Lint

/-- What the command is asked to check, and how it reports. -/
structure Options where
  /-- The configuration file. -/
  config : Option String := none
  /-- The schema file that is checked in place of the configured types. -/
  schema : Option String := none
  json : Bool := false
  deriving DecidableEq

/-- What the command is asked for. -/
inductive Request where
  | help
  | check (options : Options)
  deriving DecidableEq

/-- An option with a value. -/
inductive Setting where
  | config | schema
  deriving DecidableEq

namespace Options

/-- Gives an option its value, which may not be empty. -/
def set? (o : Options) (s : Setting) (value : String) : Option Options :=
  if value.isEmpty then none
  else
    match s with
    | .config => if o.config.isSome then none else some { o with config := some value }
    | .schema => if o.schema.isSome then none else some { o with schema := some value }

/-- Asks for a report as a data tree. -/
def setJson? (o : Options) : Option Options := if o.json then none else some { o with json := true }

end Options

/-- What one argument says. -/
inductive Word where
  | help
  | json
  | given (s : Setting) (value : String)
  /-- The value is the next argument. -/
  | pending (s : Setting)
  | refused
  deriving DecidableEq

/-- What an option with a value says, whose value may follow its letter with or without an equals
sign. -/
def shortSetting (s : Setting) : List Char → Word
  | [] => .pending s
  | '=' :: value => .given s (String.ofList value)
  | value => .given s (String.ofList value)

/-- What the letters of an argument after a single dash say. -/
def shortWord : List Char → Word
  | 'h' :: _ => .help
  | 'c' :: value => shortSetting .config value
  | 's' :: value => shortSetting .schema value
  | _ => .refused

/-- What an argument after two dashes says. -/
def longWord (body : List Char) : Word :=
  let name := String.ofList (body.takeWhile (· != '='))
  let setting (s : Setting) : Word :=
    match body.dropWhile (· != '=') with
    | [] => .pending s
    | _ :: value => .given s (String.ofList value)
  if name = "config" then setting .config
  else if name = "schema" then setting .schema
  else if body = "json".toList then .json
  else if body = "help".toList then .help
  else .refused

/-- What an argument says. -/
def Word.ofArgument (argument : String) : Word :=
  match argument.toList with
  | '-' :: '-' :: body => longWord body
  | '-' :: body => shortWord body
  | _ => .refused

/-- Whether an argument is an option and not a value. -/
def looksLikeOption (argument : String) : Bool := argument.startsWith "-" && argument != "-"

/-- Reads arguments after those that have set the given options. -/
def readArguments (o : Options) : List String → Option Request
  | [] => some (.check o)
  | argument :: rest =>
    if argument = "--" then if rest.isEmpty then some (.check o) else none
    else
      match Word.ofArgument argument with
      | .help => some .help
      | .json => o.setJson?.bind fun o => readArguments o rest
      | .given s value => (o.set? s value).bind fun o => readArguments o rest
      | .pending s =>
        match rest with
        | [] => none
        | value :: rest =>
          if looksLikeOption value then none
          else (o.set? s value).bind fun o => readArguments o rest
      | .refused => none

/-- What arguments ask for; none if they cannot be understood. -/
def Request.ofArguments? (arguments : List String) : Option Request := readArguments {} arguments

end RecordQuery.Lint
