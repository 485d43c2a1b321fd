/-!
# Failures

What stops an operation altogether: the store, the configuration or a file does not do what is
asked. Problems of a statement's content are validation errors and stop nothing.
-/
namespace RecordQuery

/-- Why an operation was given up. -/
inductive Failure where
  | tableNotFound (table : String)
  | recordNotFound (table id : String)
  | schema (detail : String)
  | config (detail : String)
  | storage (detail : String)
  | function (detail : String)
  /-- A text that should hold a data tree does not, or the tree has the wrong shape. -/
  | json
  /-- A configuration text is malformed, or its content has the wrong shape. -/
  | toml
  /-- A file cannot be read. -/
  | io
  deriving DecidableEq

namespace Failure

/-- The name of the kind of failure. -/
def kind : Failure → String
  | tableNotFound _ => "TableNotFound"
  | recordNotFound _ _ => "RecordNotFound"
  | schema _ => "Schema"
  | config _ => "Config"
  | storage _ => "Storage"
  | function _ => "Function"
  | json => "Json"
  | toml => "Toml"
  | io => "Io"

/-- The message of a failure; those of texts and files have none of their own. -/
def message? : Failure → Option String
  | tableNotFound table => some ("Table '" ++ table ++ "' not found")
  | recordNotFound table id => some ("Record '" ++ id ++ "' not found in table '" ++ table ++ "'")
  | schema detail => some ("Schema error: " ++ detail)
  | config detail => some ("Configuration error: " ++ detail)
  | storage detail => some ("Storage error: " ++ detail)
  | function detail => some ("Function error: " ++ detail)
  | json => none
  | toml => none
  | io => none

/-- The text of a failure inside other messages. -/
def text (f : Failure) : String :=
  match f with
  | json => "JSON error"
  | toml => "TOML error"
  | io => "IO error"
  | other => (message? other).getD ""

end Failure
end RecordQuery
