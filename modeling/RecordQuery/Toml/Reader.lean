import RecordQuery.Toml.Scalar
import RecordQuery.Toml.Tree

/-!
# Reading configuration texts

A configuration text is a list of declarations, one on a line: `[table]`, `[[list.of.tables]]`, or
`key = value`, which assigns in the table that was declared last. Values are quoted texts, booleans,
numbers, lists and tables in braces. A comment runs from `#` to the end of its line.
-/
namespace RecordQuery.Toml

/-! ## Blanks and comments -/

/-- Drops blanks. -/
def skipBlanks (cs : List Char) : List Char := cs.dropWhile fun c => c == ' ' || c == '\t'

/-- Drops a comment, if there is one. -/
def skipComment? : List Char → Option (List Char)
  | '#' :: rest =>
    let tail := rest.dropWhile isPlain
    match tail with
    | [] => some []
    | '\n' :: _ => some tail
    | '\r' :: '\n' :: _ => some tail
    | _ => none
  | rest => some rest

/-- Drops the end of a line, with blanks and a comment before it. -/
def endLine? (cs : List Char) : Option (List Char) :=
  match skipComment? (skipBlanks cs) with
  | some [] => some []
  | some ('\n' :: rest) => some rest
  | some ('\r' :: '\n' :: rest) => some rest
  | _ => none

/-- Drops blanks, comments and ends of lines. -/
def skipLines (fuel : Nat) (cs : List Char) : List Char :=
  let cs := skipBlanks cs
  match fuel, cs with
  | fuel + 1, _ :: _ =>
    match endLine? cs with
    | some rest => skipLines fuel rest
    | none => cs
  | _, _ => cs

/-! ## Keys -/

/-- Whether a character may stand in a key without quotes. -/
def isKeyChar (c : Char) : Bool := c.isAlphanum || c == '_' || c == '-'

/-- One key and what follows. -/
def key? (cs : List Char) : Option (String × List Char) :=
  match quotedText? cs with
  | some found => some found
  | none =>
    match cs.takeWhile isKeyChar with
    | [] => none
    | key => some (String.ofList key, cs.dropWhile isKeyChar)

/-- Keys joined by points, and what follows them and the blanks behind them. -/
def path? (fuel : Nat) (cs : List Char) : Option (List String × List Char) :=
  match fuel with
  | 0 => none
  | fuel + 1 => do
    let (key, rest) ← key? (skipBlanks cs)
    match skipBlanks rest with
    | '.' :: rest =>
      let (keys, tail) ← path? fuel rest
      return (key :: keys, tail)
    | tail => return ([key], tail)

/-! ## Values -/

mutual

/-- The value at the front of a text, and what follows. -/
def value? (fuel : Nat) (cs : List Char) : Option (Json × List Char) :=
  match fuel with
  | 0 => none
  | fuel + 1 =>
    match cs with
    | '[' :: rest => (items? fuel rest).map fun (items, tail) => (.arr items, tail)
    | '\x7b' :: rest =>
      match skipBlanks rest with
      | '\x7d' :: tail => some (.obj [], tail)
      | inside =>
        (members? fuel [] inside).map fun (members, tail) => (.obj (membersToJson members), tail)
    | _ =>
      match quotedText? cs with
      | some (s, tail) => some (.str s, tail)
      | none => (word? (cs.takeWhile isWordChar)).map fun v => (v, cs.dropWhile isWordChar)

/-- The items of a list up to its closing bracket; a comma may follow the last one. -/
def items? (fuel : Nat) (cs : List Char) : Option (List Json × List Char) :=
  match fuel with
  | 0 => none
  | fuel + 1 =>
    match skipLines fuel cs with
    | ']' :: tail => some ([], tail)
    | inside => do
      let (item, rest) ← value? fuel inside
      match skipLines fuel rest with
      | ']' :: tail => return ([item], tail)
      | ',' :: rest =>
        let (items, tail) ← items? fuel rest
        return (item :: items, tail)
      | _ => none

/-- The members of a table up to its closing brace, added to those before. -/
def members? (fuel : Nat) (members : Members) (cs : List Char) : Option (Members × List Char) :=
  match fuel with
  | 0 => none
  | fuel + 1 => do
    let (path, rest) ← path? fuel cs
    match rest with
    | '=' :: rest =>
      let (v, rest) ← value? fuel (skipBlanks rest)
      let members ← alter? (assign v) (path.map (⟨·, true⟩)) members
      match skipBlanks rest with
      | '\x7d' :: tail => return (members, tail)
      | ',' :: rest => members? fuel members rest
      | _ => none
    | _ => none

end

/-! ## Declarations -/

/-- What a line declares. -/
inductive Declaration where
  | table (path : List String)
  | tables (path : List String)
  | value (path : List String) (v : Json)

/-- The declaration at the front of a text, and what follows its line. -/
def declaration? (fuel : Nat) (cs : List Char) : Option (Declaration × List Char) := do
  match cs with
  | '[' :: '[' :: rest =>
    match ← path? fuel rest with
    | (path, ']' :: ']' :: tail) => return (.tables path, ← endLine? tail)
    | _ => none
  | '[' :: rest =>
    match ← path? fuel rest with
    | (path, ']' :: tail) => return (.table path, ← endLine? tail)
    | _ => none
  | _ =>
    match ← path? fuel cs with
    | (path, '=' :: rest) =>
      let (v, tail) ← value? fuel (skipBlanks rest)
      return (.value path v, ← endLine? tail)
    | _ => none

/-- The declarations of a text in their order. -/
def declarations? (fuel : Nat) (cs : List Char) : Option (List Declaration) :=
  match fuel with
  | 0 => none
  | fuel + 1 =>
    match skipLines fuel cs with
    | [] => some []
    | inside => do
      let (d, rest) ← declaration? fuel inside
      return d :: (← declarations? fuel rest)

/-- The steps of the path of a table. -/
def headerSteps (path : List String) : List Step := path.map (⟨·, false⟩)

/-- Carries out declarations; values go into the table of the given path. -/
def build? (current : List String) (members : Members) : List Declaration → Option Members
  | [] => some members
  | .table path :: rest => do build? path (← alter? declare (headerSteps path) members) rest
  | .tables path :: rest => do build? path (← alter? append (headerSteps path) members) rest
  | .value path v :: rest => do
    build? current
      (← alter? (assign v) (headerSteps current ++ path.map (⟨·, true⟩)) members) rest

/-- The data tree of a configuration text. A mark of the byte order in front of it is skipped. -/
def parse? (s : String) : Option Json := do
  let cs := match s.toList with
    | '\ufeff' :: rest => rest
    | cs => cs
  let declarations ← declarations? (2 * cs.length + 2) cs
  return .obj (membersToJson (← build? [] [] declarations))

end RecordQuery.Toml
