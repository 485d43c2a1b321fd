import RecordQuery.Dict
import RecordQuery.Text.Blank

/-!
# Environment files

A file that defines variables, one `NAME=value` on a line. A variable that the environment defines
keeps its value, and of two definitions the first one counts. A line that cannot be read ends the
file.
-/
namespace RecordQuery.EnvFile

/-! ## Values -/

/-- Where in a value a character stands. In double quotes `weak` is true. -/
inductive Mode where
  | text (weak : Bool)
  /-- Between single quotes. -/
  | strong
  /-- After a backslash. -/
  | escape (weak : Bool)
  /-- In a name after `$`, its characters so far in reverse. -/
  | name (weak : Bool) (letters : List Char)
  /-- In a name in braces. -/
  | braced (weak : Bool) (letters : List Char)
  /-- Behind the value. -/
  | over
  deriving DecidableEq

/-- Whether a character can be escaped by a backslash. -/
def isEscapable (c : Char) : Bool := c == '\\' || c == '\'' || c == '"' || c == '$' || c == ' '

/-- The value of a variable whose name is given in reverse. -/
def substitute (lookup : String → String) (letters : List Char) : List Char :=
  (lookup (String.ofList letters.reverse)).toList

/-- The value that a text stands for, with the values of other variables. -/
def value? (lookup : String → String) : Mode → List Char → Option (List Char)
  | .text weak, [] => if weak then none else some []
  | .escape weak, [] => if weak then none else some []
  | .over, [] => some []
  | .name weak letters, [] => if weak then none else some (substitute lookup letters)
  | .strong, [] => none
  | .braced _ _, [] => none
  | .over, c :: rest =>
    if c == ' ' || c == '\t' then value? lookup .over rest
    else if c == '#' then some []
    else none
  | .escape weak, c :: rest =>
    if isEscapable c then (value? lookup (.text weak) rest).map (c :: ·)
    else if c == 'n' then (value? lookup (.text weak) rest).map ('\n' :: ·)
    else none
  | .strong, c :: rest =>
    if c == '\'' then value? lookup (.text false) rest
    else (value? lookup .strong rest).map (c :: ·)
  | .name weak letters, c :: rest =>
    if c.isAlphanum then value? lookup (.name weak (c :: letters)) rest
    else if c == '\x7b' && letters.isEmpty then value? lookup (.braced weak []) rest
    else
      let found := substitute lookup letters
      if c == '$' then (value? lookup (.name weak []) rest).map (found ++ ·)
      else (value? lookup (.text weak) rest).map (found ++ c :: ·)
  | .braced weak letters, c :: rest =>
    if c == '\x7d' then (value? lookup (.text weak) rest).map (substitute lookup letters ++ ·)
    else value? lookup (.braced weak (c :: letters)) rest
  | .text weak, c :: rest =>
    if c == '$' then value? lookup (.name weak []) rest
    else if c == '\\' then value? lookup (.escape weak) rest
    else if c == '"' then value? lookup (.text (!weak)) rest
    else if weak then (value? lookup (.text weak) rest).map (c :: ·)
    else if c == '\'' then value? lookup .strong rest
    else if c == ' ' || c == '\t' then value? lookup .over rest
    else (value? lookup (.text weak) rest).map (c :: ·)

/-! ## Lines -/

/-- Whether a character may stand in the name of a variable. -/
def isNameChar (c : Char) : Bool := c.isAlphanum || c == '_' || c == '.'

/-- The name of a variable and what follows it and the blanks behind it. -/
def name? (cs : List Char) : Option (String × List Char) :=
  match cs with
  | c :: _ =>
    if c.isAlpha || c == '_' then
      some (String.ofList (cs.takeWhile isNameChar), Text.trimLeft (cs.dropWhile isNameChar))
    else none
  | [] => none

/-- The name of the variable that a line defines and the text of its value; the word `export` may
stand in front. -/
def definition? (line : List Char) : Option (String × List Char) := do
  match ← name? line with
  | (name, '=' :: rest) => return (name, Text.trimLeft rest)
  | ("export", rest) =>
    match ← name? rest with
    | (name, '=' :: rest) => return (name, Text.trimLeft rest)
    | _ => none
  | _ => none

/-- Whether a text starts a comment or is empty. -/
def isVoid (cs : List Char) : Bool := cs.isEmpty || cs.head? == some '#'

/-- The variables that lines define, added to those of the lines before. -/
def readLines (environment : String → Option String) (defined : Dict String) :
    List (List Char) → Dict String
  | [] => defined
  | line :: rest =>
    let line := Text.trim line
    if isVoid line then readLines environment defined rest
    else
      let lookup (name : String) : String :=
        ((environment name).or (Dict.get? defined name)).getD ""
      match definition? line with
      | none => defined
      | some (name, text) =>
        match if isVoid text then some [] else value? lookup (.text false) text with
        | none => defined
        | some value =>
          readLines environment
            (if Dict.hasKey defined name then defined
              else Dict.insert defined name (String.ofList value))
            rest

/-- The variables that the text of a file defines. -/
def read (environment : String → Option String) (source : String) : Dict String :=
  readLines environment [] ((source.splitOn "\n").map String.toList)

end RecordQuery.EnvFile
