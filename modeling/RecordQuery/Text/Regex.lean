import RecordQuery.Text.Fold

/-!
# Regular expressions

The regular expressions that patterns are matched as. They are anchored at both ends and ignore case,
and the dot stands for line ends too. Between the anchors there are characters, dots, and dots that
are repeated any number of times.
-/
namespace RecordQuery.Regex

/-! ## Sources -/

/-- The characters that have a meaning of their own unless they are escaped. -/
def special : List Char :=
  ['\\', '.', '+', '*', '?', '(', ')', '|', '[', ']', '\x7b', '\x7d', '^', '$', '#', '&', '-', '~']

/-- The source of a character that stands for itself. -/
def escape (c : Char) : List Char := if special.contains c then ['\\', c] else [c]

/-- The flags and the anchor in front. -/
def opening : List Char := ['(', '?', 'i', 's', ')', '^']

/-- The anchor at the end. -/
def closing : List Char := ['$']

/-- One part of a regular expression between its anchors. -/
inductive Part where
  /-- One character, in either case. -/
  | letter (c : Char)
  /-- Any one character. -/
  | any
  /-- Any run of characters, the empty one too. -/
  | run
  deriving DecidableEq

/-- Reads the parts up to the anchor at the end. -/
def readParts? : List Char → Option (List Part)
  | [] => none
  | ['$'] => some []
  | '.' :: '*' :: rest => (readParts? rest).map (.run :: ·)
  | '.' :: rest => (readParts? rest).map (.any :: ·)
  | '\\' :: c :: rest =>
    if special.contains c then (readParts? rest).map (.letter c :: ·) else none
  | c :: rest => if special.contains c then none else (readParts? rest).map (.letter c :: ·)

/-- Reads the source of a regular expression; there are others that are not read here. -/
def read? (source : List Char) : Option (List Part) :=
  if opening.isPrefixOf source then readParts? (source.drop opening.length) else none

/-! ## Matching

The parts are gone through from the last one on. After each step a row of booleans tells, for each
suffix of the text from the whole text down to the empty one, whether the parts from there on match
it.
-/

/-- The row of no parts: they match the empty suffix alone. -/
def emptyRow : List Char → List Bool
  | [] => [true]
  | _ :: rest => false :: emptyRow rest

/-- The row of a run before other parts: it matches a suffix if those match that or a later one. -/
def runRow : List Bool → List Bool
  | [] => []
  | b :: rest =>
    let later := runRow rest
    (b || later.head?.getD false) :: later

/-- The row of one character before other parts: the first character of the suffix has to fit, and
the parts have to match the rest. -/
def charRow (fits : Char → Bool) : List Char → List Bool → List Bool
  | c :: text, _ :: row => (fits c && row.head?.getD false) :: charRow fits text row
  | _, _ => [false]

/-- The row of a part before other parts. -/
def stepRow (text : List Char) : Part → List Bool → List Bool
  | .letter c, row => charRow (Text.sameLetter c) text row
  | .any, row => charRow (fun _ => true) text row
  | .run, row => runRow row

/-- The row of a list of parts. -/
def rows (parts : List Part) (text : List Char) : List Bool :=
  parts.foldr (stepRow text) (emptyRow text)

/-- Whether parts match a whole text. -/
def accepts (parts : List Part) (text : List Char) : Bool := (rows parts text).head?.getD false

end RecordQuery.Regex
