import RecordQuery.Json.Basic
import RecordQuery.Decimal.Shortest

/-!
# Printing data trees

Compact text without blanks, and indented text. Quotes, backslashes and control characters are
escaped; all other characters are written as they are.
-/
namespace RecordQuery

/-- Doubles are written positionally from `0.00001` up to below `10 ^ 16`, else with an exponent
that always has a sign. -/
def Number.layout : Decimal.Layout := ⟨-5, 16, "+"⟩

/-- The text of a number: the digits of an integer, the shortest text of a double. -/
def Number.text : Number → String
  | .int i => toString i
  | .float x =>
    match Decimal.Parts.ofFloat? x with
    | some parts => layout.text parts
    | none => "null"

namespace Json

/-! ## Texts -/

/-- A character inside a quoted text. -/
def escapeChar (c : Char) : List Char :=
  if c = '"' then ['\\', '"']
  else if c = '\\' then ['\\', '\\']
  else if c = '\x08' then ['\\', 'b']
  else if c = '\t' then ['\\', 't']
  else if c = '\n' then ['\\', 'n']
  else if c = '\x0c' then ['\\', 'f']
  else if c = '\r' then ['\\', 'r']
  else if c.toNat < 0x20 then
    ['\\', 'u', '0', '0', Nat.digitChar (c.toNat / 16), Nat.digitChar (c.toNat % 16)]
  else [c]

/-- The characters of a quoted text. -/
def quoted (s : String) : List Char := '"' :: (s.toList.flatMap escapeChar ++ ['"'])

/-- A quoted text. -/
def quote (s : String) : String := String.ofList (quoted s)

/-! ## Compact text -/

mutual

/-- The characters of the compact text of a tree. -/
def chars : Json → List Char
  | null => ['n', 'u', 'l', 'l']
  | bool true => ['t', 'r', 'u', 'e']
  | bool false => ['f', 'a', 'l', 's', 'e']
  | num n => n.text.toList
  | str s => quoted s
  | arr [] => ['[', ']']
  | arr (x :: xs) => '[' :: (chars x ++ moreItems xs)
  | obj [] => ['\x7b', '\x7d']
  | obj ((key, value) :: rest) => '\x7b' :: (quoted key ++ ':' :: (chars value ++ moreMembers rest))

/-- The items of a list after the first one, up to the closing bracket. -/
def moreItems : List Json → List Char
  | [] => [']']
  | x :: xs => ',' :: (chars x ++ moreItems xs)

/-- The members of an object after the first one, up to the closing brace. -/
def moreMembers : List (String × Json) → List Char
  | [] => ['\x7d']
  | (key, value) :: rest => ',' :: (quoted key ++ ':' :: (chars value ++ moreMembers rest))

end

/-- The compact text of a tree. -/
def text (tree : Json) : String := String.ofList (chars tree)

/-! ## Indented text -/

/-- A new line with two blanks for each level of nesting. -/
def newline (level : Nat) : String := "\n" ++ String.ofList (List.replicate (2 * level) ' ')

mutual

/-- The indented text of a tree at a level of nesting. -/
def pretty (level : Nat) : Json → String
  | arr [] => "[]"
  | obj [] => "\x7b\x7d"
  | arr (x :: xs) =>
    let sep := newline (level + 1)
    "[" ++ sep ++ ("," ++ sep).intercalate (prettyItems (level + 1) (x :: xs)) ++ newline level ++
      "]"
  | obj (m :: ms) =>
    let sep := newline (level + 1)
    "\x7b" ++ sep ++ ("," ++ sep).intercalate (prettyMembers (level + 1) (m :: ms)) ++
      newline level ++
      "\x7d"
  | null => "null"
  | bool b => if b then "true" else "false"
  | num n => n.text
  | str s => quote s

/-- The indented texts of the items of a list. -/
def prettyItems (level : Nat) : List Json → List String
  | [] => []
  | x :: xs => pretty level x :: prettyItems level xs

/-- The indented texts of the members of an object. -/
def prettyMembers (level : Nat) : List (String × Json) → List String
  | [] => []
  | (key, value) :: rest => (quote key ++ ": " ++ pretty level value) :: prettyMembers level rest

end

end Json
end RecordQuery
