import RecordQuery.Functions.Arguments
import RecordQuery.Text.Case
import RecordQuery.Text.Search

/-!
# Functions on texts

Positions and lengths count code points, and positions start at 1.
-/
namespace RecordQuery.Functions

/-- All arguments one after another; nulls are left out. -/
def concat (args : List Json) : Outcome Json :=
  if args.isEmpty then .error (.noArgument "CONCAT")
  else .ok (.str (String.join (args.map Json.toText)))

/-- The characters of a text from a position on; positions before the text are its beginning. -/
def dropTo (start : Number) (cs : List Char) : List Char := cs.drop (start.truncated - 1).toNat

/-- Part of a text from a position on, of a given length or up to the end. -/
def substring (name : String) : List Json → Outcome Json
  | [.null, _] => .ok .null
  | [.null, _, _] => .ok .null
  | [text, start] => do
    let s ← stringArg name 1 text
    let start ← numberArg name 2 start
    return .str (String.ofList (dropTo start s.toList))
  | [text, start, length] => do
    let s ← stringArg name 1 text
    let start ← numberArg name 2 start
    let length ← numberArg name 3 length
    if length.scaled < 0 then .error .negativeLength
    else return .str (String.ofList ((dropTo start s.toList).take length.truncated.toNat))
  | args => .error (.arityRange name 2 3 args.length)

/-- A function from text to text; null stays null. -/
def onText (name : String) (f : String → String) (args : List Json) : Outcome Json := do
  match ← one name args with
  | .null => return .null
  | text => return .str (f (← stringArg name 1 text))

/-- The number of characters of a text or of items of a list. -/
def length (args : List Json) : Outcome Json := do
  match ← one "LENGTH" args with
  | .null => return .null
  | .str s => return .ofNat s.toList.length
  | .arr items => return .ofNat items.length
  | other => .error (.argument "LENGTH" 1 "a string or array" other.kind)

/-- A text with each occurrence of a second one replaced by a third. -/
def replace : List Json → Outcome Json
  | [.null, _, _] => .ok .null
  | [text, search, replacement] => do
    let s ← stringArg "REPLACE" 1 text
    let search ← stringArg "REPLACE" 2 search
    let replacement ← stringArg "REPLACE" 3 replacement
    return .str (String.ofList (Text.replace search.toList replacement.toList s.toList))
  | args => .error (.arity "REPLACE" 3 args.length)

/-- A test of a text for a second one; null if either is. -/
def testText (name : String) (test : (needle text : List Char) → Bool) (args : List Json) :
    Outcome Json := do
  match ← two name args with
  | (.null, _) => return .null
  | (_, .null) => return .null
  | (text, needle) =>
    let s ← stringArg name 1 text
    let needle ← stringArg name 2 needle
    return .bool (test needle.toList s.toList)

end RecordQuery.Functions
