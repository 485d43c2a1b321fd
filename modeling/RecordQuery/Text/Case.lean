import RecordQuery.Text.CaseTable

/-!
# Upper and lower case

Full case conversion of text: one letter may become several, and a capital sigma becomes the final
form at the end of a word. Names of tables, columns and functions are compared in lower case.
-/
namespace RecordQuery.Text

/-- The lower-case form of one letter, outside any word. -/
def lowerChar (c : Char) : List Char :=
  if c.toNat < 128 then [c.toLower]
  else if c = 'İ' then ['i', '\u0307']
  else [Char.ofNat (applyRuns lowerRuns c.toNat)]

/-- The upper-case form of one letter. -/
def upperChar (c : Char) : List Char :=
  if c.toNat < 128 then [c.toUpper]
  else match upperExpansions.lookup c.toNat with
    | some codes => codes.map Char.ofNat
    | none => [Char.ofNat (applyRuns upperRuns c.toNat)]

/-! ## The final sigma -/

/-- Whether the first character that case rules do not skip is a cased one. -/
def startsCased (cs : List Char) : Bool :=
  match cs.dropWhile (inRanges caseIgnorableRanges ·.toNat) with
  | [] => false
  | c :: _ => inRanges casedRanges c.toNat

/-- The lower-case sigma between the text before it, nearest first, and the text after it: final
after a cased letter unless another one follows. -/
def sigmaBetween (before after : List Char) : Char :=
  if startsCased before && !startsCased after then 'ς' else 'σ'

/-! ## Whole texts -/

/-- Lower case of the characters that follow `before`, which is given nearest first. -/
def lowerAfter (before : List Char) : List Char → List Char
  | [] => []
  | c :: rest =>
    (if c = 'Σ' then [sigmaBetween before rest] else lowerChar c) ++ lowerAfter (c :: before) rest

/-- The lower-case form of a text. -/
def lower (s : String) : String := String.ofList (lowerAfter [] s.toList)

/-- The upper-case form of a text. -/
def upper (s : String) : String := String.ofList (s.toList.flatMap upperChar)

end RecordQuery.Text
