import RecordQuery.Text.CaseTable

/-!
# Simple case folding

Two characters are the same letter, whatever their case, when simple case folding sends both to the
same code point. The folding keeps lengths: `ß` folds with `ẞ`, not with `SS`.
-/
namespace RecordQuery.Text

/-- The simple case folding of a character. -/
def fold (c : Char) : Char :=
  if c.toNat < 128 then c.toLower else Char.ofNat (applyRuns foldRuns c.toNat)

/-- Whether two characters are equal but for case. -/
def sameLetter (c d : Char) : Bool := fold c == fold d

theorem sameLetter_iff {c d : Char} : sameLetter c d = true ↔ fold c = fold d := by
  simp [sameLetter]

end RecordQuery.Text
