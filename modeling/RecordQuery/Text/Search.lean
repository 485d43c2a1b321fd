/-!
# Searching and replacing

Substrings of a text, and the replacement of each of their occurrences, taken from the left and
without overlap.
-/
namespace RecordQuery.Text

/-- Whether `needle` occurs in `text`. -/
def hasInfix (needle : List Char) : List Char → Bool
  | [] => needle.isEmpty
  | c :: rest => needle.isPrefixOf (c :: rest) || hasInfix needle rest

/-- Replaces each occurrence of a non-empty `needle`, after passing over `skip` characters of the
occurrence that was just replaced. -/
def replaceFrom (needle replacement : List Char) : Nat → List Char → List Char
  | _, [] => []
  | skip + 1, _ :: rest => replaceFrom needle replacement skip rest
  | 0, c :: rest =>
    if needle.isPrefixOf (c :: rest) then
      replacement ++ replaceFrom needle replacement (needle.length - 1) rest
    else c :: replaceFrom needle replacement 0 rest

/-- Replaces each occurrence of `needle`; the empty needle occurs before each character and at the
end. -/
def replace (needle replacement text : List Char) : List Char :=
  if needle.isEmpty then text.foldr (fun c rest => replacement ++ c :: rest) replacement
  else replaceFrom needle replacement 0 text

end RecordQuery.Text
