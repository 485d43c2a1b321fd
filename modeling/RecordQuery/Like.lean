import RecordQuery.Text.Regex

/-!
# LIKE patterns

In a pattern `%` stands for any run of characters, `_` for any one character, and each other
character for itself in either case. A pattern is matched as a regular expression, which is compiled
once and kept for later calls.
-/
namespace RecordQuery.Like

/-! ## As a regular expression -/

/-- The regular expression of one pattern character. -/
def charRegex (p : Char) : List Char :=
  if p = '%' then ['.', '*']
  else if p = '_' then ['.']
  else Regex.escape p

/-- An equivalent regular expression that ignores case and lets the dot stand for line ends too. -/
def regex (pattern : String) : String :=
  String.ofList (Regex.opening ++ pattern.toList.flatMap charRegex ++ Regex.closing)

/-! ## Compiled patterns -/

/-- How regular expressions are compiled, unless there is something against it, and matched. -/
structure Matcher (ρ : Type) where
  compile : String → Except String ρ
  isMatch : ρ → String → Bool

/-- Matches the parts of a regular expression as they are read. -/
def partMatcher : Matcher (List Regex.Part) where
  compile source :=
    match Regex.read? source.toList with
    | some parts => .ok parts
    | none => .error "regular expression not understood"
  isMatch parts text := Regex.accepts parts text.toList

/-- The patterns that have been compiled, the one used last in front. -/
abbrev Cache (ρ : Type) := List (String × ρ)

/-- How many compiled patterns are kept. -/
def cacheSize : Nat := 256

section
variable {ρ : Type}

/-- What is kept for a pattern, and the cache with that in front. -/
def Cache.use? (cache : Cache ρ) (pattern : String) : Option (ρ × Cache ρ) :=
  (cache.find? (·.1 == pattern)).map fun entry => (entry.2, entry :: cache.filter (·.1 != pattern))

/-- Keeps a compiled pattern; where there are too many, the one whose last use is the longest ago is
dropped. -/
def Cache.keep (cache : Cache ρ) (pattern : String) (compiled : ρ) : Cache ρ :=
  ((pattern, compiled) :: cache.filter (·.1 != pattern)).take cacheSize

/-! ## Matching -/

/-- Why a pattern is refused. -/
def tooLong (limit : Nat) : String := "LIKE pattern too long (max " ++ toString limit ++ " chars)"

/-- Whether a pattern of at most `limit` characters matches a text, and the patterns kept after
that. -/
def Matcher.check (m : Matcher ρ) (cache : Cache ρ) (text pattern : String) (limit : Nat) :
    Except String Bool × Cache ρ :=
  if limit < pattern.length then (.error (tooLong limit), cache)
  else
    match cache.use? pattern with
    | some (compiled, cache) => (.ok (m.isMatch compiled text), cache)
    | none =>
      match m.compile (regex pattern) with
      | .error message => (.error message, cache)
      | .ok compiled => (.ok (m.isMatch compiled text), cache.keep pattern compiled)

end

/-- Whether a pattern of at most `limit` characters matches a text. -/
def check (text pattern : String) (limit : Nat) : Except String Bool :=
  (partMatcher.check [] text pattern limit).1

end RecordQuery.Like
