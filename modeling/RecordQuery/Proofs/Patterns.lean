import RecordQuery.Expr.Eval
import Mathlib.Data.List.Forall2

/-!
Which texts a LIKE pattern accepts. A text matches a regular expression if it can be cut into
pieces, one for each part (`Regex.Matches`), and the rows of the matcher decide that
(`Regex.accepts_iff`). The regular expression of a pattern is read back as one part for each
character, whatever characters the pattern has (`Like.read?_regex`). What is kept for a pattern was
compiled from it (`Like.Cache.Compiled`), so that earlier calls do not show (`Like.like_exact`).
-/
namespace RecordQuery

/-! ### Cutting texts -/

section
variable {α β : Type} {stands : α → List β → Prop}

/-- A text can be cut into consecutive pieces, one for each item of a list. -/
def CutInto (stands : α → List β → Prop) (items : List α) (text : List β) : Prop :=
  ∃ pieces, List.Forall₂ stands items pieces ∧ pieces.flatten = text

theorem cutInto_nil {text : List β} : CutInto stands [] text ↔ text = [] := by
  constructor
  · rintro ⟨pieces, each, rfl⟩
    cases each
    rfl
  · rintro rfl
    exact ⟨[], .nil, rfl⟩

theorem cutInto_cons {a : α} {items : List α} {text : List β} : CutInto stands (a :: items) text ↔
    ∃ piece rest, piece ++ rest = text ∧ stands a piece ∧ CutInto stands items rest := by
  constructor
  · rintro ⟨pieces, each, rfl⟩
    cases each with
    | cons first others => exact ⟨_, _, rfl, first, _, others, rfl⟩
  · rintro ⟨piece, rest, rfl, first, pieces, others, rfl⟩
    exact ⟨piece :: pieces, .cons first others, rfl⟩

theorem cutInto_map {γ : Type} {stands' : γ → List β → Prop} {f : γ → α}
    (same : ∀ c piece, stands (f c) piece ↔ stands' c piece) {items : List γ} {text : List β} :
    CutInto stands (items.map f) text ↔ CutInto stands' items text := by
  simp only [CutInto, List.forall₂_map_left_iff, same]

end

/-! ### Regular expressions -/

namespace Regex

/-- What a part stands for. -/
def Part.Stands : Part → List Char → Prop
  | letter p, piece => ∃ c, piece = [c] ∧ Text.fold p = Text.fold c
  | any, piece => ∃ c, piece = [c]
  | run, _ => True

/-- A whole text matches the parts, one after another. -/
def Matches (parts : List Part) (text : List Char) : Prop := CutInto Part.Stands parts text

section
variable (part : Part) (parts : List Part)

theorem rows_part (text : List Char) :
    rows (part :: parts) text = stepRow text part (rows parts text) := rfl

theorem rows_nil : rows parts [] = [accepts parts []] := by
  induction parts with
  | nil => rfl
  | cons part parts ih =>
    rw [accepts, rows_part, ih]
    cases part <;> simp [stepRow, charRow, runRow]

/-- The row of a text goes on with the row of the next suffix. -/
theorem rows_cons (c : Char) (text : List Char) :
    rows parts (c :: text) = accepts parts (c :: text) :: rows parts text := by
  induction parts with
  | nil => rfl
  | cons part parts ih =>
    rw [accepts, rows_part, rows_part, ih]
    cases part <;> rfl

/-- What a part that is one character tests it for. -/
def Part.fits? : Part → Option (Char → Bool)
  | letter p => some (Text.sameLetter p)
  | any => some fun _ => true
  | run => none

theorem accepts_run_nil : accepts (.run :: parts) [] = accepts parts [] := by
  rw [accepts, rows_part, rows_nil]
  simp [stepRow, runRow]

theorem accepts_run_cons (c : Char) (text : List Char) : accepts (.run :: parts) (c :: text) =
    (accepts parts (c :: text) || accepts (.run :: parts) text) := by
  rw [accepts, rows_part, rows_cons]
  rfl

variable {part} {fits : Char → Bool} (single : part.fits? = some fits)
include single

theorem accepts_single_nil : accepts (part :: parts) [] = false := by
  cases part with
  | letter p => rfl
  | any => rfl
  | run => cases single

theorem accepts_single_cons (c : Char) (text : List Char) :
    accepts (part :: parts) (c :: text) = (fits c && accepts parts text) := by
  rw [accepts, rows_part, rows_cons]
  cases part with
  | letter p => obtain rfl := Option.some.inj single; rfl
  | any => obtain rfl := Option.some.inj single; rfl
  | run => cases single

theorem stands_single_iff (piece : List Char) :
    part.Stands piece ↔ ∃ c, piece = [c] ∧ fits c = true := by
  cases part with
  | letter p =>
    obtain rfl := Option.some.inj single
    simp only [Part.Stands, Text.sameLetter_iff]
  | any =>
    obtain rfl := Option.some.inj single
    simp [Part.Stands]
  | run => cases single

end

theorem matches_single_cons {part : Part} {fits : Char → Bool} (single : part.fits? = some fits)
    {parts : List Part} {text : List Char} : Matches (part :: parts) text ↔
      ∃ c rest, text = c :: rest ∧ fits c = true ∧ Matches parts rest := by
  rw [Matches, cutInto_cons]
  simp only [stands_single_iff single]
  constructor
  · rintro ⟨_, rest, rfl, ⟨c, rfl, fit⟩, others⟩
    exact ⟨c, rest, rfl, fit, others⟩
  · rintro ⟨c, rest, rfl, fit, others⟩
    exact ⟨[c], rest, rfl, ⟨c, rfl, fit⟩, others⟩

theorem matches_run_cons {parts : List Part} {text : List Char} : Matches (.run :: parts) text ↔
    ∃ piece rest, piece ++ rest = text ∧ Matches parts rest := by
  rw [Matches, cutInto_cons]
  simp only [Part.Stands, true_and, Matches]

/-- The matcher accepts the texts that match. -/
theorem accepts_iff (parts : List Part) :
    ∀ text, accepts parts text = true ↔ Matches parts text := by
  induction parts with
  | nil =>
    intro text
    rw [Matches, cutInto_nil]
    cases text with
    | nil => exact iff_of_true rfl rfl
    | cons c text => exact iff_of_false Bool.false_ne_true (List.cons_ne_nil c text)
  | cons part parts ih =>
    intro text
    cases single : part.fits? with
    | some fits =>
      rw [matches_single_cons single]
      cases text with
      | nil => simp [accepts_single_nil parts single]
      | cons c text =>
        rw [accepts_single_cons parts single, Bool.and_eq_true, ih]
        simp
    | none =>
      obtain rfl : part = .run := by
        cases part <;> first | rfl | cases single
      rw [matches_run_cons]
      -- A run takes nothing, or the first character and then a run of the rest.
      induction text with
      | nil => simp [accepts_run_nil, ih]
      | cons c text later =>
        rw [accepts_run_cons, Bool.or_eq_true, ih, later]
        constructor
        · rintro (now | ⟨piece, rest, rfl, others⟩)
          · exact ⟨[], c :: text, rfl, now⟩
          · exact ⟨c :: piece, rest, rfl, others⟩
        · rintro ⟨piece, rest, whole, others⟩
          cases piece with
          | nil => exact .inl (whole ▸ others)
          | cons d piece =>
            obtain ⟨rfl, rfl⟩ := List.cons.inj whole
            exact .inr ⟨piece, rest, rfl, others⟩

/-! ### Reading regular expressions -/

theorem readParts?_any {rest : List Char} (fresh : rest.head? ≠ some '*') :
    readParts? ('.' :: rest) = (readParts? rest).map (.any :: ·) := by
  rw [readParts?]
  rintro later rfl
  exact fresh rfl

theorem readParts?_escape (c : Char) (rest : List Char) :
    readParts? (escape c ++ rest) = (readParts? rest).map (.letter c :: ·) := by
  rw [escape]
  split
  case isTrue own =>
    rw [List.cons_append, List.cons_append, List.nil_append, readParts?, if_pos own]
  case isFalse plain =>
    have meaningless : ∀ d ∈ special, c ≠ d := by
      rintro d among rfl
      exact plain (List.contains_iff_mem.mpr among)
    have dollar := meaningless '$' (by decide)
    have dot := meaningless '.' (by decide)
    have backslash := meaningless '\\' (by decide)
    rw [List.cons_append, List.nil_append, readParts?, if_neg plain]
    · exact fun same _ => dollar same
    · exact fun _ same _ => dot same
    · exact dot
    · exact fun _ _ same _ => backslash same

theorem head?_escape (c : Char) (rest : List Char) : (escape c ++ rest).head? ≠ some '*' := by
  rw [escape]
  split
  case isTrue => simp
  case isFalse plain =>
    simp only [List.cons_append, List.head?_cons, ne_eq, Option.some.injEq]
    rintro rfl
    exact plain (by decide)

end Regex

/-! ### The regular expression of a pattern -/

namespace Like

/-- What a pattern character is read back as. -/
def part (p : Char) : Regex.Part :=
  if p = '%' then .run else if p = '_' then .any else .letter p

theorem head?_charRegex (p : Char) (rest : List Char) :
    (charRegex p ++ rest).head? ≠ some '*' := by
  rw [charRegex]
  split
  · simp
  · split
    · simp
    · exact Regex.head?_escape p rest

theorem readParts?_charRegex (p : Char) {rest : List Char} (fresh : rest.head? ≠ some '*') :
    Regex.readParts? (charRegex p ++ rest) = (Regex.readParts? rest).map (part p :: ·) := by
  rw [charRegex, part]
  split
  · rfl
  · split
    · exact Regex.readParts?_any fresh
    · exact Regex.readParts?_escape p rest

theorem readParts?_pattern (pattern : List Char) :
    Regex.readParts? (pattern.flatMap charRegex ++ Regex.closing) = some (pattern.map part) ∧
      (pattern.flatMap charRegex ++ Regex.closing).head? ≠ some '*' := by
  induction pattern with
  | nil => exact ⟨rfl, by decide⟩
  | cons p pattern ih =>
    rw [List.flatMap_cons, List.append_assoc]
    refine ⟨?_, head?_charRegex p _⟩
    rw [readParts?_charRegex p ih.2, ih.1, Option.map_some, List.map_cons]

/-- Each character of a pattern is read back as one part. -/
theorem read?_regex (pattern : String) :
    Regex.read? (regex pattern).toList = some (pattern.toList.map part) := by
  rw [regex, String.toList_ofList, List.append_assoc, Regex.read?, if_pos, List.drop_left]
  · exact (readParts?_pattern pattern.toList).1
  · exact List.isPrefixOf_iff_prefix.mpr (List.prefix_append ..)

/-! ### The texts that fit a pattern -/

/-- What a pattern character stands for: a percent sign for any run of characters, an underscore for
one character, and any other character for one that is the same letter. -/
def Stands (p : Char) (piece : List Char) : Prop :=
  if p = '%' then True
  else if p = '_' then ∃ c, piece = [c]
  else ∃ c, piece = [c] ∧ Text.fold p = Text.fold c

/-- A whole text can be cut into what the characters of a pattern stand for, in their order. -/
def Fits (pattern text : String) : Prop := CutInto Stands pattern.toList text.toList

theorem stands_part (p : Char) (piece : List Char) : (part p).Stands piece ↔ Stands p piece := by
  rw [part, Stands]
  split
  · exact Iff.rfl
  · split <;> exact Iff.rfl

theorem matches_iff_fits (pattern text : String) :
    Regex.Matches (pattern.toList.map part) text.toList ↔ Fits pattern text :=
  cutInto_map stands_part

instance (pattern text : String) : Decidable (Fits pattern text) :=
  decidable_of_iff _ ((Regex.accepts_iff _ _).trans (matches_iff_fits pattern text))

example : Fits "a%[_c" "A\n[bC" ∧ ¬Fits "a%[_c" "A\n[C" := by decide

/-! ### Earlier calls -/

section
variable {ρ : Type} {m : Matcher ρ}

/-- What is relied on: a regular expression that has parts compiles, and then matches the texts that
match the parts. -/
def Matcher.Lawful (m : Matcher ρ) : Prop :=
  ∀ {source : String} {parts : List Regex.Part}, Regex.read? source.toList = some parts →
    ∃ compiled, m.compile source = .ok compiled ∧
      ∀ text, m.isMatch compiled text = true ↔ Regex.Matches parts text.toList

theorem partMatcher_lawful : partMatcher.Lawful := by
  intro source parts readable
  refine ⟨parts, ?_, fun text => Regex.accepts_iff parts text.toList⟩
  simp only [partMatcher, readable]

/-- What a pattern compiles to, matched against a text, tells whether the text fits. -/
theorem isMatch_compiled (lawful : m.Lawful) {pattern : String} {compiled : ρ}
    (made : m.compile (regex pattern) = .ok compiled) (text : String) :
    m.isMatch compiled text = decide (Fits pattern text) := by
  obtain ⟨_, made', matches'⟩ := lawful (read?_regex pattern)
  obtain rfl := Except.ok.inj (made.symm.trans made')
  rw [Bool.eq_iff_iff, matches', matches_iff_fits, decide_eq_true_iff]

/-- What is kept for a pattern was compiled from it. -/
def Cache.Compiled (m : Matcher ρ) (cache : Cache ρ) : Prop :=
  ∀ entry ∈ cache, m.compile (regex entry.1) = .ok entry.2

theorem Cache.compiled_nil : Cache.Compiled m [] := fun _ member => absurd member List.not_mem_nil

theorem Cache.Compiled.use {cache after : Cache ρ} (kept : cache.Compiled m) {pattern : String}
    {compiled : ρ} (found : cache.use? pattern = some (compiled, after)) :
    m.compile (regex pattern) = .ok compiled ∧ after.Compiled m := by
  obtain ⟨entry, first, same⟩ := Option.map_eq_some_iff.mp found
  obtain ⟨rfl, rfl⟩ := Prod.mk.inj same
  have inside := List.mem_of_find?_eq_some first
  have named : entry.1 = pattern := by simpa using List.find?_some first
  refine ⟨named ▸ kept entry inside, fun other member => ?_⟩
  rcases List.mem_cons.mp member with rfl | member
  · exact kept _ inside
  · exact kept other (List.mem_of_mem_filter member)

theorem Cache.Compiled.keep {cache : Cache ρ} (kept : cache.Compiled m) {pattern : String}
    {compiled : ρ} (made : m.compile (regex pattern) = .ok compiled) :
    (cache.keep pattern compiled).Compiled m := by
  intro entry member
  rcases List.mem_cons.mp (List.mem_of_mem_take member) with rfl | member
  · exact made
  · exact kept entry (List.mem_of_mem_filter member)

/-- A call with a good cache answers by the texts that fit, and leaves a good cache. -/
theorem check_of_compiled (lawful : m.Lawful) {cache : Cache ρ} (kept : cache.Compiled m)
    (text pattern : String) (limit : Nat) :
    (m.check cache text pattern limit).1 =
        (if limit < pattern.length then .error (tooLong limit)
         else .ok (decide (Fits pattern text))) ∧
      (m.check cache text pattern limit).2.Compiled m := by
  obtain ⟨compiled, made, -⟩ := lawful (read?_regex pattern)
  rw [Matcher.check]
  split
  case isTrue => exact ⟨rfl, kept⟩
  case isFalse =>
    cases found : cache.use? pattern with
    | some entry =>
      obtain ⟨made, after⟩ := kept.use found
      exact ⟨congrArg Except.ok (isMatch_compiled lawful made text), after⟩
    | none =>
      simp only [made]
      exact ⟨congrArg Except.ok (isMatch_compiled lawful made text), kept.keep made⟩

/-- One call. -/
structure Call where
  text : String
  pattern : String
  limit : Nat

/-- What is kept after calls. -/
def Matcher.after (m : Matcher ρ) (calls : List Call) : Cache ρ :=
  calls.foldl (fun cache call => (m.check cache call.text call.pattern call.limit).2) []

theorem compiled_after (lawful : m.Lawful) (calls : List Call) : (m.after calls).Compiled m := by
  have fresh := Cache.compiled_nil (m := m)
  rw [Matcher.after]
  generalize ([] : Cache ρ) = cache at fresh ⊢
  induction calls generalizing cache with
  | nil => exact fresh
  | cons call calls ih => exact ih _ (check_of_compiled lawful fresh ..).2

end

/-! ### LIKE and its negation -/

/-- What a call answers. -/
theorem check_eq (text pattern : String) (limit : Nat) : check text pattern limit =
    if limit < pattern.length then .error (tooLong limit)
    else .ok (decide (Fits pattern text)) :=
  (check_of_compiled partMatcher_lawful Cache.compiled_nil text pattern limit).1

theorem evalComparison_like (scope : Scope) {a b : Json} (left : a.isNull = false)
    (right : b.isNull = false) (alike : a.kind = b.kind)
    (short : b.toText.length ≤ scope.maxPattern) :
    Expr.evalComparison scope .like a b = ⟨decide (Fits b.toText a.toText), []⟩ ∧
      Expr.evalComparison scope .notLike a b = ⟨!decide (Fits b.toText a.toText), []⟩ := by
  have answer := check_eq a.toText b.toText scope.maxPattern
  rw [if_neg (Nat.not_lt.mpr short)] at answer
  have other : (ComparisonOp.notLike == .like) = false := rfl
  constructor <;> simp [Expr.evalComparison, left, right, alike, answer, other]

theorem evalComparison_mixed (scope : Scope) (op : ComparisonOp) {a b : Json}
    (left : a.isNull = false) (right : b.isNull = false) (mixed : a.kind ≠ b.kind) :
    Expr.evalComparison scope op a b = .fault (.incomparable op a.kind b.kind) false := by
  simp [Expr.evalComparison, left, right, mixed]

/-- Whatever was asked before, a pattern is refused if and only if it is too long, and otherwise the
answer is whether the text fits it. In expressions, operands of one type that are not null get that
answer from LIKE and the opposite one from its negation; operands of two types cannot be compared,
which makes both false. -/
theorem like_exact {ρ : Type} {m : Matcher ρ} (lawful : m.Lawful) (calls : List Call) :
    (∀ text pattern limit,
      (m.check (m.after calls) text pattern limit).1 =
          (if limit < pattern.length then .error (tooLong limit)
           else .ok (decide (Fits pattern text))) ∧
        (m.check (m.after calls) text pattern limit).1 = check text pattern limit) ∧
      ∀ (scope : Scope) (a b : Json), a.isNull = false → b.isNull = false →
        b.toText.length ≤ scope.maxPattern →
        (a.kind = b.kind →
          Expr.evalComparison scope .like a b = ⟨decide (Fits b.toText a.toText), []⟩ ∧
          Expr.evalComparison scope .notLike a b = ⟨!decide (Fits b.toText a.toText), []⟩) ∧
        (a.kind ≠ b.kind → ∀ op,
          Expr.evalComparison scope op a b = .fault (.incomparable op a.kind b.kind) false) := by
  refine ⟨fun text pattern limit => ?_, fun scope a b left right short => ⟨fun alike => ?_, ?_⟩⟩
  · have answer := (check_of_compiled lawful (compiled_after lawful calls) text pattern limit).1
    exact ⟨answer, answer.trans (check_eq text pattern limit).symm⟩
  · exact evalComparison_like scope left right alike short
  · exact fun mixed op => evalComparison_mixed scope op left right mixed

/-- A scope of no types. -/
def bareScope : Scope := { schema := .ofTypes [], now := ⟨0, 0, 0⟩ }

theorem like_exact_partMatcher : partMatcher.Lawful ∧
    (partMatcher.check (partMatcher.after [⟨"up", "X%_", 3⟩, ⟨"up", "50%", 2⟩]) "x\ny" "X%_" 3).1 =
      .ok true ∧
    Expr.evalComparison bareScope .notLike (.str "(a.") (.str "_A%") = ⟨false, []⟩ := by
  obtain ⟨answers, operators⟩ :=
    like_exact partMatcher_lawful [⟨"up", "X%_", 3⟩, ⟨"up", "50%", 2⟩]
  refine ⟨partMatcher_lawful, ?_, ?_⟩
  · rw [(answers _ _ _).1]
    decide
  · have fits : Fits "_A%" "(a." := by decide
    rw [((operators bareScope (.str "(a.") (.str "_A%") rfl rfl (by decide)).1 rfl).2]
    simp only [Json.toText, fits, decide_true, Bool.not_true]

/-- A number and a text: neither LIKE nor its negation holds. -/
theorem notLike_mixed :
    ∃ a b : Json, a.isNull = false ∧ b.isNull = false ∧ b.toText.length ≤ bareScope.maxPattern ∧
      (Expr.evalComparison bareScope .notLike a b).value ≠
        !(Expr.evalComparison bareScope .like a b).value :=
  ⟨.ofNat 1, .str "a", rfl, rfl, by decide, by decide⟩

end Like
end RecordQuery
