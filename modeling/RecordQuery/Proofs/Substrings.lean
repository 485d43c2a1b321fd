import RecordQuery.Functions.Call
import RecordQuery.Proofs.EqualKeys

/-!
Cutting texts by positions. `SUBSTRING` takes the characters of a text at a run of positions that
start at 1 (`filter_zipIdx`), whichever way the numbers are written (`Number.Denotes`). Hence its
parts make up the text again, a part of a part is a part, and a start before the text is its
beginning (`substring_by_positions`).
-/
namespace RecordQuery

/-! ### Numbers of characters -/

namespace Number

/-- A number is `i`, written as an integer or as a double. -/
def Denotes (n : Number) (i : ℕ) : Prop :=
  n = .int i ∨ ∃ x, n = .float x ∧ Decimal.integer? x = some (i : ℤ)

section
variable {n : Number} {i : ℕ}

theorem Denotes.scaled (denotes : n.Denotes i) (small : i < 2 ^ 53) :
    n.scaled = i * Decimal.unit := by
  rcases denotes with rfl | ⟨x, rfl, whole⟩
  · rw [scaled_int, rounded_of_lt (by omega)]
  · rw [Number.scaled, Decimal.scaled?_of_integer? whole, Option.getD_some]

theorem Denotes.truncated (denotes : n.Denotes i) (small : i < 2 ^ 53) : n.truncated = i := by
  rw [Number.truncated, denotes.scaled small, Int.mul_tdiv_cancel _ Decimal.unit_pos.ne']

theorem denotes_one : (int 1).Denotes 1 := .inl rfl

/-- A number below 1 is not above 0 without its fraction. -/
theorem truncated_of_lt (early : n.order (.int 1) = .lt) : n.truncated ≤ 0 := by
  have positive := Decimal.unit_pos
  have one : (int 1).scaled = Decimal.unit :=
    (denotes_one.scaled (by decide)).trans (Int.one_mul _)
  rw [order, one, Int.compare_eq_lt] at early
  calc n.truncated ≤ (Decimal.unit - 1 : ℤ).tdiv Decimal.unit :=
        Int.tdiv_le_tdiv positive (by omega)
    _ = 0 := Int.tdiv_eq_zero_of_lt (by omega) (by omega)

end
end Number

namespace Functions

open Calendar (Instant)

/-! ### Positions -/

/-- The members of a list at the positions of an interval, if its first one is at `first`. -/
theorem filter_zipIdx (low high : ℕ) (cs : List Char) (first : ℕ) :
    ((cs.zipIdx first).filter fun p => low ≤ p.2 ∧ p.2 < high).map Prod.fst =
      (cs.take (high - first)).drop (low - first) := by
  induction cs generalizing first with
  | nil => simp
  | cons c cs ih =>
    rw [List.zipIdx_cons, List.filter_cons]
    rcases Nat.lt_or_ge first high with before | past
    · rw [show high - first = high - (first + 1) + 1 by omega, List.take_succ_cons]
      rcases Nat.lt_or_ge first low with early | reached
      · rw [if_neg (by simp; omega), ih, show low - first = low - (first + 1) + 1 by omega,
          List.drop_succ_cons]
      · rw [if_pos (by simp; omega), List.map_cons, ih, Nat.sub_eq_zero_of_le reached,
          Nat.sub_eq_zero_of_le (by omega), List.drop_zero, List.drop_zero]
    · rw [if_neg (by simp; omega), ih, Nat.sub_eq_zero_of_le (Nat.le_succ_of_le past),
        Nat.sub_eq_zero_of_le past, List.take_zero, List.take_zero, List.drop_nil, List.drop_nil]

/-- The characters at the `n` positions from `i` on. -/
theorem filter_positions {i : ℕ} (counted : 1 ≤ i) (n : ℕ) (cs : List Char) :
    ((cs.zipIdx 1).filter fun p => i ≤ p.2 ∧ p.2 < i + n).map Prod.fst =
      (cs.drop (i - 1)).take n := by
  rw [filter_zipIdx, List.drop_take]
  congr 1
  omega

/-! ### Parts of texts -/

/-- The name of the function that cuts texts, in upper case. -/
def CutsTexts (name : String) : Prop := name = "SUBSTRING" ∨ name = "SUBSTR"

section
variable {start length : Number} {i n : ℕ}

theorem dropTo_eq (denotes : start.Denotes i) (small : i < 2 ^ 53) (cs : List Char) :
    dropTo start cs = cs.drop (i - 1) := by
  rw [dropTo, denotes.truncated small]
  congr 1
  omega

/-- A start before the text is its beginning. -/
theorem dropTo_of_lt (early : start.order (.int 1) = .lt) : dropTo start = dropTo (.int 1) := by
  funext cs
  have before := Number.truncated_of_lt early
  rw [dropTo, Int.toNat_of_nonpos (by omega), dropTo_eq Number.denotes_one (by decide)]

/-- The start matters only for what is left out. -/
theorem substring_congr (name : String) {other : Number} (same : dropTo start = dropTo other)
    (text : Json) (others : List Json) :
    substring name (text :: .num start :: others) =
      substring name (text :: .num other :: others) := by
  cases text <;> rcases others with - | ⟨size, - | others⟩ <;>
    simp only [substring, stringArg, numberArg, bind, Except.bind, same]
  all_goals rfl

variable (now : Instant) {name : String} (named : CutsTexts (Text.upper name)) (s : String)
include named

theorem call_substring (args : List Json) :
    call now name args = substring (Text.upper name) args := by
  rw [call]
  rcases named with upper | upper <;> rw [upper] <;> rfl

/-- The rest of a text from a position on. -/
theorem call_from (denotes : start.Denotes i) (small : i < 2 ^ 53) :
    call now name [.str s, .num start] = .ok (.str (String.ofList (s.toList.drop (i - 1)))) := by
  rw [call_substring now named, ← dropTo_eq denotes small]
  rfl

/-- A part of a text with a given length. -/
theorem call_within (denotes : start.Denotes i) (small : i < 2 ^ 53) (size : length.Denotes n)
    (bounded : n < 2 ^ 53) : call now name [.str s, .num start, .num length] =
      .ok (.str (String.ofList ((s.toList.drop (i - 1)).take n))) := by
  have natural : ¬length.scaled < 0 := by
    rw [size.scaled bounded]
    exact not_lt.mpr (Int.mul_nonneg (Int.natCast_nonneg n) Decimal.unit_pos.le)
  simp only [call_substring now named, substring, stringArg, numberArg, bind, Except.bind,
    if_neg natural, dropTo_eq denotes small, size.truncated bounded, Int.toNat_natCast]
  rfl

end

theorem call_length (now : Instant) {length : String} (counts : Text.upper length = "LENGTH")
    (s : String) : call now length [.str s] = .ok (.ofNat s.toList.length) := by
  rw [call, counts]
  rfl

theorem call_concat (now : Instant) {concat : String} (joins : Text.upper concat = "CONCAT")
    (s t : String) : call now concat [.str s, .str t] = .ok (.str (s ++ t)) := by
  have joined : String.join [s, t] = s ++ t := by
    rw [String.join_cons, String.join_cons, String.join_nil, String.append_empty]
  rw [call, joins, ← joined]
  rfl

/-! ### Laws -/

/-- Cutting goes by the positions of characters, for all numbers below `2 ^ 53`. The first `k`
characters and the rest make up the text. A part is made of the characters at its positions, as many
as the text has there. The rest of the rest is a rest. A start below 1 is as good as 1, whatever else
the call is given. Functions are called by their names in any case. -/
theorem substring_by_positions (now : Instant) {name concat length : String}
    (cuts : CutsTexts (Text.upper name)) (joins : Text.upper concat = "CONCAT")
    (counts : Text.upper length = "LENGTH") (s : String) :
    (∀ {start size next : Number} {k : ℕ}, start.Denotes 1 → size.Denotes k →
      next.Denotes (k + 1) → k + 1 < 2 ^ 53 →
      (do let front ← call now name [.str s, .num start, .num size]
          let back ← call now name [.str s, .num next]
          call now concat [front, back]) = .ok (.str s)) ∧
    (∀ {start size : Number} {i n : ℕ}, start.Denotes i → size.Denotes n → 1 ≤ i →
      i + n < 2 ^ 53 → ∃ part : String, ∃ m : ℕ,
        call now name [.str s, .num start, .num size] = .ok (.str part) ∧
        part.toList =
          ((s.toList.zipIdx 1).filter fun p => i ≤ p.2 ∧ p.2 < i + n).map Prod.fst ∧
        call now length [.str s] = .ok (.ofNat m) ∧
        call now length [.str part] = .ok (.ofNat (min n (m - (i - 1))))) ∧
    (∀ {first second both : Number} {i j : ℕ}, first.Denotes i → second.Denotes j →
      both.Denotes (i + j - 1) → 1 ≤ i → 1 ≤ j → i + j < 2 ^ 53 → ∃ rest : String,
        call now name [.str s, .num both] = .ok (.str rest) ∧
        (do let inner ← call now name [.str s, .num first]
            call now name [inner, .num second]) = .ok (.str rest)) ∧
    ∀ {start : Number}, start.order (.int 1) = .lt → ∀ (text : Json) (others : List Json),
      call now name (text :: .num start :: others) =
        call now name (text :: .ofInt 1 :: others) := by
  refine ⟨?_, ?_, ?_, ?_⟩
  · intro start size next k atOne sized after small
    rw [call_within now cuts s atOne (by decide) sized (by omega),
      call_from now cuts s after small]
    refine (call_concat now joins _ _).trans ?_
    rw [← String.ofList_append, Nat.sub_self, List.drop_zero, Nat.add_sub_cancel,
      List.take_append_drop, String.ofList_toList]
  · intro start size i n begins sized counted small
    refine ⟨_, _, call_within now cuts s begins (by omega) sized (by omega), ?_,
      call_length now counts s, ?_⟩
    · rw [String.toList_ofList, filter_positions counted]
    · rw [call_length now counts, String.toList_ofList, List.length_take, List.length_drop]
  · intro first second both i j atFirst atSecond atBoth counted counted' small
    refine ⟨_, call_from now cuts s atBoth (by omega), ?_⟩
    rw [call_from now cuts s atFirst (by omega)]
    refine (call_from now cuts _ atSecond (by omega)).trans ?_
    rw [String.toList_ofList, List.drop_drop]
    congr 4
    omega
  · intro start early text others
    rw [call_substring now cuts, call_substring now cuts]
    exact substring_congr _ (dropTo_of_lt early) text others

theorem substring_by_positions_snowman :
    (Number.float (-0.5)).order (.int 1) = .lt ∧
    (do let front ← call ⟨0, 0, 0⟩ "substring" [.str "a☃bcd", .ofInt 1, .num (.float 2.0)]
        let back ← call ⟨0, 0, 0⟩ "substring" [.str "a☃bcd", .ofInt 3]
        call ⟨0, 0, 0⟩ "Concat" [front, back]) = .ok (.str "a☃bcd") ∧
    (∃ part : String, ∃ m : ℕ,
      call ⟨0, 0, 0⟩ "substring" [.str "a☃bcd", .num (.float 2.0), .ofInt 9] = .ok (.str part) ∧
      part.toList = ['☃', 'b', 'c', 'd'] ∧
      call ⟨0, 0, 0⟩ "LENGTH" [.str "a☃bcd"] = .ok (.ofNat m) ∧
      call ⟨0, 0, 0⟩ "LENGTH" [.str part] = .ok (.ofNat (min 9 (m - 1)))) ∧
    (∃ rest : String,
      call ⟨0, 0, 0⟩ "substring" [.str "a☃bcd", .ofInt 4] = .ok (.str rest) ∧
      (do let inner ← call ⟨0, 0, 0⟩ "substring" [.str "a☃bcd", .num (.float 2.0)]
          call ⟨0, 0, 0⟩ "substring" [inner, .ofInt 3]) = .ok (.str rest)) ∧
    call ⟨0, 0, 0⟩ "substring" [.str "a☃bcd", .num (.float (-0.5)), .ofInt 2] =
      call ⟨0, 0, 0⟩ "substring" [.str "a☃bcd", .ofInt 1, .ofInt 2] := by
  have names : Text.upper "substring" = "SUBSTRING" ∧ Text.upper "Concat" = "CONCAT" ∧
      Text.upper "LENGTH" = "LENGTH" := ⟨rfl, rfl, rfl⟩
  have early : (Number.float (-0.5)).order (.int 1) = .lt := by decide +kernel
  have two : (Number.float 2.0).Denotes 2 := .inr ⟨2.0, rfl, by decide +kernel⟩
  obtain ⟨whole, positions, rests, start⟩ :=
    substring_by_positions ⟨0, 0, 0⟩ (.inl names.1) names.2.1 names.2.2 "a☃bcd"
  refine ⟨early, whole Number.denotes_one two (.inl rfl) (by decide), ?_,
    rests two (.inl rfl) (.inl rfl) (by decide) (by decide) (by decide), start early _ _⟩
  obtain ⟨part, m, cut, characters, length, size⟩ :=
    positions two (.inl rfl : (Number.int 9).Denotes 9) (by decide) (by decide)
  exact ⟨part, m, cut, characters.trans (by decide +kernel), length, size⟩

end Functions
end RecordQuery
