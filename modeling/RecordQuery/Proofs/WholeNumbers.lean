import RecordQuery.Proofs.Sorting
import Mathlib.Algebra.Order.Ring.Int

/-!
How integers are compared. An integer is compared as a double sees it, rounded to 53 significant
bits (`Number.rounded`). No such integer is nearer (`Decimal.roundSignificand_nearest`), and
rounding keeps the order of integers (`Decimal.roundSignificand_mono`), so that only large integers
that are close are taken for one another. Whatever compares integers that are apart in that sense
compares them exactly (`Number.integers_compared`).
-/
namespace RecordQuery

/-! ### Rounding -/

namespace Decimal

theorem unit_pos : (0 : ℤ) < unit := by decide +kernel

/-- How far apart the whole numbers with 53 significant bits are that have as many bits as `n`. -/
def spacing (n : ℕ) : ℕ := 2 ^ (n.log2 - 52)

/-- Whether `n` is rounded up to a multiple of its spacing. -/
def roundsUp (n : ℕ) : Bool :=
  let rest := 2 * (n % spacing n)
  rest > spacing n || (rest == spacing n && n / spacing n % 2 == 1)

theorem spacing_pos (n : ℕ) : 0 < spacing n := Nat.two_pow_pos _

theorem roundSignificand_eq (n : ℕ) :
    roundSignificand n = (n / spacing n + (roundsUp n).toNat) * spacing n := by
  have same : roundSignificand n =
      (if roundsUp n then n / spacing n + 1 else n / spacing n) * spacing n := rfl
  rw [same]
  cases roundsUp n <;> rfl

theorem roundsUp_iff (n : ℕ) : roundsUp n = true ↔
    spacing n < 2 * (n % spacing n) ∨ 2 * (n % spacing n) = spacing n ∧ n / spacing n % 2 = 1 := by
  simp [roundsUp]

/-- Rounding goes to the nearer one of the multiples of the spacing around a number. -/
theorem roundSignificand_error (n : ℕ) :
    ((roundSignificand n : ℤ) - n).natAbs ≤ n % spacing n ∧
      ((roundSignificand n : ℤ) - n).natAbs ≤ spacing n - n % spacing n := by
  have split := Nat.div_add_mod n (spacing n)
  have bound := Nat.mod_lt n (spacing_pos n)
  have up := roundsUp_iff n
  rw [roundSignificand_eq, Nat.add_mul, Nat.mul_comm (n / spacing n)]
  cases rounded : roundsUp n with
  | true =>
    have reaches := up.mp rounded
    rw [Bool.toNat_true, Nat.one_mul]
    omega
  | false =>
    have misses := mt up.mpr (ne_true_of_eq_false rounded)
    rw [Bool.toNat_false, Nat.zero_mul]
    omega

theorem spacing_of_lt {n : ℕ} (small : n < 2 ^ 53) : spacing n = 1 := by
  rcases Nat.eq_zero_or_pos n with rfl | positive
  · rfl
  · have bits : n.log2 < 53 := (Nat.log2_lt positive.ne').mpr small
    rw [spacing, Nat.sub_eq_zero_of_le (by omega), Nat.pow_zero]

/-- A number that is a multiple of its spacing stays as it is. -/
theorem roundSignificand_of_dvd {n : ℕ} (multiple : spacing n ∣ n) : roundSignificand n = n := by
  have down : roundsUp n = false := by
    have positive := spacing_pos n
    rw [← Bool.not_eq_true, roundsUp_iff, Nat.mod_eq_zero_of_dvd multiple]
    omega
  rw [roundSignificand_eq, down, Bool.toNat_false, Nat.add_zero, Nat.div_mul_cancel multiple]

theorem roundSignificand_of_lt {n : ℕ} (small : n < 2 ^ 53) : roundSignificand n = n :=
  roundSignificand_of_dvd (spacing_of_lt small ▸ Nat.one_dvd n)

theorem two_pow_log2 {n : ℕ} (large : 2 ^ 53 ≤ n) : 2 ^ n.log2 = 2 ^ 52 * spacing n := by
  have bits : 53 ≤ n.log2 := (Nat.le_log2 (by omega)).mpr large
  rw [spacing, ← Nat.pow_add]
  congr 1
  omega

/-- Rounding does not leave the powers of two around a number. -/
theorem roundSignificand_bounds {n : ℕ} (positive : n ≠ 0) :
    2 ^ n.log2 ≤ roundSignificand n ∧ roundSignificand n ≤ 2 ^ (n.log2 + 1) := by
  have low := Nat.log2_self_le positive
  have high := Nat.lt_log2_self (n := n)
  rcases Nat.lt_or_ge n (2 ^ 53) with small | large
  · rw [roundSignificand_of_lt small]
    exact ⟨low, high.le⟩
  · have power := two_pow_log2 large
    have twice : 2 ^ (n.log2 + 1) = 2 ^ 53 * spacing n := by
      rw [Nat.pow_succ, power]
      omega
    have least : 2 ^ 52 ≤ n / spacing n := (Nat.le_div_iff_mul_le (spacing_pos n)).mpr (power ▸ low)
    have most : n / spacing n < 2 ^ 53 := Nat.div_lt_of_lt_mul (by rw [Nat.mul_comm]; omega)
    have step := Bool.toNat_le (roundsUp n)
    rw [roundSignificand_eq, power, twice]
    exact ⟨Nat.mul_le_mul_right _ (by omega), Nat.mul_le_mul_right _ (by omega)⟩

/-- A number of 53 significant bits is a multiple of its spacing. -/
theorem spacing_dvd {m : ℕ} (small : m < 2 ^ 53) (e : ℕ) : spacing (m * 2 ^ e) ∣ m * 2 ^ e := by
  rcases Nat.eq_zero_or_pos (m * 2 ^ e) with zero | positive
  · rw [zero]
    exact Nat.dvd_zero _
  · have bounded : m * 2 ^ e < 2 ^ (53 + e) := by
      rw [Nat.pow_add]
      exact Nat.mul_lt_mul_of_pos_right small (Nat.two_pow_pos e)
    have bits := (Nat.log2_lt positive.ne').mpr bounded
    have divides : spacing (m * 2 ^ e) ∣ 2 ^ e := Nat.pow_dvd_pow 2 (by omega)
    exact divides.trans (Nat.dvd_mul_left _ m)

/-- Rounding leaves 53 significant bits at most. -/
theorem roundSignificand_bits (n : ℕ) : ∃ m < 2 ^ 53, ∃ e, roundSignificand n = m * 2 ^ e := by
  rcases Nat.lt_or_ge n (2 ^ 53) with small | large
  · exact ⟨n, small, 0, by rw [roundSignificand_of_lt small, Nat.pow_zero, Nat.mul_one]⟩
  · have most := (roundSignificand_bounds (n := n) (by omega)).2
    rw [roundSignificand_eq, Nat.pow_succ, two_pow_log2 large, Nat.mul_right_comm] at most
    rw [roundSignificand_eq]
    rcases (Nat.le_of_mul_le_mul_right most (spacing_pos n)).lt_or_eq with fewer | full
    · exact ⟨_, fewer, _, rfl⟩
    · exact ⟨2 ^ 52, by decide, n.log2 - 52 + 1, by rw [full, spacing, Nat.pow_succ]; omega⟩

/-- Rounding is off by no more than any number of 53 significant bits is. -/
theorem roundSignificand_nearest {v : ℕ} (own : spacing v ∣ v) (n : ℕ) :
    ((roundSignificand n : ℤ) - n).natAbs ≤ ((v : ℤ) - n).natAbs := by
  have off := roundSignificand_error n
  have split := Nat.div_add_mod n (spacing n)
  rcases Nat.lt_or_ge v.log2 n.log2 with shorter | longer
  · -- A power of two lies between the two numbers, which is a multiple of the spacing.
    have positive : n ≠ 0 := by
      rintro rfl
      exact absurd shorter (Nat.not_lt_zero _)
    have below : v < 2 ^ n.log2 :=
      Nat.lt_log2_self.trans_le (Nat.pow_le_pow_right (by omega) shorter)
    obtain ⟨k, power⟩ : spacing n ∣ 2 ^ n.log2 := Nat.pow_dvd_pow 2 (by omega)
    have reaches : k ≤ n / spacing n := by
      rw [Nat.le_div_iff_mul_le (spacing_pos n), Nat.mul_comm, ← power]
      exact Nat.log2_self_le positive
    have before := Nat.mul_le_mul_left (spacing n) reaches
    omega
  · -- The number is a multiple of the spacing as well.
    have divides : spacing n ∣ v := (Nat.pow_dvd_pow 2 (by omega)).trans own
    obtain ⟨k, rfl⟩ := divides
    rcases Nat.lt_or_ge (n / spacing n) k with above | below
    · have next := Nat.mul_le_mul_left (spacing n) above
      rw [Nat.mul_succ] at next
      omega
    · have before := Nat.mul_le_mul_left (spacing n) below
      omega

theorem roundSignificand_mono {m n : ℕ} (le : m ≤ n) : roundSignificand m ≤ roundSignificand n := by
  rcases Nat.eq_zero_or_pos m with rfl | positive
  · exact Nat.zero_le _
  have shorter : m.log2 ≤ n.log2 := by
    rw [Nat.le_log2 (by omega)]
    exact (Nat.log2_self_le positive.ne').trans le
  rcases shorter.lt_or_eq with fewer | same
  · -- A power of two lies between the two numbers.
    calc roundSignificand m ≤ 2 ^ (m.log2 + 1) := (roundSignificand_bounds positive.ne').2
      _ ≤ 2 ^ n.log2 := Nat.pow_le_pow_right (by omega) fewer
      _ ≤ roundSignificand n := (roundSignificand_bounds (by omega)).1
  · -- Both are rounded to multiples of the same spacing.
    have grid : spacing m = spacing n := by rw [spacing, spacing, same]
    rw [roundSignificand_eq, roundSignificand_eq, grid]
    refine Nat.mul_le_mul_right _ ?_
    have floors : m / spacing n ≤ n / spacing n := Nat.div_le_div_right le
    have first := Bool.toNat_le (roundsUp m)
    rcases floors.lt_or_eq with less | level
    · omega
    · have rests : m % spacing n ≤ n % spacing n := by
        have whole := Nat.div_add_mod m (spacing n)
        have whole' := Nat.div_add_mod n (spacing n)
        rw [level] at whole
        omega
      have upward : roundsUp m = true → roundsUp n = true := by
        rw [roundsUp_iff, roundsUp_iff, grid, level]
        omega
      rw [level]
      exact Nat.add_le_add_left (Bool.toNat_le_toNat upward) _

end Decimal

/-! ### Integers as they are compared -/

namespace Number

/-- The integer that an integer is compared as: the nearest one with at most 53 significant bits. -/
def rounded (i : ℤ) : ℤ := i.sign * Decimal.roundSignificand i.natAbs

section
variable {i j : ℤ}

theorem scaled_int (i : ℤ) : (int i).scaled = rounded i * Decimal.unit := by
  rw [scaled, Decimal.scaledInt, rounded, Int.natCast_mul, Int.mul_assoc]

theorem rounded_natCast (n : ℕ) : rounded n = Decimal.roundSignificand n := by
  rcases Nat.eq_zero_or_pos n with rfl | positive
  · decide
  · rw [rounded, Int.sign_natCast_of_ne_zero positive.ne', Int.one_mul, Int.natAbs_natCast]

theorem rounded_neg (i : ℤ) : rounded (-i) = -rounded i := by
  rw [rounded, rounded, Int.sign_neg, Int.natAbs_neg, Int.neg_mul]

theorem rounded_mono (le : i ≤ j) : rounded i ≤ rounded j := by
  obtain ⟨m, rfl | rfl⟩ := i.eq_nat_or_neg <;> obtain ⟨n, rfl | rfl⟩ := j.eq_nat_or_neg <;>
    simp only [rounded_neg, rounded_natCast]
  · exact_mod_cast Decimal.roundSignificand_mono (by omega)
  · -- Only zero is both.
    obtain ⟨rfl, rfl⟩ : m = 0 ∧ n = 0 := by omega
    decide
  · omega
  · exact Int.neg_le_neg (by exact_mod_cast Decimal.roundSignificand_mono (by omega))

theorem natAbs_rounded (i : ℤ) : (rounded i).natAbs = Decimal.roundSignificand i.natAbs := by
  obtain ⟨n, rfl | rfl⟩ := i.eq_nat_or_neg
  · rw [rounded_natCast, Int.natAbs_natCast, Int.natAbs_natCast]
  · rw [rounded_neg, Int.natAbs_neg, Int.natAbs_neg, rounded_natCast, Int.natAbs_natCast,
      Int.natAbs_natCast]

theorem rounded_of_lt (small : i.natAbs < 2 ^ 53) : rounded i = i := by
  rw [rounded, Decimal.roundSignificand_of_lt small, Int.sign_mul_natAbs]

theorem natAbs_rounded_sub (i : ℤ) :
    (rounded i - i).natAbs = ((Decimal.roundSignificand i.natAbs : ℤ) - i.natAbs).natAbs := by
  obtain ⟨n, rfl | rfl⟩ := i.eq_nat_or_neg
  · rw [rounded_natCast, Int.natAbs_natCast]
  · rw [rounded_neg, rounded_natCast, Int.natAbs_neg, Int.natAbs_natCast]
    omega

/-- What an integer is compared as has 53 significant bits at most. -/
theorem rounded_bits (i : ℤ) : ∃ (m : ℤ) (e : ℕ), m.natAbs < 2 ^ 53 ∧ rounded i = m * 2 ^ e := by
  obtain ⟨m, small, e, same⟩ := Decimal.roundSignificand_bits i.natAbs
  refine ⟨i.sign * m, e, ?_, ?_⟩
  · rw [Int.natAbs_mul, Int.natAbs_natCast]
    rw [Int.natAbs_sign]
    split <;> omega
  · rw [rounded, same, Int.mul_assoc]
    push_cast
    rfl

/-- No integer of 53 significant bits is nearer than the one that an integer is compared as. -/
theorem rounded_nearest (i m : ℤ) (e : ℕ) (small : m.natAbs < 2 ^ 53) :
    (rounded i - i).natAbs ≤ (m * 2 ^ e - i).natAbs := by
  have size : (m * 2 ^ e).natAbs = m.natAbs * 2 ^ e := by
    rw [Int.natAbs_mul, Int.natAbs_pow]
    rfl
  have nearest := Decimal.roundSignificand_nearest (Decimal.spacing_dvd small e) i.natAbs
  rw [natAbs_rounded_sub]
  rw [← size] at nearest
  omega

/-- Two integers are not taken for one another. -/
def Apart (i j : ℤ) : Prop := rounded i = rounded j → i = j

instance (i j : ℤ) : Decidable (Apart i j) := inferInstanceAs (Decidable (_ → _))

/-- Below `2 ^ 53` in absolute value an integer is taken for no other. -/
theorem apart_of_lt (small : i.natAbs < 2 ^ 53) (j : ℤ) : Apart i j := by
  intro same
  have size : i.natAbs = Decimal.roundSignificand j.natAbs := by
    rw [← natAbs_rounded, ← same, rounded_of_lt small]
  rcases Nat.lt_or_ge j.natAbs (2 ^ 53) with small' | large
  · rwa [rounded_of_lt small, rounded_of_lt small'] at same
  · have least := Decimal.roundSignificand_mono large
    have power : Decimal.roundSignificand (2 ^ 53) = 2 ^ 53 :=
      Decimal.roundSignificand_of_dvd (Decimal.spacing_dvd (m := 1) (by decide) 53)
    omega

/-- Integers of at most 64 bits that differ by more than 2048 are not taken for one another. -/
theorem apart_of_distant (first : i.natAbs < 2 ^ 64) (second : j.natAbs < 2 ^ 64)
    (distant : 2048 < (i - j).natAbs) : Apart i j := by
  intro same
  have near : ∀ k : ℤ, k.natAbs < 2 ^ 64 → 2 * (rounded k - k).natAbs ≤ 2048 := by
    intro k bounded
    have spaced : Decimal.spacing k.natAbs ≤ 2048 := by
      rcases Nat.eq_zero_or_pos k.natAbs with zero | positive
      · rw [zero]
        decide
      · have bits : k.natAbs.log2 < 64 := (Nat.log2_lt positive.ne').mpr bounded
        exact Nat.pow_le_pow_right (by decide) (show k.natAbs.log2 - 52 ≤ 11 by omega)
    have off := Decimal.roundSignificand_error k.natAbs
    rw [natAbs_rounded_sub]
    omega
  have first := near i first
  have second := near j second
  omega

theorem order_int (i j : ℤ) : (int i).order (int j) = compare (rounded i) (rounded j) := by
  have positive := Decimal.unit_pos
  rw [order, scaled_int, scaled_int]
  simp only [compare, compareOfLessAndEq, Int.mul_lt_mul_right positive,
    Int.mul_eq_mul_right_iff positive.ne']

theorem rounded_lt_iff (apart : Apart i j) : rounded i < rounded j ↔ i < j := by
  constructor
  · intro below
    by_contra above
    exact absurd (rounded_mono (by omega : j ≤ i)) (by omega)
  · intro below
    have distinct : rounded i ≠ rounded j := fun same => below.ne (apart same)
    have le := rounded_mono below.le
    omega

/-- Integers are compared exactly if and only if they are not taken for one another. -/
theorem order_int_eq_compare_iff : (int i).order (int j) = compare i j ↔ Apart i j := by
  rw [order_int]
  constructor
  · intro faithful same
    rw [same, Std.compare_self] at faithful
    exact Std.LawfulEqCmp.eq_of_compare faithful.symm
  · intro apart
    have equal : rounded i = rounded j ↔ i = j := ⟨apart, congrArg rounded⟩
    simp only [compare, compareOfLessAndEq, rounded_lt_iff apart, equal]

end
end Number

/-! ### What compares integers -/

open Number (rounded Apart)

namespace Json

@[simp] theorem isNull_ofInt (i : ℤ) : (ofInt i).isNull = false := rfl

@[simp] theorem kind_ofInt (i : ℤ) : (ofInt i).kind = .number := rfl

@[simp] theorem order_ofInt (i j : ℤ) :
    (ofInt i).order (ofInt j) = compare (rounded i) (rounded j) :=
  Number.order_int i j

theorem ofInt_inj {i j : ℤ} : ofInt i = ofInt j ↔ i = j := by
  simp [ofInt]

end Json

namespace Expr

theorem evalComparison_ofInt (scope : Scope) {op : ComparisonOp} (like : op ≠ .like)
    (notLike : op ≠ .notLike) (i j : ℤ) : evalComparison scope op (.ofInt i) (.ofInt j) =
      ⟨holds op (compare (rounded i) (rounded j)), []⟩ := by
  simp [evalComparison, like, notLike]

theorem member_ofInt {i : ℤ} {js : List ℤ} (apart : ∀ j ∈ js, Apart j i) :
    member (.ofInt i) (js.map .ofInt) = decide (i ∈ js) := by
  rw [Bool.eq_iff_iff, decide_eq_true_iff, member, List.any_map, List.any_eq_true]
  simp only [Function.comp, Json.kind_ofInt, Json.order_ofInt, BEq.rfl, Bool.true_and, beq_iff_eq]
  constructor
  · rintro ⟨j, listed, found⟩
    have same := apart j listed (Std.LawfulEqCmp.eq_of_compare found).symm
    rwa [← same]
  · intro listed
    exact ⟨i, listed, Std.compare_self⟩

end Expr

namespace Functions

theorem best_ofInt_cons (name : String) (wins : Ordering) (current value : ℤ) (rest : List ℤ) :
    best name wins (.ofInt current) ((value :: rest).map .ofInt) =
      best name wins
        (.ofInt (if compare (rounded value) (rounded current) = wins then value else current))
        (rest.map .ofInt) := by
  simp only [List.map_cons, best, Json.kind_ofInt, if_true, Json.order_ofInt,
    apply_ite Json.ofInt]

/-- The best of integers is one of them that no other is taken to come before. -/
theorem best_ofInt (name : String) {wins : Ordering} (strict : wins ≠ .eq) (rest : List ℤ) :
    ∀ current, ∃ k ∈ current :: rest,
      best name wins (.ofInt current) (rest.map .ofInt) = .ok (.ofInt k) ∧
      ∀ j ∈ current :: rest, compare (rounded j) (rounded k) ≠ wins := by
  induction rest with
  | nil =>
    intro current
    refine ⟨current, List.mem_cons_self, rfl, fun j member => ?_⟩
    rw [List.mem_singleton.mp member, Std.compare_self]
    exact strict.symm
  | cons value rest ih =>
    intro current
    rw [best_ofInt_cons]
    obtain ⟨k, listed, found, unbeaten⟩ :=
      ih (if compare (rounded value) (rounded current) = wins then value else current)
    refine ⟨k, by grind, found, ?_⟩
    rw [List.forall_mem_cons] at unbeaten ⊢
    rw [List.forall_mem_cons]
    obtain ⟨next, others⟩ := unbeaten
    suffices both : compare (rounded current) (rounded k) ≠ wins ∧
        compare (rounded value) (rounded k) ≠ wins from ⟨both.1, both.2, others⟩
    cases wins with
    | eq => exact absurd rfl strict
    | lt | gt =>
      simp only [ne_eq, Int.compare_eq_lt, Int.compare_eq_gt] at next ⊢
      split at next <;> omega

theorem bestOf_ofInt (name : String) {wins : Ordering} (strict : wins ≠ .eq) {is : List ℤ}
    (some : is ≠ []) : ∃ k ∈ is, bestOf name wins (is.map .ofInt) = .ok (.ofInt k) ∧
      ∀ j ∈ is, compare (rounded j) (rounded k) ≠ wins := by
  obtain ⟨current, rest, rfl⟩ := List.exists_cons_of_ne_nil some
  have whole : present ((current :: rest).map Json.ofInt) = (current :: rest).map .ofInt := by
    rw [present, List.filter_eq_self]
    intro value member
    obtain ⟨i, -, rfl⟩ := List.mem_map.mp member
    rfl
  rw [bestOf, whole]
  exact best_ofInt name strict rest current

section
variable {name : String} {is : List ℤ} (size : ℕ) (some : is ≠ [])
  (apart : ∀ i ∈ is, ∀ j ∈ is, Apart i j)
include some apart

theorem aggregate_min_ofInt (named : Text.upper name = "MIN") :
    ∃ least ∈ is, aggregate name (is.map .ofInt) size = .ok (.ofInt least) ∧
      ∀ i ∈ is, least ≤ i := by
  obtain ⟨k, listed, found, unbeaten⟩ :=
    bestOf_ofInt "MIN" (by decide : Ordering.lt ≠ .eq) some
  refine ⟨k, listed, ?_, fun i member => ?_⟩
  · rw [aggregate, named]
    exact found
  · have above := unbeaten i member
    rw [ne_eq, Int.compare_eq_lt, Number.rounded_lt_iff (apart i member k listed)] at above
    exact Int.not_lt.mp above

theorem aggregate_max_ofInt (named : Text.upper name = "MAX") :
    ∃ greatest ∈ is, aggregate name (is.map .ofInt) size = .ok (.ofInt greatest) ∧
      ∀ i ∈ is, i ≤ greatest := by
  obtain ⟨k, listed, found, unbeaten⟩ :=
    bestOf_ofInt "MAX" (by decide : Ordering.gt ≠ .eq) some
  refine ⟨k, listed, ?_, fun i member => ?_⟩
  · rw [aggregate, named]
    exact found
  · have below := unbeaten i member
    rw [ne_eq, Int.compare_eq_gt, Number.rounded_lt_iff (apart k listed i member)] at below
    exact Int.not_lt.mp below

end
end Functions

/-! ### Conditions on integer columns -/

namespace Expr

/-- The condition that a column holds an integer. -/
def columnIs (source column : String) (i : ℤ) : Expr :=
  .comparison .eq (.column source column) (.literal (.ofInt i))

/-- The condition passes on a row whose value is no number, or an integer that is not taken for the
given one, if and only if the row holds the integer. -/
theorem passes_columnIs {scope : Scope} {source column : String} {origin : Origin}
    (known : resolveColumn scope source column = .ok origin) {row : Record} (i : ℤ)
    (apart : ∀ n, readColumn scope row source column = .num n → ∃ j, n = .int j ∧ Apart j i) :
    ((columnIs source column i).passes scope (some row) none).value = true ↔
      readColumn scope row source column = .ofInt i := by
  have value : ((columnIs source column i).passes scope (some row) none).value =
      (evalComparison scope .eq (readColumn scope row source column) (.ofInt i)).value := by
    simp only [columnIs, passes, eval, evalColumn, known, Reported.bind_eq, Reported.pure_eq,
      Value.bool, Value.of]
    cases (evalComparison scope .eq (readColumn scope row source column) (.ofInt i)).value <;> rfl
  rw [value]
  generalize readColumn scope row source column = held at apart
  cases held with
  | num n =>
    obtain ⟨j, rfl, distinct⟩ := apart n rfl
    have compared : evalComparison scope .eq (.num (.int j)) (.ofInt i) = _ :=
      evalComparison_ofInt scope (by decide) (by decide) j i
    rw [compared, ← Json.ofInt, Json.ofInt_inj, holds, beq_iff_eq]
    constructor
    · exact fun level => distinct (Std.LawfulEqCmp.eq_of_compare level)
    · rintro rfl
      exact Std.compare_self
  | _ => simp [evalComparison, Json.isNull, Json.kind, Json.ofInt, Reported.fault]

end Expr

/-! ### Integers in queries -/

/-- Integers are compared as doubles see them: each is rounded to the nearest integer that has 53
significant bits at most. The order is never reversed, but it is exact if and only if the two
integers are not taken for one another. Integers below `2 ^ 53` never are, nor are integers of 64
bits that are far from each other. Where none are, the operators, the order of rows, membership in
lists, the least and the greatest of a group and conditions on a column tell integers as they
are. -/
theorem Number.integers_compared (i j : ℤ) :
    (Json.ofInt i).order (.ofInt j) = compare (rounded i) (rounded j) ∧
    (∃ (m : ℤ) (e : ℕ), m.natAbs < 2 ^ 53 ∧ rounded i = m * 2 ^ e) ∧
    (∀ (m : ℤ) (e : ℕ), m.natAbs < 2 ^ 53 → (rounded i - i).natAbs ≤ (m * 2 ^ e - i).natAbs) ∧
    (i ≤ j → (Json.ofInt i).order (.ofInt j) ≠ .gt) ∧
    ((Json.ofInt i).order (.ofInt j) = compare i j ↔ Apart i j) ∧
    (i.natAbs < 2 ^ 53 → Apart i j) ∧
    (i.natAbs < 2 ^ 64 → j.natAbs < 2 ^ 64 → 2048 < (i - j).natAbs → Apart i j) ∧
    (Apart i j → (Json.ofInt i).sortOrder (.ofInt j) = compare i j ∧
      ∀ scope op, op ≠ .like → op ≠ .notLike →
        Expr.evalComparison scope op (.ofInt i) (.ofInt j) = ⟨Expr.holds op (compare i j), []⟩) ∧
    (∀ js : List ℤ, (∀ k ∈ js, Apart k i) →
      Expr.member (.ofInt i) (js.map .ofInt) = decide (i ∈ js)) ∧
    (∀ is : List ℤ, is ≠ [] → (∀ k ∈ is, ∀ l ∈ is, Apart k l) → ∀ name size,
      (Text.upper name = "MIN" →
        ∃ least ∈ is, Functions.aggregate name (is.map .ofInt) size = .ok (.ofInt least) ∧
          ∀ k ∈ is, least ≤ k) ∧
      (Text.upper name = "MAX" →
        ∃ greatest ∈ is, Functions.aggregate name (is.map .ofInt) size = .ok (.ofInt greatest) ∧
          ∀ k ∈ is, k ≤ greatest)) ∧
    (∀ (scope : Scope) (source column : String) origin,
      Expr.resolveColumn scope source column = .ok origin → ∀ rows : List Record,
      (∀ row ∈ rows, ∀ n, Expr.readColumn scope row source column = .num n →
        ∃ k, n = .int k ∧ Apart k i) →
      (∀ s : Select, s.filter = some (Expr.columnIs source column i) → ∀ row,
        row ∈ s.kept scope rows ↔
          row ∈ rows ∧ Expr.readColumn scope row source column = .ofInt i) ∧
      ∀ row ∈ rows, ∃ found,
        (Update.selects scope (some (Expr.columnIs source column i)) row).Yields found ∧
        (found = true ↔ Expr.readColumn scope row source column = .ofInt i)) := by
  refine ⟨order_int i j, rounded_bits i, rounded_nearest i, fun le => ?_,
    order_int_eq_compare_iff, fun small => apart_of_lt small j, apart_of_distant,
    fun apart => ⟨?_, fun scope op like notLike => ?_⟩, fun js apart => Expr.member_ofInt apart,
    fun is some apart name size => ⟨?_, ?_⟩, ?_⟩
  · rw [Json.order_ofInt, ne_eq, Int.compare_eq_gt]
    exact Int.not_lt.mpr (rounded_mono le)
  · exact order_int_eq_compare_iff.mpr apart
  · have faithful : compare (rounded i) (rounded j) = compare i j :=
      (order_int i j).symm.trans (order_int_eq_compare_iff.mpr apart)
    rw [Expr.evalComparison_ofInt scope like notLike, faithful]
  · exact Functions.aggregate_min_ofInt size some apart
  · exact Functions.aggregate_max_ofInt size some apart
  · intro scope source column origin known rows apart
    have passes : ∀ row ∈ rows,
        ((Expr.columnIs source column i).passes scope (some row) none).value = true ↔
          Expr.readColumn scope row source column = .ofInt i :=
      fun row listed => Expr.passes_columnIs known i (apart row listed)
    refine ⟨fun s given row => ?_, fun row listed => ⟨_, Log.yields_within _ _, passes row listed⟩⟩
    rw [Select.kept, given, List.mem_filter]
    exact and_congr_right (passes row)

namespace Select

theorem resolves_mark : ∃ origin,
    Expr.resolveColumn marksContext.scope "marks" "value" = .ok origin := by
  have known : (Expr.resolveColumn marksContext.scope "marks" "value").toOption.isSome = true := by
    decide +kernel
  cases found : Expr.resolveColumn marksContext.scope "marks" "value" with
  | error f =>
    rw [found] at known
    cases known
  | ok origin => exact ⟨origin, rfl⟩

theorem readColumn_mark (id : String) (value : Json) :
    Expr.readColumn marksContext.scope (mark id value) "marks" "value" = value := rfl

/-- The marks that hold an integer. -/
def marksHolding (i : ℤ) : Select where
  projections := [⟨.ref "marks" "id", none⟩]
  base := .ofTable "marks"
  filter := some (.columnIs "marks" "value" i)

/-- A mark whose value is large, but rounded to itself. -/
def largeMark : Record := mark "a" (.ofInt (2 ^ 53 + 2))

end Select

open Select (marksContext marksHolding largeMark)

theorem Number.integers_compared_marks :
    Apart (2 ^ 53) (2 ^ 53 + 2) ∧
    (Json.ofInt (2 ^ 53)).sortOrder (.ofInt (2 ^ 53 + 2)) = .lt ∧
    Expr.member (.ofInt (2 ^ 53)) ([2 ^ 53 + 2, 5].map .ofInt) = false ∧
    (∃ least, Functions.aggregate "min" ([2 ^ 53 + 2, 2 ^ 53].map .ofInt) 2 = .ok (.ofInt least) ∧
      least ≤ 2 ^ 53) ∧
    largeMark ∉ (marksHolding (2 ^ 53)).kept marksContext.scope [largeMark] := by
  obtain ⟨-, -, -, -, -, -, -, ordered, listed, extremes, conditions⟩ :=
    integers_compared (2 ^ 53) (2 ^ 53 + 2)
  have apart : Apart (2 ^ 53) (2 ^ 53 + 2) := by decide +kernel
  refine ⟨apart, (ordered apart).1, ?_, ?_, fun kept => ?_⟩
  · rw [listed _ (by decide +kernel)]
    decide
  · have extreme := extremes [2 ^ 53 + 2, 2 ^ 53] (by decide) (by decide +kernel) "min" 2
    obtain ⟨least, -, found, lowest⟩ := extreme.1 (by decide +kernel)
    exact ⟨least, found, lowest _ (by decide)⟩
  · have read : Expr.readColumn marksContext.scope largeMark "marks" "value" =
        .ofInt (2 ^ 53 + 2) := Select.readColumn_mark _ _
    obtain ⟨origin, known⟩ := Select.resolves_mark
    have selected := conditions marksContext.scope "marks" "value" origin known [largeMark]
    simp only [List.forall_mem_singleton, read] at selected
    have held := ((selected fun n holds =>
      ⟨2 ^ 53 + 2, (Json.num.inj holds).symm, by decide +kernel⟩).1
        (marksHolding (2 ^ 53)) rfl largeMark).mp kept
    rw [read, Json.ofInt_inj] at held
    exact absurd held.2 (by decide)

/-- Two integers of 64 bits that are taken for one another. -/
theorem Number.integers_confused : ∃ i j : ℤ, fitsWord i = true ∧ fitsWord j = true ∧ j < i ∧
    (Json.ofInt i).order (.ofInt j) = .eq :=
  ⟨2 ^ 53 + 1, 2 ^ 53, by decide +kernel⟩

end RecordQuery
