import RecordQuery.Decimal.Shortest
import Mathlib.Algebra.Order.Field.Power
import Mathlib.Tactic.Linarith
import Mathlib.Tactic.Ring

/-!
The decimals that doubles are written as. The digits that are found stand for a number in the
rounding interval of the double (`Decimal.shortest_inside`): seventeen digits always reach it, since
the interval is wider than the distance of two such decimals. The intervals of two doubles have no
number in common (`Decimal.Interval.apart`).
-/
namespace RecordQuery.Decimal

/-- The number that decimal digits with an exponent stand for. -/
def Digits.value (d : Digits) : ℚ := d.digits * 10 ^ d.exponent

namespace Interval

/-- A number lies in an interval, its ends included or not. -/
def Contains (r : Interval) (x : ℚ) : Prop :=
  if r.closed then r.low ≤ x * r.denominator ∧ x * r.denominator ≤ r.high
  else r.low < x * r.denominator ∧ x * r.denominator < r.high

theorem Contains.bounds {r : Interval} {x : ℚ} (inside : r.Contains x) :
    r.low ≤ x * r.denominator ∧ x * r.denominator ≤ r.high := by
  rw [Contains] at inside
  split at inside
  · exact inside
  · exact ⟨inside.1.le, inside.2.le⟩

/-! ### Decimal grids -/

/-- Dividing an interval by a power of ten multiplies its numerators and its denominator, so that
their ratio changes by that power. -/
theorem shrink_eq (r : Interval) (exponent : ℤ) : ∃ f g : ℕ, 0 < f ∧
    (g : ℚ) = f * 10 ^ exponent ∧
    r.shrink exponent =
      ⟨r.low * f, r.value * f, r.high * f, r.denominator * g, r.closed⟩ := by
  by_cases up : 0 ≤ exponent
  · obtain ⟨k, rfl⟩ := Int.eq_ofNat_of_zero_le up
    refine ⟨1, 10 ^ k, Nat.one_pos, ?_, ?_⟩
    · simp
    · rw [shrink, if_pos up]
      simp
  · obtain ⟨k, negated⟩ := Int.eq_ofNat_of_zero_le (show 0 ≤ -exponent by omega)
    obtain rfl : exponent = -(k : ℤ) := by omega
    refine ⟨10 ^ k, 1, by positivity, ?_, ?_⟩
    · simp
    · rw [shrink, if_neg up]
      simp

/-- A whole number lies in the interval divided by a power of ten if its multiple lies in the
interval. -/
theorem holds_shrink (r : Interval) (exponent : ℤ) (n : ℕ) :
    (r.shrink exponent).holds n = true ↔ r.Contains (Digits.value ⟨n, exponent⟩) := by
  obtain ⟨f, g, positive, ratio, same⟩ := r.shrink_eq exponent
  have scaled : ((n * (r.denominator * g) : ℕ) : ℚ) =
      Digits.value ⟨n, exponent⟩ * r.denominator * f := by
    push_cast
    rw [ratio, Digits.value]
    ring
  have fPositive : (0 : ℚ) < f := by exact_mod_cast positive
  have lowest : r.low * f ≤ n * (r.denominator * g) ↔
      (r.low : ℚ) ≤ Digits.value ⟨n, exponent⟩ * r.denominator := by
    rw [← Nat.cast_le (α := ℚ), scaled, Nat.cast_mul, mul_le_mul_iff_left₀ fPositive]
  have highest : n * (r.denominator * g) ≤ r.high * f ↔
      Digits.value ⟨n, exponent⟩ * r.denominator ≤ (r.high : ℚ) := by
    rw [← Nat.cast_le (α := ℚ), scaled, Nat.cast_mul, mul_le_mul_iff_left₀ fPositive]
  have above : r.low * f < n * (r.denominator * g) ↔
      (r.low : ℚ) < Digits.value ⟨n, exponent⟩ * r.denominator := by
    rw [← Nat.cast_lt (α := ℚ), scaled, Nat.cast_mul, mul_lt_mul_iff_left₀ fPositive]
  have below : n * (r.denominator * g) < r.high * f ↔
      Digits.value ⟨n, exponent⟩ * r.denominator < (r.high : ℚ) := by
    rw [← Nat.cast_lt (α := ℚ), scaled, Nat.cast_mul, mul_lt_mul_iff_left₀ fPositive]
  rw [same, holds, Contains]
  cases r.closed with
  | true => simp [lowest, highest]
  | false => simp [above, below]

/-- What is found on a grid lies in the interval. -/
theorem holds_of_nearest? {r : Interval} {n : ℕ} (found : r.nearest? = some n) :
    r.holds n = true := by
  rw [nearest?] at found
  split at found
  · cases found
  · cases found; assumption
  · cases found; assumption
  · split at found
    · cases found; assumption
    · cases found; assumption

/-- A grid meets an interval that is wider than its steps. -/
theorem isSome_nearest? {r : Interval} (positive : 0 < r.denominator) (lower : r.low < r.value)
    (upper : r.value < r.high) (wide : r.low + r.denominator < r.high) :
    r.nearest?.isSome = true := by
  have meets : r.holds (r.value / r.denominator) = true ∨
      r.holds (r.value / r.denominator + 1) = true := by
    have floor := Nat.div_mul_le_self r.value r.denominator
    have ceiling := Nat.lt_div_mul_add (a := r.value) positive
    have next : (r.value / r.denominator + 1) * r.denominator =
        r.value / r.denominator * r.denominator + r.denominator := by ring
    rw [holds, holds, next]
    cases r.closed with
    | true =>
      simp only [↓reduceIte, Bool.and_eq_true, decide_eq_true_eq]
      omega
    | false =>
      simp only [Bool.false_eq_true, ↓reduceIte, Bool.and_eq_true, decide_eq_true_eq]
      omega
  rw [nearest?]
  split
  · rename_i first second
    rw [first, second] at meets
    simp at meets
  · rfl
  · rfl
  · split <;> rfl

/-- The grid of seventeen digits meets an interval that is not narrower than one part in
`10 ^ 16`. -/
theorem meets_grid {r : Interval} (positive : 0 < r.denominator) (lower : r.low < r.value)
    (upper : r.value < r.high) (wide : r.value + 10 ^ 16 * r.low < 10 ^ 16 * r.high)
    {magnitude : ℤ} (leading : (r.denominator : ℚ) * 10 ^ magnitude ≤ r.value) :
    (r.shrink (magnitude - 16)).nearest?.isSome = true := by
  obtain ⟨f, g, fPositive, ratio, same⟩ := r.shrink_eq (magnitude - 16)
  have fPos : (0 : ℚ) < f := by exact_mod_cast fPositive
  have gPos : (0 : ℚ) < g := by rw [ratio]; positivity
  have step : (10 : ℚ) ^ (magnitude - 16) * 10 ^ 16 = 10 ^ magnitude := by
    rw [zpow_sub₀ (by norm_num)]
    exact div_mul_cancel₀ _ (by norm_num)
  have room : (r.low : ℚ) + r.denominator * 10 ^ (magnitude - 16) < r.high := by
    have tenth : (r.denominator : ℚ) * 10 ^ (magnitude - 16) * 10 ^ 16 ≤ r.value := by
      rw [mul_assoc, step]
      exact leading
    have wideCast : (r.value : ℚ) + 10 ^ 16 * r.low < 10 ^ 16 * r.high := by exact_mod_cast wide
    linarith
  rw [same]
  refine isSome_nearest? ?_ ?_ ?_ ?_
  · exact Nat.mul_pos positive (by exact_mod_cast gPos)
  · exact Nat.mul_lt_mul_of_pos_right lower fPositive
  · exact Nat.mul_lt_mul_of_pos_right upper fPositive
  · rw [← Nat.cast_lt (α := ℚ)]
    push_cast
    rw [ratio]
    have scaled := mul_lt_mul_of_pos_right room fPos
    linarith

/-- The search ends on the first grid that meets the interval, if one of them does. -/
theorem contains_search (r : Interval) (magnitude : ℤ) : ∀ more count : ℕ,
    (∃ k < more, (r.shrink (magnitude - (count + k : ℕ) + 1)).nearest?.isSome = true) →
      r.Contains (r.search magnitude more count).value := by
  intro more
  induction more with
  | zero =>
    rintro count ⟨k, inside, -⟩
    omega
  | succ more ih =>
    rintro count ⟨k, inside, meets⟩
    rw [search]
    cases found : (r.shrink (magnitude - count + 1)).nearest? with
    | some digits => exact (r.holds_shrink _ digits).mp (holds_of_nearest? found)
    | none =>
      refine ih (count + 1) ?_
      cases k with
      | zero =>
        rw [Nat.add_zero, found] at meets
        cases meets
      | succ k =>
        refine ⟨k, by omega, ?_⟩
        rw [Nat.add_assoc, Nat.add_comm 1 k]
        exact meets

/-! ### The leading digit -/

/-- `0.30103` is close to the logarithm of two, so far as exponents of doubles go. -/
theorem pow_guess_le {e : ℤ} (low : -16000 ≤ e) (high : e ≤ 16000) :
    (10 : ℚ) ^ (e * 30103 / 100000 - 1) ≤ 2 ^ e := by
  obtain ⟨j, same⟩ : ∃ j, j = e * 30103 / 100000 - 1 := ⟨_, rfl⟩
  rw [← same]
  by_cases up : 0 ≤ j
  · -- Here `10 ^ 31 ≤ 2 ^ 103` is close enough.
    have room : 103 * j ≤ 31 * e := by omega
    have powers : ((10 : ℚ) ^ j) ^ 31 ≤ ((2 : ℚ) ^ e) ^ 31 := by
      calc ((10 : ℚ) ^ j) ^ 31 = ((10 : ℚ) ^ 31) ^ j := by
            rw [← zpow_natCast, ← zpow_natCast, zpow_comm]
        _ ≤ ((2 : ℚ) ^ 103) ^ j := by
            exact zpow_le_zpow_left₀ up (by norm_num) (by norm_num)
        _ = (2 : ℚ) ^ (103 * j) := by rw [← zpow_natCast, ← zpow_mul]; rfl
        _ ≤ (2 : ℚ) ^ (31 * e) := zpow_le_zpow_right₀ (by norm_num) room
        _ = ((2 : ℚ) ^ e) ^ 31 := by rw [mul_comm, zpow_mul]; rfl
    exact (pow_le_pow_iff_left₀ (by positivity) (by positivity) (by norm_num)).mp powers
  · -- And here `2 ^ 93 ≤ 10 ^ 28`.
    have room : -(28 * e) ≤ 93 * -j := by omega
    have powers : ((2 : ℚ) ^ (-e)) ^ 28 ≤ ((10 : ℚ) ^ (-j)) ^ 28 := by
      calc ((2 : ℚ) ^ (-e)) ^ 28 = (2 : ℚ) ^ (-(28 * e)) := by
            rw [← zpow_natCast, ← zpow_mul]
            congr 1
            ring
        _ ≤ (2 : ℚ) ^ (93 * -j) := zpow_le_zpow_right₀ (by norm_num) room
        _ = ((2 : ℚ) ^ 93) ^ (-j) := by rw [zpow_mul]; rfl
        _ ≤ ((10 : ℚ) ^ 28) ^ (-j) := zpow_le_zpow_left₀ (by omega) (by norm_num) (by norm_num)
        _ = ((10 : ℚ) ^ (-j)) ^ 28 := by rw [← zpow_natCast, ← zpow_natCast, zpow_comm]
    have inverse := (pow_le_pow_iff_left₀ (by positivity) (by positivity) (by norm_num)).mp powers
    rw [zpow_neg, zpow_neg] at inverse
    exact (inv_le_inv₀ (by positivity) (by positivity)).mp inverse

/-- The leading digit is not placed above the value. -/
theorem magnitude_le {r : Interval} {k : ℕ} (binary : r.denominator = 2 ^ k) (small : k ≤ 16000)
    (positive : 0 < r.value) (bounded : r.value.log2 ≤ 16000) :
    (r.denominator : ℚ) * 10 ^ r.magnitude ≤ r.value := by
  have reaches (e : ℤ) : (r.shrink e).denominator ≤ (r.shrink e).value ↔
      (r.denominator : ℚ) * 10 ^ e ≤ r.value := by
    obtain ⟨f, g, fPositive, ratio, same⟩ := r.shrink_eq e
    rw [same, ← Nat.cast_le (α := ℚ)]
    push_cast
    have fPos : (0 : ℚ) < f := by exact_mod_cast fPositive
    have moved : (r.denominator : ℚ) * (f * 10 ^ e) = r.denominator * 10 ^ e * f := by ring
    rw [ratio, moved, mul_le_mul_iff_left₀ fPos]
  have binaryLog : r.denominator.log2 = k := by rw [binary, Nat.log2_two_pow]
  have floor : (2 : ℚ) ^ r.value.log2 ≤ r.value := by
    exact_mod_cast Nat.log2_self_le (by omega)
  have exponents : (2 : ℚ) ^ ((r.value.log2 : ℤ) - r.denominator.log2) * r.denominator =
      2 ^ r.value.log2 := by
    rw [binaryLog, binary]
    push_cast
    rw [← zpow_natCast, ← zpow_natCast, ← zpow_add₀ (by norm_num)]
    congr 1
    ring
  have guess := pow_guess_le (e := (r.value.log2 : ℤ) - r.denominator.log2) (by omega) (by omega)
  rw [magnitude]
  dsimp only
  split
  · rename_i above
    exact (reaches _).mp (by simpa using above)
  · split
    · rename_i level
      exact (reaches _).mp (by simpa using level)
    · calc (r.denominator : ℚ) *
            10 ^ (((r.value.log2 : ℤ) - r.denominator.log2) * 30103 / 100000 - 1)
          ≤ r.denominator * 2 ^ ((r.value.log2 : ℤ) - r.denominator.log2) :=
            mul_le_mul_of_nonneg_left guess (by positivity)
        _ = 2 ^ r.value.log2 := by rw [mul_comm, exponents]
        _ ≤ r.value := floor

end Interval

/-! ### The parts of doubles -/

/-- The parts are those of a double: the mantissa has 53 bits at most, and fewer only where it counts
the smallest double. -/
structure Parts.Canonical (p : Parts) : Prop where
  small : p.mantissa < 2 ^ 53
  bounded : p.shift ≤ 2045
  normal : 0 < p.shift → 2 ^ 52 ≤ p.mantissa

/-- How the bits of a double make up its parts. -/
theorem bits_of_ofFloat? {x : Float} {p : Parts} (found : Parts.ofFloat? x = some p) :
    x.toBits.toNat = (if p.negative then 2 ^ 63 else 0) + p.shift * 2 ^ 52 + p.mantissa ∧
      p.Canonical := by
  have word : x.toBits.toNat < 2 ^ 64 := x.toBits.toNat_lt
  rw [Parts.ofFloat?] at found
  simp only [Nat.pow_eq, Nat.reducePow] at found word
  generalize x.toBits.toNat = bits at found word
  have sign : bits = (if bits / 9223372036854775808 == 1 then 2 ^ 63 else 0) +
      bits % 9223372036854775808 := by
    by_cases negative : bits / 9223372036854775808 = 1
    · simp only [negative, beq_self_eq_true, ↓reduceIte]
      omega
    · simp only [negative, beq_iff_eq, ↓reduceIte]
      omega
  split at found
  · cases found
  · split at found
    · obtain rfl := Option.some.inj found
      refine ⟨?_, ?_, ?_, ?_⟩
      · dsimp only; omega
      · dsimp only; omega
      · dsimp only; omega
      · dsimp only; omega
    · obtain rfl := Option.some.inj found
      refine ⟨?_, ?_, ?_, ?_⟩
      · dsimp only; omega
      · dsimp only; omega
      · dsimp only; omega
      · dsimp only; omega

theorem float_eq_of_toBits {x y : Float} (same : x.toBits = y.toBits) : x = y := by
  obtain ⟨⟨bits, valid⟩⟩ := x
  obtain ⟨⟨other, alike⟩⟩ := y
  obtain rfl : bits = other := same
  rfl

/-- A finite double is told by its parts. -/
theorem ofFloat?_injective {x y : Float} {p : Parts} (first : Parts.ofFloat? x = some p)
    (second : Parts.ofFloat? y = some p) : x = y := by
  have same : x.toBits.toNat = y.toBits.toNat :=
    (bits_of_ofFloat? first).1.trans (bits_of_ofFloat? second).1.symm
  exact float_eq_of_toBits (UInt64.toNat_inj.mp same)

namespace Interval

theorem exists_unit_eq : ∃ k ≤ 1074, unit = 2 ^ k := by
  unfold unit
  generalize 1074 = n
  exact ⟨n, Nat.le_refl n, Nat.pow_eq⟩

theorem denominator_ofParts (p : Parts) : ∃ k ≤ 1076, (ofParts p).denominator = 2 ^ k := by
  obtain ⟨k, small, same⟩ := exists_unit_eq
  refine ⟨k + 2, by omega, ?_⟩
  have quarter : (ofParts p).denominator = 4 * unit := by rw [ofParts]
  rw [quarter, same, Nat.pow_add, Nat.mul_comm]

theorem value_lt_high (p : Parts) : (ofParts p).value < (ofParts p).high := by
  have power : 0 < 2 ^ p.shift := by positivity
  rw [ofParts]
  dsimp only
  exact Nat.mul_lt_mul_of_pos_right (by omega) power

section
variable {p : Parts} (positive : 0 < p.mantissa)

include positive

theorem low_lt_value : (ofParts p).low < (ofParts p).value := by
  have power : 0 < 2 ^ p.shift := by positivity
  rw [ofParts]
  dsimp only
  refine Nat.mul_lt_mul_of_pos_right ?_ power
  split <;> omega

/-- The numbers in the interval of a positive double are positive. -/
theorem pos_of_contains {x : ℚ} (inside : (ofParts p).Contains x) : 0 < x := by
  have low : 0 < (ofParts p).low := by
    rw [ofParts]
    refine Nat.mul_pos ?_ (Nat.pow_pos Nat.two_pos)
    split <;> omega
  have product : 0 < x * (ofParts p).denominator := by
    have lowCast : (0 : ℚ) < (ofParts p).low := by exact_mod_cast low
    exact lowCast.trans_le inside.bounds.1
  exact pos_of_mul_pos_left product (Nat.cast_nonneg _)

/-- The interval of a double is not narrower than one part in `10 ^ 16`. -/
theorem wide_ofParts (small : p.mantissa < 2 ^ 53) :
    (ofParts p).value + 10 ^ 16 * (ofParts p).low < 10 ^ 16 * (ofParts p).high := by
  have power : 0 < 2 ^ p.shift := by positivity
  rw [ofParts]
  dsimp only
  simp only [Nat.pow_eq, Nat.reducePow] at small power ⊢
  rw [← Nat.mul_assoc, ← Nat.mul_assoc, ← Nat.add_mul]
  refine Nat.mul_lt_mul_of_pos_right ?_ power
  split <;> omega

end

end Interval

/-- The digits of a double stand for a number in its interval. -/
theorem shortest_inside {p : Parts} (canonical : p.Canonical) (positive : 0 < p.mantissa) :
    (Interval.ofParts p).Contains (shortest p).value := by
  obtain ⟨k, small, binary⟩ := Interval.denominator_ofParts p
  have below := Interval.low_lt_value positive
  have bits : (Interval.ofParts p).value < 2 ^ (2 + 53 + p.shift) := by
    have whole : (Interval.ofParts p).value = 4 * p.mantissa * 2 ^ p.shift := rfl
    have few := canonical.small
    rw [whole, pow_add]
    exact Nat.mul_lt_mul_of_pos_right (by omega) (by positivity)
  have short := (Nat.log2_lt (by omega)).mpr bits
  have bounded := canonical.bounded
  have leading := Interval.magnitude_le binary (by omega) (by omega) (by omega)
  have meets := Interval.meets_grid (by rw [binary]; positivity) below (Interval.value_lt_high p)
    (Interval.wide_ofParts positive canonical.small) leading
  rw [shortest]
  refine Interval.contains_search _ _ 17 1 ⟨16, by norm_num, ?_⟩
  have last : (Interval.ofParts p).magnitude - ((1 + 16 : ℕ) : ℤ) + 1 =
      (Interval.ofParts p).magnitude - 16 := by push_cast; ring
  rw [last]
  exact meets

/-! ### Intervals of different doubles -/

namespace Interval

/-- Of two doubles, the interval of the smaller one ends before that of the greater one begins, or
it ends there and the end belongs to one of them at most. -/
theorem high_before_low {p q : Parts} (small : p.mantissa < 2 ^ 53)
    (normal : 0 < q.shift → 2 ^ 52 ≤ q.mantissa)
    (normalFirst : 0 < p.shift → 2 ^ 52 ≤ p.mantissa)
    (before : p.shift < q.shift ∨ p.shift = q.shift ∧ p.mantissa < q.mantissa) :
    (ofParts p).high < (ofParts q).low ∨ (ofParts p).high = (ofParts q).low ∧
      ¬ ((ofParts p).closed = true ∧ (ofParts q).closed = true) := by
  obtain ⟨sign, m, s⟩ := p
  obtain ⟨sign', m', s'⟩ := q
  dsimp only [ofParts] at *
  simp only [Nat.pow_eq, Nat.reducePow] at *
  have power : 0 < 2 ^ s := by positivity
  rcases before with coarser | ⟨rfl, less⟩
  · -- The greater one counts in larger units, so it has all bits of its mantissa.
    obtain ⟨d, rfl⟩ := Nat.exists_eq_add_of_lt coarser
    have full := normal (by omega)
    obtain ⟨c, same⟩ : ∃ c, c = if m' = 4503599627370496 ∧ 0 < s + d + 1 then 4 * m' - 1
        else 4 * m' - 2 := ⟨_, rfl⟩
    have least : 18014398509481983 ≤ c := by
      rw [same]
      split <;> omega
    have doubled : c * 2 ≤ c * (2 * 2 ^ d) :=
      Nat.mul_le_mul_left c (Nat.le_mul_of_pos_right 2 (by positivity))
    have moved : c * 2 ^ (s + d + 1) = c * (2 * 2 ^ d) * 2 ^ s := by ring
    rw [← same, moved]
    by_cases apart : 4 * m + 2 < c * (2 * 2 ^ d)
    · left
      exact Nat.mul_lt_mul_of_pos_right apart power
    · right
      have touching : 4 * m + 2 = c * (2 * 2 ^ d) := by omega
      refine ⟨by rw [touching], ?_⟩
      simp only [beq_iff_eq]
      omega
  · have plain : ¬ (m' = 4503599627370496 ∧ 0 < s) := by
      rintro ⟨rfl, shifted⟩
      have := normalFirst shifted
      omega
    rw [if_neg plain]
    by_cases next : m' = m + 1
    · right
      refine ⟨?_, ?_⟩
      · congr 1
        omega
      · simp only [beq_iff_eq]
        omega
    · left
      exact Nat.mul_lt_mul_of_pos_right (by omega) power

/-- No number lies in the intervals of two doubles that are not equal in size. -/
theorem apart {p q : Parts} (first : p.Canonical) (second : q.Canonical) {x : ℚ}
    (inside : (ofParts p).Contains x) (also : (ofParts q).Contains x) :
    p.mantissa = q.mantissa ∧ p.shift = q.shift := by
  have disjoint : ∀ {p q : Parts}, p.Canonical → q.Canonical →
      (p.shift < q.shift ∨ p.shift = q.shift ∧ p.mantissa < q.mantissa) →
        (ofParts p).Contains x → (ofParts q).Contains x → False := by
    intro p q first second before inside also
    have units : (ofParts p).denominator = (ofParts q).denominator := by rw [ofParts, ofParts]
    have upper := inside.bounds.2
    have lower := also.bounds.1
    rw [units] at upper
    rcases high_before_low first.small second.normal first.normal before with gap | ⟨meet, ends⟩
    · have gapCast : ((ofParts p).high : ℚ) < (ofParts q).low := by exact_mod_cast gap
      linarith
    · have meetCast : ((ofParts p).high : ℚ) = (ofParts q).low := by exact_mod_cast meet
      rw [Contains, units] at inside
      rw [Contains] at also
      by_cases closed : (ofParts p).closed = true
      · have opens : ¬ (ofParts q).closed = true := fun other => ends ⟨closed, other⟩
        rw [if_neg opens] at also
        linarith [also.1]
      · rw [if_neg closed] at inside
        linarith [inside.2]
  by_contra differ
  rcases Nat.lt_trichotomy p.shift q.shift with less | same | greater
  · exact disjoint first second (.inl less) inside also
  · rcases Nat.lt_trichotomy p.mantissa q.mantissa with below | equal | above
    · exact disjoint first second (.inr ⟨same, below⟩) inside also
    · exact differ ⟨equal, same⟩
    · exact disjoint second first (.inr ⟨same.symm, above⟩) also inside
  · exact disjoint second first (.inl greater) also inside

end Interval

end RecordQuery.Decimal
