import RecordQuery.Proofs.Grouping
import RecordQuery.Proofs.WholeNumbers

/-!
Groups and equality. Two finite values are the same if and only if they are equal for the order of
rows and written alike (`Json.eq_iff_sortOrder`): a double is told by its sign and its value, but
one value may be written as an integer and as a double, zero has two signs, and large integers may
be taken for one another. Operators write each value in one way (`Json.alike_ofFloat`). The rows of
a group have the same values, so groups and equality agree on values that are written alike
(`Select.groups_and_equality`).
-/
namespace RecordQuery

/-! ### Doubles of one value -/

namespace Decimal

theorem Parts.natAbs_value (p : Parts) : p.value.natAbs = p.mantissa * 2 ^ p.shift := by
  rw [Parts.value, Nat.pow_eq]
  split
  · rw [Int.natAbs_neg, Int.natAbs_natCast]
  · rw [Int.natAbs_natCast]

section
variable {p q : Parts} (first : p.Canonical) (second : q.Canonical)
include first second

theorem shift_le_of_size (same : p.mantissa * 2 ^ p.shift = q.mantissa * 2 ^ q.shift) :
    q.shift ≤ p.shift := by
  by_contra above
  obtain ⟨more, shifts⟩ := Nat.exists_eq_add_of_lt (Nat.lt_of_not_le above)
  have normal := second.normal (by omega)
  rw [shifts, Nat.add_assoc, Nat.pow_add, Nat.mul_comm (2 ^ p.shift), ← Nat.mul_assoc] at same
  have mantissas := Nat.mul_right_cancel (Nat.two_pow_pos p.shift) same
  have double : 2 ^ 53 ≤ q.mantissa * 2 ^ (more + 1) :=
    calc 2 ^ 53 = 2 ^ 52 * 2 ^ 1 := by rw [← Nat.pow_add]
      _ ≤ q.mantissa * 2 ^ (more + 1) :=
        Nat.mul_le_mul normal (Nat.pow_le_pow_right (by omega) (by omega))
  have small := first.small
  omega

/-- The parts of a double are told by its sign and its value. -/
theorem Parts.Canonical.eq_of_value (signs : p.negative = q.negative)
    (same : p.value = q.value) : p = q := by
  have sizes : p.mantissa * 2 ^ p.shift = q.mantissa * 2 ^ q.shift := by
    rw [← p.natAbs_value, same, q.natAbs_value]
  have shifts := Nat.le_antisymm (shift_le_of_size second first sizes.symm)
    (shift_le_of_size first second sizes)
  rw [shifts] at sizes
  have mantissas := Nat.mul_right_cancel (Nat.two_pow_pos q.shift) sizes
  cases p
  cases q
  simp_all only

end

/-- Whether the sign of a double is minus, as that of the negative zero is. -/
def isNegative (x : Float) : Bool := x.toBits.toNat / 2 ^ 63 == 1

theorem negative_of_ofFloat? {x : Float} {p : Parts} (found : Parts.ofFloat? x = some p) :
    p.negative = isNegative x := by
  rw [Parts.ofFloat?] at found
  simp only [Nat.pow_eq] at found
  split at found
  · cases found
  · split at found <;> obtain rfl := Option.some.inj found <;> rfl

theorem Parts.negative_eq {p : Parts} (nonzero : p.value ≠ 0) :
    p.negative = decide (p.value < 0) := by
  rw [Parts.value] at nonzero ⊢
  cases negative : p.negative with
  | true =>
    rw [negative, if_pos rfl] at nonzero
    rw [if_pos rfl, eq_comm, decide_eq_true_iff]
    omega
  | false =>
    rw [if_neg Bool.false_ne_true, eq_comm, decide_eq_false_iff_not]
    omega

end Decimal

namespace Number

/-- Two numbers are written in one way, if they are equal at all: both are integers that are not
taken for one another, or both are doubles of one sign. -/
def Alike : Number → Number → Prop
  | int i, int j => Apart i j
  | float x, float y => Decimal.isNegative x = Decimal.isNegative y
  | _, _ => False

theorem alike_refl (n : Number) : n.Alike n := by
  cases n with
  | int i => exact fun _ => rfl
  | float x => rfl

theorem float_eq_of_order {x y : Float} (first : (float x).Finite) (second : (float y).Finite)
    (level : (float x).order (float y) = .eq) (signs : (float x).Alike (float y)) : x = y := by
  obtain ⟨p, found⟩ := Option.isSome_iff_exists.mp first
  obtain ⟨q, also⟩ := Option.isSome_iff_exists.mp second
  have values : p.value = q.value := by
    rw [order, scaled, scaled, Decimal.scaled?, Decimal.scaled?, found, also] at level
    exact Std.LawfulEqCmp.eq_of_compare level
  have negatives : p.negative = q.negative := by
    rw [Decimal.negative_of_ofFloat? found, Decimal.negative_of_ofFloat? also, signs]
  obtain rfl := (Decimal.bits_of_ofFloat? found).2.eq_of_value
    (Decimal.bits_of_ofFloat? also).2 negatives values
  exact Decimal.ofFloat?_injective found also

theorem eq_of_order {m n : Number} (first : m.Finite) (second : n.Finite)
    (level : m.order n = .eq) (alike : m.Alike n) : m = n := by
  cases m with
  | int i =>
    cases n with
    | int j =>
      rw [order_int] at level
      rw [alike (Std.LawfulEqCmp.eq_of_compare level)]
    | float y => exact alike.elim
  | float x =>
    cases n with
    | int j => exact alike.elim
    | float y => rw [float_eq_of_order first second level alike]

end Number

namespace Json

/-- Two values are written in one way, if they are equal at all; only numbers have several. -/
def Alike : Json → Json → Prop
  | num m, num n => m.Alike n
  | _, _ => True

theorem alike_refl (a : Json) : a.Alike a := by
  cases a with
  | num n => exact n.alike_refl
  | _ => trivial

theorem kind_eq_of_sortOrder {a b : Json} (level : a.sortOrder b = .eq) : a.kind = b.kind := by
  by_contra differ
  rw [sortOrder, if_neg differ] at level
  exact differ (Kind.rank_injective (Std.LawfulEqCmp.eq_of_compare level))

theorem eq_of_sortOrder {a b : Json} (first : a.Finite) (second : b.Finite)
    (level : a.sortOrder b = .eq) (alike : a.Alike b) : a = b := by
  have kinds := kind_eq_of_sortOrder level
  rw [sortOrder, if_pos kinds] at level
  cases a <;> cases b <;> cases kinds
  case null.null.refl => rfl
  case bool.bool.refl x y =>
    have same : compare x y = .eq := level
    rw [Std.LawfulEqCmp.eq_of_compare same]
  case num.num.refl m n =>
    rw [Finite] at first second
    rw [Number.eq_of_order first second level alike]
  case str.str.refl s t =>
    have same : compare s t = .eq := level
    rw [Std.LawfulEqCmp.eq_of_compare same]
  case arr.arr.refl xs ys =>
    have same : compare (arr xs).text (arr ys).text = .eq := level
    exact text_injective first second (Std.LawfulEqCmp.eq_of_compare same)
  case obj.obj.refl ms ns =>
    have same : compare (obj ms).text (obj ns).text = .eq := level
    exact text_injective first second (Std.LawfulEqCmp.eq_of_compare same)

theorem eq_iff_sortOrder {a b : Json} (first : a.Finite) (second : b.Finite) :
    a = b ↔ a.sortOrder b = .eq ∧ a.Alike b := by
  constructor
  · rintro rfl
    exact ⟨Std.ReflCmp.compare_self, a.alike_refl⟩
  · rintro ⟨level, alike⟩
    exact eq_of_sortOrder first second level alike

theorem evalComparison_of_kinds (scope : Scope) (op : ComparisonOp) {a b : Json}
    (kinds : a.kind ≠ b.kind) : (Expr.evalComparison scope op a b).value = false := by
  cases a <;> cases b <;> first | rfl | exact absurd rfl kinds

/-- Equality holds where the order of rows sees no difference. -/
theorem evalComparison_eq_iff (scope : Scope) (a b : Json) :
    Expr.evalComparison scope .eq a b = ⟨true, []⟩ ↔ a.sortOrder b = .eq := by
  by_cases kinds : a.kind = b.kind
  · rw [sortOrder, if_pos kinds]
    cases a <;> cases b <;> cases kinds <;>
      simp [Expr.evalComparison, isNull, kind, Expr.holds]
    rfl
  · refine iff_of_false (fun holds => ?_) (mt kind_eq_of_sortOrder kinds)
    have value := evalComparison_of_kinds scope .eq kinds
    rw [holds] at value
    cases value

end Json

/-! ### Numbers that operators yield -/

namespace Decimal

/-- A whole number that is a double has no more significant bits than doubles have. -/
theorem roundSignificand_of_size {p : Parts} (canonical : p.Canonical) {n k : ℕ}
    (same : p.mantissa * 2 ^ p.shift = n * 2 ^ k) : roundSignificand n = n := by
  have small := canonical.small
  rcases Nat.le_total p.shift k with below | above
  · obtain ⟨more, rfl⟩ := Nat.exists_eq_add_of_le below
    rw [Nat.add_comm, Nat.pow_add, ← Nat.mul_assoc] at same
    have mantissa := Nat.mul_right_cancel (Nat.two_pow_pos p.shift) same
    have least := Nat.le_mul_of_pos_right n (Nat.two_pow_pos more)
    exact roundSignificand_of_lt (by omega)
  · obtain ⟨more, shift⟩ := Nat.exists_eq_add_of_le above
    rw [shift, Nat.add_comm, Nat.pow_add, ← Nat.mul_assoc] at same
    rw [← Nat.mul_right_cancel (Nat.two_pow_pos k) same]
    exact roundSignificand_of_dvd (spacing_dvd small more)

theorem scaled?_of_integer? {x : Float} {i : ℤ} (whole : integer? x = some i) :
    scaled? x = some (i * unit) := by
  rw [integer?] at whole
  split at whole
  · cases whole
  · rename_i s found
    split at whole
    · rename_i multiple
      obtain rfl := Option.some.inj whole
      rw [found, Int.ediv_mul_cancel (Int.dvd_of_emod_eq_zero multiple)]
    · cases whole

theorem integer?_of_scaled? {x : Float} {i : ℤ} (found : scaled? x = some (i * unit)) :
    integer? x = some i := by
  have positive : (unit : ℤ) ≠ 0 := unit_pos.ne'
  rw [integer?, found]
  simp only [Int.mul_emod_left, if_true, Int.mul_ediv_cancel _ positive]

theorem rounded_of_integer? {x : Float} {i : ℤ} (whole : integer? x = some i) :
    Number.rounded i = i := by
  obtain ⟨p, found, value⟩ := Option.map_eq_some_iff.mp (scaled?_of_integer? whole)
  obtain ⟨k, -, power⟩ := Interval.exists_unit_eq
  have sizes : p.mantissa * 2 ^ p.shift = i.natAbs * 2 ^ k := by
    have sizes := congrArg Int.natAbs value
    rwa [Int.natAbs_mul, Int.natAbs_natCast, power, p.natAbs_value] at sizes
  rw [Number.rounded, roundSignificand_of_size (bits_of_ofFloat? found).2 sizes,
    Int.sign_mul_natAbs]

end Decimal

namespace Number

/-- The numbers that doubles become. -/
theorem ofFloat?_cases {x : Float} {n : Number} (found : ofFloat? x = some n) :
    (∃ i, n = int i ∧ Decimal.integer? x = some i ∧ i.natAbs < 2 ^ 63) ∨
      n = float x ∧ ∀ i, Decimal.integer? x = some i → 2 ^ 63 ≤ i.natAbs := by
  rw [ofFloat?] at found
  split at found
  · rename_i i whole
    split at found
    · exact .inl ⟨i, (Option.some.inj found).symm, whole, ‹_›⟩
    · rename_i large
      refine .inr ⟨(Option.some.inj found).symm, fun j same => ?_⟩
      obtain rfl := Option.some.inj (whole.symm.trans same)
      exact Nat.not_lt.mp large
  · rename_i none
    split at found
    · refine .inr ⟨(Option.some.inj found).symm, fun j same => ?_⟩
      rw [none] at same
      cases same
    · cases found

theorem scaled?_of_finite {x : Float} (finite : (float x).Finite) :
    Decimal.scaled? x = some (float x).scaled := by
  obtain ⟨p, found⟩ := Option.isSome_iff_exists.mp finite
  rw [scaled, Decimal.scaled?, found]
  rfl

section
variable {x y : Float} {i : ℤ}

theorem scaled_int_ne_scaled_float (finite : (float y).Finite) (whole : Decimal.integer? x = some i)
    (bounded : i.natAbs < 2 ^ 63) (large : ∀ j, Decimal.integer? y = some j → 2 ^ 63 ≤ j.natAbs) :
    (int i).scaled ≠ (float y).scaled := by
  intro same
  rw [scaled_int, Decimal.rounded_of_integer? whole] at same
  have found := scaled?_of_finite finite
  rw [← same] at found
  exact absurd (large i (Decimal.integer?_of_scaled? found)) (Nat.not_le.mpr bounded)

theorem alike_float (first : (float x).Finite) (second : (float y).Finite)
    (large : ∀ j, Decimal.integer? x = some j → 2 ^ 63 ≤ j.natAbs)
    (same : (float x).scaled = (float y).scaled) : (float x).Alike (float y) := by
  have zero : (float x).scaled ≠ 0 := by
    intro zero
    have found := scaled?_of_finite first
    rw [zero, ← Int.zero_mul Decimal.unit] at found
    exact absurd (large 0 (Decimal.integer?_of_scaled? found)) (by decide)
  obtain ⟨p, found⟩ := Option.isSome_iff_exists.mp first
  obtain ⟨q, also⟩ := Option.isSome_iff_exists.mp second
  have values : p.value = q.value := by
    rwa [scaled, scaled, Decimal.scaled?, Decimal.scaled?, found, also] at same
  have nonzero : p.value ≠ 0 := by
    rwa [scaled, Decimal.scaled?, found] at zero
  rw [Alike, ← Decimal.negative_of_ofFloat? found, ← Decimal.negative_of_ofFloat? also,
    Decimal.Parts.negative_eq nonzero, Decimal.Parts.negative_eq (values ▸ nonzero), values]

theorem alike_of_ofFloat? {m n : Number} (first : ofFloat? x = some m)
    (second : ofFloat? y = some n) (level : m.order n = .eq) : m.Alike n := by
  have same : m.scaled = n.scaled := Std.LawfulEqCmp.eq_of_compare level
  have finite := finite_of_ofFloat? first
  have finite' := finite_of_ofFloat? second
  rcases ofFloat?_cases first with ⟨i, rfl, whole, bounded⟩ | ⟨rfl, large⟩
  · rcases ofFloat?_cases second with ⟨j, rfl, whole', -⟩ | ⟨rfl, large⟩
    · intro same
      rwa [Decimal.rounded_of_integer? whole, Decimal.rounded_of_integer? whole'] at same
    · exact absurd same (scaled_int_ne_scaled_float finite' whole bounded large)
  · rcases ofFloat?_cases second with ⟨j, rfl, whole, bounded⟩ | ⟨rfl, -⟩
    · exact absurd same.symm (scaled_int_ne_scaled_float finite whole bounded large)
    · exact alike_float finite finite' large same

end
end Number

/-- Numbers that operators yield are written alike if they are equal. -/
theorem Json.alike_ofFloat {x y : Float} (level : (ofFloat x).sortOrder (ofFloat y) = .eq) :
    (ofFloat x).Alike (ofFloat y) := by
  cases first : Number.ofFloat? x with
  | none =>
    rw [ofFloat, first]
    trivial
  | some m =>
    cases second : Number.ofFloat? y with
    | none =>
      rw [ofFloat, ofFloat, second]
      split <;> trivial
    | some n =>
      rw [ofFloat, ofFloat, first, second] at level ⊢
      exact Number.alike_of_ofFloat? first second level

/-! ### Groups and equality -/

namespace Select

/-- Lists of values are the same if and only if they are equal and written alike, one by one. -/
theorem tuple_eq_iff (scope : Scope) {xs ys : List Json} (xsFinite : ∀ x ∈ xs, x.Finite)
    (ysFinite : ∀ y ∈ ys, y.Finite) : xs = ys ↔ List.Forall₂ (fun x y =>
      Expr.evalComparison scope .eq x y = ⟨true, []⟩ ∧ x.Alike y) xs ys := by
  simp only [Json.evalComparison_eq_iff]
  constructor
  · rintro rfl
    refine List.forall₂_same.mpr fun x member => ?_
    exact (Json.eq_iff_sortOrder (xsFinite x member) (xsFinite x member)).mp rfl
  · intro each
    induction each with
    | nil => rfl
    | cons first others ih =>
      rw [List.forall_mem_cons] at xsFinite ysFinite
      rw [(Json.eq_iff_sortOrder xsFinite.1 ysFinite.1).mpr first, ih xsFinite.2 ysFinite.2]

/-- With keys, the groups of a query are those of its rows by the values of the keys. -/
theorem groupRows_grouped (s : Select) (scope : Scope) {rows : List Record}
    (rowsFinite : ∀ r ∈ rows, r.Finite) (keysFinite : ∀ e ∈ s.groupBy, e.Finite)
    (given : s.groupBy ≠ []) : ∃ numbered,
      (groupRows scope s.groupBy rows).Yields (numbered.map (List.map Prod.fst)) ∧
      Grouped (keyTuple scope s.groupBy) rows numbered := by
  have tells : ∀ x ∈ rows, ∀ y ∈ rows,
      (Json.arr (keyTuple scope s.groupBy x)).text = (Json.arr (keyTuple scope s.groupBy y)).text ↔
        keyTuple scope s.groupBy x = keyTuple scope s.groupBy y := by
    intro x listed y also
    constructor
    · exact tuple_text_injective (finite_keyTuple scope keysFinite (rowsFinite x listed))
        (finite_keyTuple scope keysFinite (rowsFinite y also))
    · intro same
      rw [same]
  have read := classes_map (fun row => (Json.arr (keyTuple scope s.groupBy row)).text) Prod.fst
    rows.zipIdx
  rw [List.zipIdx_map_fst] at read
  refine ⟨_, ?_, grouped_classes tells⟩
  rw [← read, ← groupsOf_eq scope given]
  exact groupRows_yields scope _ s.groupBy

/-- Two rows share a group if and only if their keys are equal, one by one, and written alike. So
rows whose keys are not equal are never in one group, and rows whose keys are equal, as they are
for the order of rows, are in one group unless numbers of one value are written in two ways. Numbers
that operators yield are not, nor are integers below `2 ^ 53`. -/
theorem groups_and_equality (s : Select) (scope : Scope) {rows : List Record}
    (rowsFinite : ∀ r ∈ rows, r.Finite) (keysFinite : ∀ e ∈ s.groupBy, e.Finite)
    (given : s.groupBy ≠ []) :
    (∃ numbered,
      (groupRows scope s.groupBy rows).Yields (numbered.map (List.map Prod.fst)) ∧
      Grouped (keyTuple scope s.groupBy) rows numbered ∧
      ∀ a ∈ rows.zipIdx, ∀ b ∈ rows.zipIdx,
        (∃ members ∈ numbered, a ∈ members ∧ b ∈ members) ↔
          List.Forall₂ (fun x y => Expr.evalComparison scope .eq x y = ⟨true, []⟩ ∧ x.Alike y)
            (keyTuple scope s.groupBy a.1) (keyTuple scope s.groupBy b.1)) ∧
    (∀ x y : Json, Expr.evalComparison scope .eq x y = ⟨true, []⟩ ↔ x.sortOrder y = .eq) ∧
    (∀ x y : Float, Expr.evalComparison scope .eq (.ofFloat x) (.ofFloat y) = ⟨true, []⟩ →
      (Json.ofFloat x).Alike (.ofFloat y)) ∧
    (∀ i j : ℤ, i.natAbs < 2 ^ 53 → (Json.ofInt i).Alike (.ofInt j)) ∧
    ∀ x y : Json, x.kind ≠ .number → x.Alike y := by
  refine ⟨?_, Json.evalComparison_eq_iff scope, fun x y equal => ?_, ?_, ?_⟩
  · obtain ⟨numbered, yields, groups⟩ := groupRows_grouped s scope rowsFinite keysFinite given
    refine ⟨numbered, yields, groups, fun a listed b also => ?_⟩
    rw [groups.shared a listed b also]
    exact tuple_eq_iff scope
      (finite_keyTuple scope keysFinite (rowsFinite _ (List.fst_mem_of_mem_zipIdx listed)))
      (finite_keyTuple scope keysFinite (rowsFinite _ (List.fst_mem_of_mem_zipIdx also)))
  · exact Json.alike_ofFloat ((Json.evalComparison_eq_iff scope _ _).mp equal)
  · exact fun i j small => Number.apart_of_lt small j
  · intro x y kind
    cases x with
    | num n => exact absurd rfl kind
    | _ => trivial

theorem keyTuple_mark (id : String) (value : Json) :
    keyTuple marksContext.scope marksByValue.groupBy (mark id value) = [value] := by
  have names : Text.lower "marks" = "marks" ∧ Text.lower "value" = "value" := ⟨rfl, rfl⟩
  obtain ⟨origin, known⟩ := resolves_mark
  simp only [keyTuple, marksByValue, Expr.ref, names, Expr.evalAll, Expr.eval, Expr.evalColumn,
    known, Reported.bind_eq, Reported.pure_eq, readColumn_mark]

/-- Marks with one value that is written in two ways. -/
def twoWays : List Record :=
  [mark "a" (.ofInt 1), mark "b" (.num (.float 1.0)), mark "c" (.ofInt 1)]

theorem groups_and_equality_twoWays :
    (∀ r ∈ twoWays, r.Finite) ∧ (∀ e ∈ marksByValue.groupBy, e.Finite) ∧
    marksByValue.groupBy ≠ [] ∧ ∃ numbered : List (List (Record × ℕ)),
      (groupRows marksContext.scope marksByValue.groupBy twoWays).Yields
        (numbered.map (List.map Prod.fst)) ∧
      (∃ members ∈ numbered,
        (mark "a" (.ofInt 1), 0) ∈ members ∧ (mark "c" (.ofInt 1), 2) ∈ members) ∧
      ¬∃ members ∈ numbered,
        (mark "a" (.ofInt 1), 0) ∈ members ∧ (mark "b" (.num (.float 1.0)), 1) ∈ members := by
  have finite : ∀ r ∈ twoWays, r.Finite := by
    simp only [twoWays, List.forall_mem_cons]
    have one : (Json.num (.float 1.0)).Finite := Json.finite_num (by decide +kernel)
    exact ⟨finite_mark (Json.finite_ofInt 1), finite_mark one, finite_mark (Json.finite_ofInt 1),
      by simp⟩
  have keys : ∀ e ∈ marksByValue.groupBy, e.Finite := by
    intro e member
    obtain rfl := List.mem_singleton.mp member
    trivial
  have given : marksByValue.groupBy ≠ [] := List.cons_ne_nil _ _
  have first : (mark "a" (.ofInt 1), 0) ∈ twoWays.zipIdx := by simp [twoWays]
  have second : (mark "b" (.num (.float 1.0)), 1) ∈ twoWays.zipIdx := by simp [twoWays]
  have third : (mark "c" (.ofInt 1), 2) ∈ twoWays.zipIdx := by simp [twoWays]
  obtain ⟨⟨numbered, yields, -, shared⟩, equality, -⟩ :=
    groups_and_equality marksByValue marksContext.scope finite keys given
  refine ⟨finite, keys, given, numbered, yields, ?_, ?_⟩
  · rw [shared _ first _ third, keyTuple_mark, keyTuple_mark]
    exact .cons ⟨(equality _ _).mpr (by decide +kernel), Json.alike_refl _⟩ .nil
  · rw [shared _ first _ second, keyTuple_mark, keyTuple_mark]
    intro each
    cases each with
    | cons alike _ => exact alike.2

/-- Two values that are equal and of one type, but not in one group. -/
theorem groups_split : ∃ x y : Json, x.kind = y.kind ∧
    Expr.evalComparison marksContext.scope .eq x y = ⟨true, []⟩ ∧
    ∃ groups, (groupRows marksContext.scope marksByValue.groupBy
        [mark "a" x, mark "b" y]).Yields groups ∧
      groups.map (List.map Record.id) = [["a"], ["b"]] := by
  refine ⟨.ofInt 1, .num (.float 1.0), rfl, ?_, _, groupRows_yields _ _ _, by decide +kernel⟩
  exact (Json.evalComparison_eq_iff _ _ _).mpr (by decide +kernel)

end Select
end RecordQuery
