import RecordQuery.Proofs.EqualKeys

/-!
Adding texts. Two texts are added as numbers if both stand for one, and are put one after the other
if not (`Expr.add_str`). Infinities count as numbers here, but no value holds one, so that a sum is
null just where an operand or the sum is infinite or the sum has no value (`Expr.add_texts`).
-/
namespace RecordQuery

/-! ### Doubles that are not finite -/

namespace Number

open Float.Model (UnpackedFloat)

theorem add_not_finite {spec : Float.Model.Format} {a b : UnpackedFloat}
    (unbounded : a.isFinite = false ∨ b.isFinite = false) :
    (UnpackedFloat.add spec a b).isFinite = false := by
  cases a with
  | infinity s =>
    cases b with
    | infinity t => cases s <;> cases t <;> rfl
    | _ => rfl
  | notANumber => rfl
  | zero s =>
    cases b with
    | infinity t => rfl
    | notANumber => rfl
    | _ => cases unbounded <;> contradiction
  | finite s m e positive =>
    cases b with
    | infinity t => rfl
    | notANumber => rfl
    | _ => cases unbounded <;> contradiction

theorem pack_not_finite {a : UnpackedFloat} (unbounded : a.isFinite = false) :
    (Float.Model.pack a).isFinite = false := by
  cases a with
  | infinity s => cases s <;> rfl
  | notANumber => rfl
  | zero s => cases unbounded
  | finite s m e positive => cases unbounded

section
variable {x y : Float}

/-- Only finite doubles have a finite sum. -/
theorem isFinite_of_add (finite : (x + y).isFinite = true) :
    x.isFinite = true ∧ y.isFinite = true := by
  by_contra other
  rw [not_and_or, Bool.not_eq_true, Bool.not_eq_true] at other
  have unbounded : (x + y).isFinite = false := pack_not_finite (add_not_finite other)
  rw [unbounded] at finite
  cases finite

/-- A finite double becomes a number of the same value. -/
theorem ofFloat?_of_finite (finite : x.isFinite = true) :
    ∃ n, ofFloat? x = some n ∧ Decimal.scaled? x = some n.scaled := by
  have becomes : (ofFloat? x).isSome := by
    rw [ofFloat?]
    split
    · split <;> rfl
    · rw [if_pos finite]
      rfl
  obtain ⟨n, found⟩ := Option.isSome_iff_exists.mp becomes
  refine ⟨n, found, ?_⟩
  rcases ofFloat?_cases found with ⟨i, rfl, whole, -⟩ | ⟨rfl, -⟩
  · rw [Decimal.scaled?_of_integer? whole, scaled_int, Decimal.rounded_of_integer? whole]
  · exact scaled?_of_finite (finite_float_iff.mpr finite)

/-- Only finite doubles become numbers. -/
theorem isFinite_of_ofFloat? {n : Number} (found : ofFloat? x = some n) : x.isFinite = true := by
  refine finite_float_iff.mp ?_
  rcases ofFloat?_cases found with ⟨i, -, whole, -⟩ | ⟨rfl, -⟩
  · obtain ⟨p, parts, -⟩ := Option.map_eq_some_iff.mp (Decimal.scaled?_of_integer? whole)
    rw [Finite, parts]
    rfl
  · exact finite_of_ofFloat? found

end
end Number

namespace Value

/-- A finite double is the number of its value. -/
theorem float_of_finite {x : Float} (finite : x.isFinite = true) :
    ∃ n, float x = of (.num n) ∧ Decimal.scaled? x = some n.scaled := by
  obtain ⟨n, found, value⟩ := Number.ofFloat?_of_finite finite
  exact ⟨n, by rw [float, Json.ofFloat, found], value⟩

theorem float_of_not_finite {x : Float} (unbounded : x.isFinite = false) : float x = null := by
  cases found : Number.ofFloat? x with
  | none =>
    rw [float, Json.ofFloat, found]
    rfl
  | some n =>
    rw [Number.isFinite_of_ofFloat? found] at unbounded
    cases unbounded

end Value

/-! ### Texts as numbers -/

/-- The double that a text coerces to, if it coerces to a number; infinities count. -/
def Text.number? (s : String) : Option Float :=
  (Decimal.read? (Text.trim s.toList)).bind fun x => if x.isNaN then none else some x

theorem Json.toNumber_str (s : String) :
    (∃ x, Text.number? s = some x ∧ (str s).toNumber = x ∧ x.isNaN = false) ∨
      Text.number? s = none ∧ (str s).toNumber.isNaN = true := by
  rw [Text.number?, toNumber]
  cases Decimal.read? (Text.trim s.toList) with
  | none => exact .inr ⟨rfl, rfl⟩
  | some x =>
    rw [Option.bind_some, Option.getD_some]
    by_cases undefined : x.isNaN = true
    · exact .inr ⟨if_pos undefined, undefined⟩
    · exact .inl ⟨x, if_neg undefined, rfl, Bool.eq_false_of_not_eq_true undefined⟩

namespace Expr

/-- Two texts are added as numbers if both coerce to one, and are put together if not. -/
theorem add_str (s t : String) : add (.str s) (.str t) =
    match Text.number? s, Text.number? t with
    | some x, some y => .float (x + y)
    | _, _ => .text (s ++ t) := by
  rcases Json.toNumber_str s with ⟨x, coerces, value, number⟩ | ⟨fails, undefined⟩
  · rcases Json.toNumber_str t with ⟨y, coerces', value', number'⟩ | ⟨fails', undefined'⟩
    · rw [coerces, coerces', add, value, value', number, number']
      exact if_neg Bool.false_ne_true
    · rw [coerces, fails', add, undefined', Bool.or_true]
      exact if_pos rfl
  · rw [fails, add, undefined, Bool.true_or]
    exact if_pos rfl

/-- The sum of two texts is never refused. It is the number that is their sum if both coerce to
finite numbers with a finite sum, and the first text followed by the second if one does not coerce
to a number. It is null if and only if both coerce to numbers, infinities included, that are not
finite or have no finite sum. -/
theorem add_texts (scope : Scope) (row : Option Record) (group : Option (List Record))
    {left right : Expr} {s t : String} (first : (left.eval scope row group).value.raw = .str s)
    (second : (right.eval scope row group).value.raw = .str t) :
    ∃ sum : Value,
      (binary .add left right).eval scope row group =
        ⟨sum, (left.eval scope row group).faults ++ (right.eval scope row group).faults⟩ ∧
      (∀ x y, Text.number? s = some x → Text.number? t = some y → x.isFinite = true →
        y.isFinite = true → (x + y).isFinite = true →
        ∃ n, sum = .of (.num n) ∧ Decimal.scaled? (x + y) = some n.scaled) ∧
      (Text.number? s = none ∨ Text.number? t = none → sum = .text (s ++ t)) ∧
      (sum = .null ↔ ∃ x y, Text.number? s = some x ∧ Text.number? t = some y ∧
        ¬(x.isFinite = true ∧ y.isFinite = true ∧ (x + y).isFinite = true)) := by
  refine ⟨add (.str s) (.str t), ?_, ?_, ?_, ?_⟩
  · have combined : evalArithmetic .add (.str s) (.str t) = ⟨add (.str s) (.str t), []⟩ := rfl
    simp only [eval, Reported.bind_eq, first, second, combined, List.append_nil]
  · intro x y coerces coerces' _ _ finite
    rw [add_str, coerces, coerces']
    exact Value.float_of_finite finite
  · intro fails
    rw [add_str]
    rcases fails with fails | fails
    · rw [fails]
    · rw [fails]
      cases Text.number? s <;> rfl
  · constructor
    · intro lost
      rw [add_str] at lost
      split at lost
      · rename_i x y coerces coerces'
        refine ⟨x, y, coerces, coerces', fun ⟨_, _, finite⟩ => ?_⟩
        obtain ⟨n, number, -⟩ := Value.float_of_finite finite
        rw [number] at lost
        cases lost
      · cases lost
    · rintro ⟨x, y, coerces, coerces', unbounded⟩
      rw [add_str, coerces, coerces']
      refine Value.float_of_not_finite (Bool.not_eq_true _ ▸ fun finite => unbounded ?_)
      obtain ⟨operand, operand'⟩ := Number.isFinite_of_add finite
      exact ⟨operand, operand', finite⟩

/-- The sum of two texts, apart from any row. -/
def textSum (s t : String) : Reported Value :=
  (binary .add (.literal (.str s)) (.literal (.str t))).eval
    { schema := .ofTypes [], now := ⟨0, 0, 0⟩ } none none

theorem add_texts_padded :
    (∃ n, textSum " 1.5 " "2e0" = ⟨.of (.num n), []⟩ ∧
      Decimal.scaled? (1.5 + 2.0) = some n.scaled) ∧
    textSum "nan" "1" = ⟨.text "nan1", []⟩ ∧ textSum "1e308" "1e308" = ⟨.null, []⟩ := by
  have added (s t : String) := @add_texts { schema := .ofTypes [], now := ⟨0, 0, 0⟩ } none none
    (.literal (.str s)) (.literal (.str t)) s t rfl rfl
  refine ⟨?_, ?_, ?_⟩
  · obtain ⟨sum, evaluated, number, -⟩ := added " 1.5 " "2e0"
    obtain ⟨n, rfl, value⟩ := number 1.5 2.0 rfl rfl rfl rfl rfl
    exact ⟨n, evaluated, value⟩
  · obtain ⟨sum, evaluated, -, text, -⟩ := added "nan" "1"
    rw [text (.inl rfl)] at evaluated
    exact evaluated
  · have coerces : Text.number? "1e308" = some 1e308 ∧ (1e308 + 1e308 : Float).isFinite ≠ true := by
      decide +kernel
    obtain ⟨sum, evaluated, -, -, lost⟩ := added "1e308" "1e308"
    rw [lost.mpr ⟨1e308, 1e308, coerces.1, coerces.1, fun finite => coerces.2 finite.2.2⟩]
      at evaluated
    exact evaluated

/-- Two texts whose sum is neither a number nor made of them. -/
theorem add_texts_lost :
    textSum "inf" "1" = ⟨.null, []⟩ ∧ Value.null.isNull = true ∧
      Value.null.raw ≠ .str ("inf" ++ "1") := by
  have coerces : Text.number? "inf" = some (1.0 / 0.0) := rfl
  have coerces' : Text.number? "1" = some 1.0 := rfl
  have unbounded : (1.0 / 0.0 + 1.0 : Float).isFinite = false := rfl
  have combined : textSum "inf" "1" = ⟨add (.str "inf") (.str "1"), []⟩ := rfl
  refine ⟨?_, rfl, Json.noConfusion⟩
  rw [combined, add_str, coerces, coerces']
  exact congrArg (Reported.mk · []) (Value.float_of_not_finite unbounded)

end Expr
end RecordQuery
