import RecordQuery.Expr.Eval
import RecordQuery.Proofs.CompactText
import RecordQuery.Proofs.Conformity
import RecordQuery.Proofs.Sources

/-!
Numbers of evaluated values. A double becomes a value only if it is finite, so what a function
computes holds finite numbers, and evaluating takes over those of literals and of columns: on rows
of data an expression has a value that text can stand for (`Expr.finite_eval`).
-/
namespace RecordQuery

namespace Number

open Float.Model (UnpackedFloat Format)

/-- A double is finite unless all bits of its exponent are set. -/
theorem isFinite_iff {x : Float} :
    x.isFinite = true ↔ x.toBits.toNat / 2 ^ 52 % 2 ^ 11 ≠ 2047 := by
  have exponent : (@UnpackedFloat.unpackExponent Format.binary64 x.toBits.toBitVec).toNat =
      x.toBits.toNat / 2 ^ 52 % 2 ^ 11 := by
    rw [UnpackedFloat.unpackExponent, BitVec.toNat_cast, BitVec.extractLsb_toNat,
      Nat.shiftRight_eq_div_pow]
    rfl
  have ones : @UnpackedFloat.unpackExponent Format.binary64 x.toBits.toBitVec = -1#_ ↔
      x.toBits.toNat / 2 ^ 52 % 2 ^ 11 = 2047 := by
    rw [← exponent, ← BitVec.toNat_inj]
    rfl
  have unpacked : x.isFinite = (UnpackedFloat.unpack Format.binary64 x.toBits.toBitVec).isFinite :=
    rfl
  rw [unpacked, ne_eq, ← ones]
  delta UnpackedFloat.unpack
  dsimp only
  by_cases set : @UnpackedFloat.unpackExponent Format.binary64 x.toBits.toBitVec = -1#_
  · rw [if_pos set]
    refine iff_of_false ?_ (not_not.mpr set)
    split <;> exact Bool.false_ne_true
  · rw [if_neg set]
    refine iff_of_true ?_ set
    by_cases least : @UnpackedFloat.unpackExponent Format.binary64 x.toBits.toBitVec = 0#_
    · rw [if_pos least]
      by_cases zero : @UnpackedFloat.unpackMantissa Format.binary64 x.toBits.toBitVec = 0#_
      · rw [dif_pos zero]
        rfl
      · rw [dif_neg zero]
        rfl
    · rw [if_neg least]
      rfl

/-- The parts of a double are missing only where it is not finite. -/
theorem finite_float_iff {x : Float} : (float x).Finite ↔ x.isFinite = true := by
  rw [isFinite_iff, Finite, Decimal.Parts.ofFloat?]
  simp only [Nat.pow_eq]
  split
  · rename_i set
    exact iff_of_false Bool.false_ne_true (not_not.mpr set)
  · rename_i other
    refine iff_of_true ?_ other
    split <;> rfl

theorem finite_of_ofFloat? {x : Float} {n : Number} (found : ofFloat? x = some n) : n.Finite := by
  rw [ofFloat?] at found
  split at found
  · rename_i whole
    split at found
    · obtain rfl := Option.some.inj found
      trivial
    · obtain rfl := Option.some.inj found
      rw [Finite]
      by_contra missing
      rw [Decimal.integer?, Decimal.scaled?, Option.not_isSome_iff_eq_none.mp missing] at whole
      cases whole
  · split at found
    · rename_i finite
      obtain rfl := Option.some.inj found
      exact finite_float_iff.mpr finite
    · cases found

end Number

namespace Json

theorem finite_num {n : Number} (finite : n.Finite) : (num n).Finite := by rwa [Finite]

theorem finite_ofInt (i : ℤ) : (ofInt i).Finite := finite_num trivial

theorem finite_ofFloat (x : Float) : (ofFloat x).Finite := by
  rw [ofFloat]
  split
  · exact finite_num (Number.finite_of_ofFloat? ‹_›)
  · trivial

theorem finite_obj {members : Dict Json} (finite : ∀ member ∈ members, member.2.Finite) :
    (obj members).Finite := by
  rwa [Finite, finiteMembers_iff]

end Json

/-! ### Functions -/

namespace Functions
open Json Calendar

/-- What a call yields is finite, if it yields anything. -/
def Tame (outcome : Outcome Json) : Prop := ∀ value, outcome = .ok value → value.Finite

theorem tame_ok {value : Json} (finite : value.Finite) : Tame (.ok value) := by
  rintro _ ⟨⟩
  exact finite

theorem tame_error (e : CallError) : Tame (.error e) := by
  rintro _ ⟨⟩

theorem Tame.bind {α : Type} {first : Outcome α} {next : α → Outcome Json}
    (tame : ∀ a, first = .ok a → Tame (next a)) : Tame (first >>= next) := by
  cases first with
  | error e => exact tame_error e
  | ok a => exact tame a rfl

section
variable (name : String) (args : List Json)

theorem tame_concat : Tame (concat args) := by
  rw [concat]
  split
  · exact tame_error _
  · exact tame_ok trivial

theorem tame_substring : Tame (substring name args) := by
  rw [substring.eq_def]
  split
  · exact tame_ok trivial
  · exact tame_ok trivial
  · exact .bind fun _ _ => .bind fun _ _ => tame_ok trivial
  · refine .bind fun _ _ => .bind fun _ _ => .bind fun length _ => ?_
    split
    · exact tame_error _
    · exact tame_ok trivial
  · exact tame_error _

theorem tame_onText (f : String → String) : Tame (onText name f args) := by
  rw [onText]
  refine .bind fun arg _ => ?_
  split
  · exact tame_ok trivial
  · exact .bind fun _ _ => tame_ok trivial

theorem tame_length : Tame (length args) := by
  rw [length]
  refine .bind fun arg _ => ?_
  split
  · exact tame_ok trivial
  · exact tame_ok (finite_ofInt _)
  · exact tame_ok (finite_ofInt _)
  · exact tame_error _

theorem tame_replace : Tame (replace args) := by
  rw [replace.eq_def]
  split
  · exact tame_ok trivial
  · exact .bind fun _ _ => .bind fun _ _ => .bind fun _ _ => tame_ok trivial
  · exact tame_error _

theorem tame_testText (test : List Char → List Char → Bool) : Tame (testText name test args) := by
  rw [testText]
  refine .bind fun both _ => ?_
  split
  · exact tame_ok trivial
  · exact tame_ok trivial
  · exact .bind fun _ _ => .bind fun _ _ => tame_ok trivial

theorem tame_onNumber (f : Float → Outcome Float) : Tame (onNumber name f args) := by
  rw [onNumber]
  refine .bind fun arg _ => ?_
  split
  · exact tame_ok trivial
  · exact .bind fun _ _ => .bind fun _ _ => tame_ok (finite_ofFloat _)

theorem tame_round : Tame (round name args) := by
  rw [round.eq_def]
  split
  · exact tame_ok trivial
  · exact tame_ok trivial
  · exact .bind fun _ _ => tame_ok (finite_ofFloat _)
  · exact .bind fun _ _ => .bind fun _ _ => tame_ok (finite_ofFloat _)
  · exact tame_error _

theorem tame_power : Tame (power name args) := by
  rw [power]
  refine .bind fun both _ => ?_
  split
  · exact tame_ok trivial
  · exact tame_ok trivial
  · exact .bind fun _ _ => .bind fun _ _ => tame_ok (finite_ofFloat _)

theorem tame_extreme (before : Float → Float → Bool) : Tame (extreme name before args) := by
  rw [extreme]
  split
  · exact tame_error _
  · refine .bind fun numbers _ => ?_
    split
    · exact tame_ok trivial
    · exact tame_ok (finite_ofFloat _)

theorem tame_coalesce (finite : ∀ a ∈ args, a.Finite) : Tame (coalesce name args) := by
  rw [coalesce]
  split
  · exact tame_error _
  · refine tame_ok ?_
    cases found : args.find? (!·.isNull) with
    | none => trivial
    | some a => exact finite a (List.mem_of_find?_eq_some found)

theorem tame_typeOf : Tame (typeOf name args) := by
  rw [typeOf]
  exact .bind fun _ _ => tame_ok trivial

theorem tame_isNull : Tame (isNull args) := by
  rw [isNull]
  exact .bind fun _ _ => tame_ok trivial

theorem tame_currentTime (now : Instant) : Tame (currentTime now args) := by
  cases args with
  | nil => exact tame_ok trivial
  | cons a rest => exact tame_error _

theorem tame_datePart : Tame (datePart args) := by
  rw [datePart]
  refine .bind fun both _ => ?_
  split
  · exact tame_ok trivial
  · refine .bind fun _ _ => .bind fun _ _ => ?_
    split
    · exact tame_ok (finite_ofInt _)
    · exact tame_error _

end

theorem tame_call (now : Instant) (name : String) {args : List Json}
    (finite : ∀ a ∈ args, a.Finite) : Tame (call now name args) := by
  -- Only the first value that is not null is one of the arguments.
  have chosen (name : String) := tame_coalesce name args finite
  rw [call]
  cases named : named? now (Text.upper name) with
  | none => exact tame_error _
  | some f =>
    dsimp only
    rw [named?.eq_def] at named
    split at named <;> cases named
    all_goals simp only [tame_concat, tame_substring, tame_onText, tame_length, tame_replace,
      tame_testText, tame_onNumber, tame_round, tame_power, tame_extreme, tame_typeOf, tame_isNull,
      tame_currentTime, tame_datePart, chosen]

/-! ### Aggregates -/

theorem tame_totalOf (name : String) (finish : Float → ℕ → Float) (values : List Json) :
    Tame (totalOf name finish values) := by
  rw [totalOf]
  refine .bind fun numbers _ => ?_
  split
  · exact tame_ok trivial
  · exact tame_ok (finite_ofFloat _)

theorem tame_best (name : String) (wins : Ordering) {values : List Json}
    (finite : ∀ a ∈ values, a.Finite) :
    ∀ current : Json, current.Finite → Tame (best name wins current values) := by
  induction values with
  | nil =>
    intro current own
    exact tame_ok own
  | cons value rest ih =>
    intro current own
    obtain ⟨first, later⟩ := List.forall_mem_cons.mp finite
    rw [best]
    split
    · refine ih later _ ?_
      split
      · exact first
      · exact own
    · exact tame_error _

theorem tame_bestOf (name : String) (wins : Ordering) {values : List Json}
    (finite : ∀ a ∈ values, a.Finite) : Tame (bestOf name wins values) := by
  have kept : ∀ a ∈ present values, a.Finite := fun a member =>
    finite a (List.mem_of_mem_filter member)
  rw [bestOf]
  cases found : present values with
  | nil => exact tame_ok trivial
  | cons value rest =>
    rw [found] at kept
    obtain ⟨first, later⟩ := List.forall_mem_cons.mp kept
    exact tame_best name wins later value first

theorem tame_aggregate (name : String) {values : List Json} (finite : ∀ a ∈ values, a.Finite)
    (groupSize : ℕ) : Tame (aggregate name values groupSize) := by
  rw [aggregate]
  split
  · exact tame_ok (finite_ofInt _)
  · exact tame_totalOf _ _ values
  · exact tame_totalOf _ _ values
  · exact tame_bestOf _ _ finite
  · exact tame_bestOf _ _ finite
  · exact tame_error _

end Functions

/-! ### Columns -/

/-- The numbers in the columns of a record are finite. -/
def Record.Finite (r : Record) : Prop := ∀ field ∈ r.fields, field.2.Finite

namespace Record
variable {r : Record} (finite : r.Finite)

include finite

theorem finite_toRow : (Json.obj r.toRow).Finite := by
  refine Json.finite_obj fun member listed => ?_
  rw [toRow] at listed
  rcases Dict.mem_insertAll listed with system | own
  · simp only [List.mem_cons, List.not_mem_nil, or_false] at system
    rcases system with rfl | rfl | rfl <;> trivial
  · exact finite member own

theorem finite_get? (column : String) : ((r.get? column).getD .null).Finite := by
  rw [get?]
  split
  · trivial
  · split
    · trivial
    · split
      · trivial
      · cases found : Dict.get? r.fields column with
        | none => trivial
        | some value => exact finite _ (Dict.mem_of_get? found)

end Record

theorem Reported.value_mapM {α β : Type} (f : α → Reported β) (items : List α) :
    (items.mapM f).value = items.map fun a => (f a).value := by
  induction items with
  | nil => rw [List.mapM_nil]; rfl
  | cons a rest ih =>
    rw [List.mapM_cons, List.map_cons, ← ih]
    rfl

namespace Expr
variable {scope : Scope}

theorem finite_of_joined {row : Record} (finite : row.Finite) {source : String} {entry : Json}
    (found : joinedEntry? scope row source = some entry) : entry.Finite := by
  rw [Expr.joinedEntry?] at found
  split at found
  · rename_i own
    obtain rfl := Option.some.inj found
    exact finite _ (Dict.mem_of_get? own)
  · obtain ⟨binding, -, other⟩ := Option.bind_eq_some_iff.mp found
    exact finite _ (Dict.mem_of_get? other)

theorem finite_readColumn {row : Record} (finite : row.Finite) (source column : String) :
    (readColumn scope row source column).Finite := by
  rw [readColumn]
  split
  · split
    · rename_i entry found
      have whole := finite_of_joined finite found
      split
      · exact whole
      · cases read : Dict.get? entry column with
        | none => trivial
        | some value =>
          rw [Json.Finite, Json.finiteMembers_iff] at whole
          exact whole _ (Dict.mem_of_get? read)
    · trivial
  · split
    · exact Record.finite_toRow finite
    · exact Record.finite_get? finite column

/-! ### Expressions -/

mutual

/-- The numbers in the literals of an expression are finite. -/
def Finite : Expr → Prop
  | literal value => value.Finite
  | column _ _ => True
  | binary _ left right => Finite left ∧ Finite right
  | comparison _ left right => Finite left ∧ Finite right
  | logical _ left right => Finite left ∧ Finite right
  | not operand => Finite operand
  | negate operand => Finite operand
  | isNull operand _ => Finite operand
  | inList operand items _ => Finite operand ∧ FiniteAll items
  | call _ args => FiniteAll args

/-- The numbers in the literals of expressions are finite. -/
def FiniteAll : List Expr → Prop
  | [] => True
  | e :: es => Finite e ∧ FiniteAll es

end

theorem finiteAll_iff {exprs : List Expr} : FiniteAll exprs ↔ ∀ e ∈ exprs, e.Finite := by
  induction exprs with
  | nil => simp [FiniteAll]
  | cons e es ih => rw [FiniteAll, ih, List.forall_mem_cons]

theorem finite_add (a b : Json) : (add a b).raw.Finite := by
  rw [add]
  split
  · trivial
  · exact Json.finite_ofFloat _

theorem finite_applyArithmetic (op : ArithmeticOp) (x y : Float) :
    (applyArithmetic op x y).raw.Finite := by
  rw [applyArithmetic.eq_def]
  split
  · exact Json.finite_ofFloat _
  · exact Json.finite_ofFloat _
  · exact Json.finite_ofFloat _
  · split
    · trivial
    · exact Json.finite_ofFloat _
  · split
    · trivial
    · exact Json.finite_ofFloat _

theorem finite_evalArithmetic (op : ArithmeticOp) (a b : Json) :
    (evalArithmetic op a b).value.raw.Finite := by
  rw [evalArithmetic]
  split
  · trivial
  · split
    · trivial
    · split
      · exact finite_add a b
      · split
        · trivial
        · exact finite_applyArithmetic op _ _

theorem finite_evalNegate (a : Json) : (evalNegate a).value.raw.Finite := by
  rw [evalNegate]
  split
  · trivial
  · exact Json.finite_ofFloat _
  · trivial

theorem finite_evalCall (func : String) {args : List Json} (finite : ∀ a ∈ args, a.Finite) :
    (evalCall scope func args).value.raw.Finite := by
  rw [evalCall]
  split
  · exact Functions.tame_call scope.now func finite _ ‹_›
  · trivial

theorem finite_evalAggregate (func : String) {values : List Json}
    (finite : ∀ a ∈ values, a.Finite) (groupSize : ℕ) :
    (evalAggregate func values groupSize).value.raw.Finite := by
  rw [evalAggregate]
  split
  · exact Functions.tame_aggregate func finite groupSize _ ‹_›
  · trivial

section
variable {row : Option Record} (rowFinite : ∀ r ∈ row, r.Finite)

include rowFinite in
theorem finite_evalColumn (source column : String) :
    (evalColumn scope row source column).value.raw.Finite := by
  rw [evalColumn]
  split
  · trivial
  · split
    · trivial
    · rename_i r
      exact finite_readColumn (rowFinite r rfl) source column

end

mutual

/-- On rows of data, an expression has a value of data. -/
theorem finite_eval {row : Option Record} {group : Option (List Record)}
    (rowFinite : ∀ r ∈ row, r.Finite) (groupFinite : ∀ members ∈ group, ∀ r ∈ members, r.Finite) :
    ∀ e : Expr, e.Finite → (e.eval scope row group).value.raw.Finite
  | literal value, finite => by
    rw [eval]
    rwa [Finite] at finite
  | column source name, _ => by
    rw [eval]
    exact finite_evalColumn rowFinite source name
  | binary op left right, _ => by
    rw [eval]
    exact finite_evalArithmetic op _ _
  | comparison op left right, _ => by
    rw [eval]
    trivial
  | logical op left right, _ => by
    rw [eval]
    trivial
  | not operand, _ => by
    rw [eval]
    simp only [Reported.bind_eq]
    split <;> trivial
  | negate operand, _ => by
    rw [eval]
    exact finite_evalNegate _
  | isNull operand negated, _ => by
    rw [eval]
    trivial
  | inList operand items negated, _ => by
    rw [eval]
    simp only [Reported.bind_eq]
    split <;> trivial
  | call func args, finite => by
    rw [Finite] at finite
    rw [eval.eq_def]
    dsimp only
    split
    · cases group with
      | none => trivial
      | some members =>
        dsimp only
        split
        · trivial
        · have each : ∀ a ∈ (members.mapM fun r => evalFirst scope r args).value, a.Finite := by
            rw [Reported.value_mapM]
            intro a listed
            obtain ⟨r, member, rfl⟩ := List.mem_map.mp listed
            exact finite_evalFirst (groupFinite members rfl r member) args finite
          exact finite_evalAggregate func each members.length
    · exact finite_evalCall func (finite_evalAll rowFinite groupFinite args finite)

/-- On rows of data, expressions have values of data. -/
theorem finite_evalAll {row : Option Record} {group : Option (List Record)}
    (rowFinite : ∀ r ∈ row, r.Finite) (groupFinite : ∀ members ∈ group, ∀ r ∈ members, r.Finite) :
    ∀ exprs : List Expr, FiniteAll exprs →
      ∀ a ∈ (evalAll scope row group exprs).value, a.Finite
  | [], _ => by
    rw [evalAll]
    rintro a ⟨⟩
  | e :: es, finite => by
    rw [FiniteAll] at finite
    rw [evalAll]
    simp only [Reported.bind_eq, Reported.pure_eq]
    exact List.forall_mem_cons.mpr ⟨finite_eval rowFinite groupFinite e finite.1,
      finite_evalAll rowFinite groupFinite es finite.2⟩

theorem finite_evalFirst {r : Record} (rowFinite : r.Finite) :
    ∀ exprs : List Expr, FiniteAll exprs → (evalFirst scope r exprs).value.Finite
  | [], _ => by
    rw [evalFirst]
    trivial
  | e :: es, finite => by
    rw [FiniteAll] at finite
    rw [evalFirst]
    have own : ∀ r' ∈ some r, r'.Finite := by
      rintro _ ⟨⟩
      exact rowFinite
    have none : ∀ members ∈ (none : Option (List Record)), ∀ r ∈ members, r.Finite := by simp
    exact finite_eval own none e finite.1

end

end Expr

end RecordQuery
