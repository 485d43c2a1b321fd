import RecordQuery.Proofs.FiniteValues
import RecordQuery.Proofs.Sorting

/-!
What aggregates make of the values of a group. A count counts the values that are not null, also
where all of them look like the mark of a record (`Functions.count_eq`). The least and the greatest
value are found by comparing each value with the best one so far; what carries this is that the best
one comes strictly before all values that stand in front of it and is not beaten by those behind it
(`Functions.Leads`). As every value but the first is compared with one of the first one's type, a
value of another type is found wherever it stands. So it does not matter in which order the records
of a group are gone through, up to values that compare as equal (`Expr.aggregates_of_group`).
-/
namespace RecordQuery

/-! ### The name of the count -/

namespace Text

/-- The code points of the letters of `COUNT`. -/
def countCodes : List Nat := [67, 79, 85, 78, 84]

theorem upperRuns_apart : ∀ run ∈ upperRuns, 128 ≤ (run.first + run.offset).toNat ∨
    run.first = run.last ∧ (run.first + run.offset).toNat ∉ countCodes := by
  decide +kernel

theorem upperExpansions_apart :
    ∀ entry ∈ upperExpansions, ∃ code ∈ entry.2, code ∉ countCodes := by
  decide +kernel

theorem code_of_mem_count {n : Nat} (member : Char.ofNat n ∈ "COUNT".toList) : n ∈ countCodes := by
  by_cases valid : n.isValidChar
  · have letters : "COUNT".toList = ['C', 'O', 'U', 'N', 'T'] := by decide +kernel
    have codes : ∀ c ∈ "COUNT".toList, c.toNat ∈ countCodes := by
      rw [letters]
      simp [countCodes]
    have listed := codes _ member
    rwa [toNat_ofNat valid] at listed
  · rw [Char.ofNat, dif_neg valid] at member
    exact absurd member (by decide)

/-- Upper case makes letters of `COUNT` out of ASCII letters only. -/
theorem ascii_of_upperChar {c : Char} (letters : ∀ d ∈ upperChar c, d ∈ "COUNT".toList) :
    c.toNat < 128 := by
  by_contra large
  rw [upperChar, if_neg large] at letters
  cases found : upperExpansions.lookup c.toNat with
  | some codes =>
    rw [found] at letters
    obtain ⟨before, after, entries, -⟩ := List.lookup_eq_some_iff.mp found
    have entry : (c.toNat, codes) ∈ upperExpansions := by simp [entries]
    obtain ⟨code, listed, apart⟩ := upperExpansions_apart _ entry
    exact apart (code_of_mem_count (letters _ (List.mem_map_of_mem listed)))
  | none =>
    rw [found] at letters
    have listed := code_of_mem_count (letters _ (List.mem_singleton.mpr rfl))
    rcases applyRuns_cases upperRuns c.toNat with stays | ⟨run, member, sends⟩
    · rw [stays] at listed
      simp only [countCodes, List.mem_cons, List.not_mem_nil, or_false] at listed
      omega
    · obtain ⟨low, high, -, image⟩ := image?_eq_some sends
      rcases upperRuns_apart run member with above | ⟨single, apart⟩
      · simp only [countCodes, List.mem_cons, List.not_mem_nil, or_false] at listed
        omega
      · have first : c.toNat = run.first := by omega
        rw [← first, image] at apart
        exact apart listed

/-- A name whose upper case is `COUNT` is that word in some case of ASCII letters. -/
theorem lower_of_upper_count {s : String} (named : upper s = "COUNT") :
    s.map Char.toLower = "count" := by
  have letters : s.toList.flatMap upperChar = "COUNT".toList := by
    rw [← named, upper, String.toList_ofList]
  have ascii : ∀ c ∈ s.toList, c.toNat < 128 := by
    intro c member
    refine ascii_of_upperChar fun d listed => ?_
    rw [← letters]
    exact List.mem_flatMap.mpr ⟨c, member, listed⟩
  have upperOnly : s.toList.map Char.toUpper = "COUNT".toList := by
    rw [← letters, List.map_eq_flatMap]
    refine List.flatMap_congr fun c member => ?_
    rw [upperChar, if_pos (ascii c member)]
  have same : ∀ n < 128, (Char.ofNat n).toUpper.toLower = (Char.ofNat n).toLower := by decide
  have lowered : s.toList.map Char.toLower = (s.toList.map Char.toUpper).map Char.toLower := by
    rw [List.map_map]
    refine List.map_congr_left fun c member => ?_
    have back := same c.toNat (ascii c member)
    rw [Char.ofNat_toNat] at back
    exact back.symm
  apply String.toList_injective
  rw [String.toList_map, lowered, upperOnly]
  decide

end Text

/-! ### Counts and sums -/

namespace Functions

/-- The marks of records, if there is one for each, are as many as the values that are not null. -/
theorem count_eq (values : List Json) (groupSize : Nat) :
    count values groupSize = (present values).length := by
  rw [count]
  split
  · rename_i marks
    have all : present values = values := by
      refine List.filter_eq_self.mpr fun value member => ?_
      have mark := List.all_eq_true.mp marks.2 value member
      cases value with
      | null => cases mark
      | _ => rfl
    rw [all, marks.1]
  · rfl

/-- Values have doubles if and only if all of them are numbers. -/
theorem numbers_cases (name : String) (values : List Json) :
    (∀ v ∈ values, v.kind = .number) ∧ numbers name values = .ok (values.map Json.toNumber) ∨
      ∃ v ∈ values, v.kind ≠ .number ∧ numbers name values = .error (.notNumeric name v.kind) := by
  induction values with
  | nil => exact .inl ⟨List.forall_mem_nil _, rfl⟩
  | cons v rest ih =>
    cases v with
    | num n =>
      rcases ih with ⟨kinds, found⟩ | ⟨other, member, kind, found⟩
      · refine .inl ⟨List.forall_mem_cons.mpr ⟨rfl, kinds⟩, ?_⟩
        rw [numbers, found]
        rfl
      · refine .inr ⟨other, List.mem_cons_of_mem _ member, kind, ?_⟩
        rw [numbers, found]
        rfl
    | _ => exact .inr ⟨_, List.mem_cons_self, by simp [Json.kind], rfl⟩

/-- A sum or a mean fails if and only if a value that is not null is no number. -/
theorem totalOf_cases (name : String) (finish : Float → Nat → Float) (values : List Json) :
    (∀ v ∈ present values, v.kind = .number) ∧
        totalOf name finish values = .ok (
          if present values = [] then .null
          else .ofFloat (finish (total ((present values).map Json.toNumber))
            (present values).length)) ∨
      ∃ v ∈ present values, v.kind ≠ .number ∧
        totalOf name finish values = .error (.notNumeric name v.kind) := by
  rcases numbers_cases name (present values) with ⟨kinds, found⟩ | ⟨v, member, kind, found⟩
  · refine .inl ⟨kinds, ?_⟩
    rw [totalOf, found]
    cases present values with
    | nil => rfl
    | cons v rest => simp [bind, Except.bind, pure, Except.pure]
  · refine .inr ⟨v, member, kind, ?_⟩
    rw [totalOf, found]
    rfl

end Functions

/-! ### The least and the greatest value -/

theorem Json.sortOrder_of_kind {a b : Json} (same : a.kind = b.kind) :
    a.sortOrder b = a.order b := if_pos same

namespace Functions

/-- The first of values than which none wins. -/
def foremost (wins : Ordering) (values : List Json) : Option Json :=
  values.find? fun v => values.all fun other => other.order v != wins

/-- A value stands first among those than which none wins: the values before it lose against it, and
those behind it do not win. -/
def Leads (wins : Ordering) (v : Json) (values : List Json) : Prop :=
  ∃ before after, values = before ++ v :: after ∧
    (∀ other ∈ before, v.order other = wins) ∧ ∀ other ∈ after, other.order v ≠ wins

theorem Leads.mem {wins : Ordering} {v : Json} {values : List Json} (leads : Leads wins v values) :
    v ∈ values := by
  obtain ⟨before, after, rfl, -, -⟩ := leads
  exact List.mem_append_right before List.mem_cons_self

theorem order_swap {a b : Json} (kinds : a.kind = b.kind) : b.order a = (a.order b).swap := by
  rw [← Json.sortOrder_of_kind kinds, ← Json.sortOrder_of_kind kinds.symm]
  exact Std.OrientedCmp.eq_swap

section
variable {wins : Ordering} (strict : wins ≠ .eq)
include strict

theorem order_irrefl (a : Json) : a.order a ≠ wins := by
  have level : a.sortOrder a = .eq := Std.ReflCmp.compare_self
  rw [← Json.sortOrder_of_kind rfl, level]
  exact strict.symm

/-- What wins against a value wins against all that do not win against this one. -/
theorem order_of_unbeaten {a b c : Json} (kinds : a.kind = b.kind) (same : c.kind = b.kind)
    (beats : a.order b = wins) (unbeaten : c.order b ≠ wins) : a.order c = wins := by
  rw [← Json.sortOrder_of_kind kinds] at beats
  rw [order_swap same.symm, ← Json.sortOrder_of_kind same.symm] at unbeaten
  rw [← Json.sortOrder_of_kind (kinds.trans same.symm)]
  cases wins with
  | eq => exact absurd rfl strict
  | lt =>
    refine Std.TransCmp.lt_of_lt_of_isLE beats ?_
    cases level : b.sortOrder c <;> simp_all
  | gt =>
    refine Std.TransCmp.gt_of_gt_of_isGE beats ?_
    cases level : b.sortOrder c <;> simp_all

/-- Of two values at most one wins. -/
theorem order_asymm {a b : Json} (kinds : a.kind = b.kind) (beats : a.order b = wins) :
    b.order a ≠ wins := by
  rw [order_swap kinds, beats]
  cases wins with
  | eq => exact absurd rfl strict
  | lt | gt => decide

/-- One step of the search: the next value is the best one so far if it wins against it. -/
theorem Leads.step {current value : Json} {seen : List Json} (leads : Leads wins current seen)
    (kinds : ∀ other ∈ seen, other.kind = current.kind) (same : value.kind = current.kind) :
    Leads wins (if value.order current = wins then value else current) (seen ++ [value]) := by
  obtain ⟨before, after, rfl, beaten, unbeaten⟩ := leads
  split
  · rename_i beats
    refine ⟨before ++ current :: after, [], rfl, fun other member => ?_, List.forall_mem_nil _⟩
    have kind := kinds other member
    refine order_of_unbeaten strict same kind beats ?_
    rcases List.mem_append.mp member with first | later
    · exact order_asymm strict kind.symm (beaten other first)
    · rcases List.mem_cons.mp later with rfl | behind
      · exact order_irrefl strict other
      · exact unbeaten other behind
  · rename_i loses
    refine ⟨before, after ++ [value], by simp, beaten, fun other member => ?_⟩
    rcases List.mem_append.mp member with behind | last
    · exact unbeaten other behind
    · exact List.mem_singleton.mp last ▸ loses

/-- The search goes through values of one type and ends with one that leads them, or it meets a
value of another type. -/
theorem best_cases (name : String) (rest : List Json) : ∀ {current : Json} {seen : List Json},
    Leads wins current seen → (∀ other ∈ seen, other.kind = current.kind) →
      (∀ v ∈ rest, v.kind = current.kind) ∧
          (∃ v, best name wins current rest = .ok v ∧ Leads wins v (seen ++ rest)) ∨
        ∃ v ∈ rest, v.kind ≠ current.kind ∧
          best name wins current rest = .error (.mixedKinds name current.kind v.kind) := by
  induction rest with
  | nil =>
    intro current seen leads kinds
    rw [List.append_nil]
    exact .inl ⟨List.forall_mem_nil _, current, rfl, leads⟩
  | cons value rest ih =>
    intro current seen leads kinds
    rw [best]
    by_cases same : current.kind = value.kind
    · have next := leads.step strict kinds same.symm
      rw [if_pos same]
      generalize chosen : (if value.order current = wins then value else current) = best at next
      have kind : best.kind = current.kind := by
        rw [← chosen]
        split
        · exact same.symm
        · rfl
      have all : ∀ other ∈ seen ++ [value], other.kind = best.kind := by
        intro other member
        rw [kind]
        rcases List.mem_append.mp member with before | last
        · exact kinds other before
        · rw [List.mem_singleton.mp last, same]
      rw [List.append_cons]
      rcases ih next all with ⟨others, found⟩ | ⟨v, member, other, failed⟩
      · rw [kind] at others
        exact .inl ⟨List.forall_mem_cons.mpr ⟨same.symm, others⟩, found⟩
      · rw [kind] at other failed
        exact .inr ⟨v, List.mem_cons_of_mem value member, other, failed⟩
    · rw [if_neg same]
      exact .inr ⟨value, List.mem_cons_self, Ne.symm same, rfl⟩

section
variable {v : Json} {values : List Json} (leads : Leads wins v values)
  (kinds : ∀ a ∈ values, ∀ b ∈ values, a.kind = b.kind)
include leads kinds

theorem Leads.unbeaten {other : Json} (member : other ∈ values) : other.order v ≠ wins := by
  have kind := kinds v leads.mem other member
  obtain ⟨before, after, rfl, beaten, unbeaten⟩ := leads
  rcases List.mem_append.mp member with first | later
  · exact order_asymm strict kind (beaten other first)
  · rcases List.mem_cons.mp later with rfl | behind
    · exact order_irrefl strict other
    · exact unbeaten other behind

/-- The value that leads is the first one than which none wins. -/
theorem Leads.find? : foremost wins values = some v := by
  have unbeaten : ∀ other ∈ values, other.order v ≠ wins := fun _ => leads.unbeaten strict kinds
  obtain ⟨before, after, rfl, beaten, -⟩ := leads
  refine List.find?_eq_some_iff_append.mpr ⟨?_, before, after, rfl, fun other member => ?_⟩
  · exact List.all_eq_true.mpr fun other member => bne_iff_ne.mpr (unbeaten other member)
  · simp [beaten other member]

/-- What leads the same values in another arrangement compares as equal. -/
theorem Leads.order_eq {arranged : List Json} (same : values.Perm arranged) {w : Json}
    (other : Leads wins w arranged) : v.order w = .eq := by
  have mine := leads.mem
  have theirs := same.mem_iff.mpr other.mem
  have kind := kinds v mine w theirs
  have kindsThere : ∀ a ∈ arranged, ∀ b ∈ arranged, a.kind = b.kind := fun a first b second =>
    kinds a (same.mem_iff.mpr first) b (same.mem_iff.mpr second)
  have before := leads.unbeaten strict kinds theirs
  have after := other.unbeaten strict kindsThere (same.mem_iff.mp mine)
  rw [order_swap kind] at before
  cases wins with
  | eq => exact absurd rfl strict
  | lt | gt => cases level : v.order w <;> simp_all

end

/-- The least or the greatest of values: they are all of one type, and it leads them if there are
any; or two of them are of different types. -/
theorem bestOf_cases (name : String) (values : List Json) :
    (∀ a ∈ present values, ∀ b ∈ present values, a.kind = b.kind) ∧
        (present values = [] ∧ bestOf name wins values = .ok .null ∨
          ∃ v, bestOf name wins values = .ok v ∧ Leads wins v (present values)) ∨
      ∃ a ∈ present values, ∃ b ∈ present values, a.kind ≠ b.kind ∧
        bestOf name wins values = .error (.mixedKinds name a.kind b.kind) := by
  rw [bestOf]
  cases found : present values with
  | nil => exact .inl ⟨fun a none => absurd none List.not_mem_nil, .inl ⟨rfl, rfl⟩⟩
  | cons first rest =>
    have alone : Leads wins first [first] :=
      ⟨[], [], rfl, List.forall_mem_nil _, List.forall_mem_nil _⟩
    have kind : ∀ other ∈ [first], other.kind = first.kind := fun other member =>
      congrArg Json.kind (List.mem_singleton.mp member)
    rcases best_cases strict name rest alone kind with
      ⟨kinds, v, best, leads⟩ | ⟨v, member, other, failed⟩
    · have all : ∀ a ∈ first :: rest, a.kind = first.kind := List.forall_mem_cons.mpr ⟨rfl, kinds⟩
      exact .inl ⟨fun a one b two => (all a one).trans (all b two).symm, .inr ⟨v, best, leads⟩⟩
    · exact .inr ⟨first, List.mem_cons_self, v, List.mem_cons_of_mem first member, Ne.symm other,
        failed⟩

end

/-! ### Outcomes -/

/-- What an aggregate makes of a sum and of the number of values in it: a sum or a mean. -/
def Totals (name : String) (finish : Float → Nat → Float) : Prop :=
  Text.upper name = "SUM" ∧ finish = (fun sum _ => sum) ∨
    Text.upper name = "AVG" ∧ finish = fun sum size => sum / Float.ofNat size

/-- The end of the order that an aggregate looks for: the least value or the greatest one. -/
def Seeks (name : String) (wins : Ordering) : Prop :=
  Text.upper name = "MIN" ∧ wins = .lt ∨ Text.upper name = "MAX" ∧ wins = .gt

theorem Seeks.strict {name : String} {wins : Ordering} (seeks : Seeks name wins) : wins ≠ .eq := by
  rcases seeks with ⟨-, rfl⟩ | ⟨-, rfl⟩ <;> decide

section
variable {name : String}

theorem aggregate_count (named : Text.upper name = "COUNT") (values : List Json) (size : Nat) :
    aggregate name values size = .ok (.ofNat (present values).length) := by
  rw [← count_eq values size, aggregate, named]
  rfl

/-- Sums and means fail if and only if a value that is not null is no number. -/
theorem aggregate_totals {finish : Float → Nat → Float} (totals : Totals name finish)
    (values : List Json) (size : Nat) :
    ((∃ e, aggregate name values size = .error e) ↔ ∃ v ∈ present values, v.kind ≠ .number) ∧
      ∀ v, aggregate name values size = .ok v → v =
        if present values = [] then .null
        else .ofFloat (finish (total ((present values).map Json.toNumber))
          (present values).length) := by
  have same : aggregate name values size = totalOf (Text.upper name) finish values := by
    rcases totals with ⟨named, rfl⟩ | ⟨named, rfl⟩ <;> rw [aggregate, named] <;> rfl
  rw [same]
  rcases totalOf_cases (Text.upper name) finish values with
    ⟨kinds, found⟩ | ⟨v, member, kind, failed⟩
  · rw [found]
    refine ⟨⟨?_, ?_⟩, fun v yields => (Except.ok.inj yields).symm⟩
    · rintro ⟨e, none⟩
      cases none
    · rintro ⟨v, member, kind⟩
      exact absurd (kinds v member) kind
  · rw [failed]
    refine ⟨⟨fun _ => ⟨v, member, kind⟩, fun _ => ⟨_, rfl⟩⟩, fun v none => ?_⟩
    cases none

/-- The search for an end of the order fails if and only if two values that are not null are of
different types. Else it yields null where there is no value, and a value that leads the others. -/
theorem aggregate_seeks {wins : Ordering} (seeks : Seeks name wins) (values : List Json)
    (size : Nat) :
    ((∃ e, aggregate name values size = .error e) ↔
        ∃ a ∈ present values, ∃ b ∈ present values, a.kind ≠ b.kind) ∧
      ∀ v, aggregate name values size = .ok v →
        present values = [] ∧ v = .null ∨ Leads wins v (present values) := by
  have same : aggregate name values size = bestOf (Text.upper name) wins values := by
    rcases seeks with ⟨named, rfl⟩ | ⟨named, rfl⟩ <;> rw [aggregate, named] <;> rfl
  rw [same]
  rcases bestOf_cases seeks.strict (Text.upper name) values with
    ⟨kinds, found⟩ | ⟨a, first, b, second, apart, failed⟩
  · have ends : ∃ v, bestOf (Text.upper name) wins values = .ok v ∧
        (present values = [] ∧ v = .null ∨ Leads wins v (present values)) := by
      rcases found with ⟨none, null⟩ | ⟨v, best, leads⟩
      · exact ⟨.null, null, .inl ⟨none, rfl⟩⟩
      · exact ⟨v, best, .inr leads⟩
    obtain ⟨v, yields, settled⟩ := ends
    rw [yields]
    refine ⟨⟨?_, ?_⟩, fun w equal => Except.ok.inj equal ▸ settled⟩
    · rintro ⟨e, none⟩
      cases none
    · rintro ⟨a, first, b, second, apart⟩
      exact absurd (kinds a first b second) apart
  · rw [failed]
    refine ⟨⟨fun _ => ⟨a, first, b, second, apart⟩, fun _ => ⟨_, rfl⟩⟩, fun v none => ?_⟩
    cases none

/-- The search yields null if and only if there is no value that is not null. -/
theorem aggregate_eq_null_iff {wins : Ordering} (seeks : Seeks name wins) (values : List Json)
    (size : Nat) : aggregate name values size = .ok .null ↔ present values = [] := by
  obtain ⟨mixed, settled⟩ := aggregate_seeks seeks values size
  constructor
  · intro null
    rcases settled .null null with ⟨none, -⟩ | leads
    · exact none
    · have shown := (List.mem_filter.mp leads.mem).2
      cases shown
  · intro none
    rw [none] at mixed settled
    cases yields : aggregate name values size with
    | error e =>
      obtain ⟨a, listed, -⟩ := mixed.mp ⟨e, yields⟩
      exact absurd listed List.not_mem_nil
    | ok v =>
      rcases settled v yields with ⟨-, rfl⟩ | leads
      · rfl
      · exact absurd leads.mem List.not_mem_nil

/-- What the search yields among some values is the first of them than which none wins. -/
theorem foremost_of_aggregate {wins : Ordering} (seeks : Seeks name wins) {values : List Json}
    {size : Nat} {v : Json} (yields : aggregate name values size = .ok v)
    (some : present values ≠ []) : foremost wins (present values) = .some v := by
  obtain ⟨mixed, settled⟩ := aggregate_seeks seeks values size
  have leads := (settled v yields).resolve_left fun none => some none.1
  refine leads.find? seeks.strict fun a first b second => ?_
  by_contra apart
  obtain ⟨e, failed⟩ := mixed.mpr ⟨a, first, b, second, apart⟩
  rw [yields] at failed
  cases failed

end

section
variable {name : String} {values arranged : List Json} (same : values.Perm arranged) (size : Nat)
include same

/-- The ends of the order of the same values in another arrangement compare as equal. -/
theorem order_eq_of_arranged {wins : Ordering} (seeks : Seeks name wins) {v w : Json}
    (mine : aggregate name values size = .ok v) (theirs : aggregate name arranged size = .ok w) :
    v.kind = w.kind ∧ v.order w = .eq := by
  have found : (present values).Perm (present arranged) := same.filter _
  obtain ⟨mixed, settled⟩ := aggregate_seeks seeks values size
  obtain ⟨-, settledThere⟩ := aggregate_seeks seeks arranged size
  have kinds : ∀ a ∈ present values, ∀ b ∈ present values, a.kind = b.kind := by
    intro a first b second
    by_contra apart
    obtain ⟨e, failed⟩ := mixed.mpr ⟨a, first, b, second, apart⟩
    rw [mine] at failed
    cases failed
  rcases settled v mine with ⟨none, rfl⟩ | leads
  · rw [none] at found
    rcases settledThere w theirs with ⟨-, rfl⟩ | leadsThere
    · exact ⟨rfl, by decide⟩
    · exact absurd (found.mem_iff.mpr leadsThere.mem) List.not_mem_nil
  · rcases settledThere w theirs with ⟨none, rfl⟩ | leadsThere
    · rw [none] at found
      exact absurd (found.mem_iff.mp leads.mem) List.not_mem_nil
    · exact ⟨kinds v leads.mem w (found.mem_iff.mpr leadsThere.mem),
        leads.order_eq seeks.strict kinds found leadsThere⟩

/-- In another arrangement of the values an aggregate fails or not as before. -/
theorem fails_iff_of_arranged
    (named : Text.upper name ∈ ["COUNT", "SUM", "AVG", "MIN", "MAX"]) :
    (∃ e, aggregate name values size = .error e) ↔
      ∃ e, aggregate name arranged size = .error e := by
  have found : (present values).Perm (present arranged) := same.filter _
  have totals {finish : Float → Nat → Float} (totals : Totals name finish) :=
    (aggregate_totals totals values size).1.trans
      ((by simp only [found.mem_iff] : _ ↔ _).trans (aggregate_totals totals arranged size).1.symm)
  have seeks {wins : Ordering} (seeks : Seeks name wins) :=
    (aggregate_seeks seeks values size).1.trans
      ((by simp only [found.mem_iff] : _ ↔ _).trans (aggregate_seeks seeks arranged size).1.symm)
  simp only [List.mem_cons, List.not_mem_nil, or_false] at named
  rcases named with count | sum | mean | least | greatest
  · rw [aggregate_count count, aggregate_count count, found.length_eq]
  · exact totals (.inl ⟨sum, rfl⟩)
  · exact totals (.inr ⟨mean, rfl⟩)
  · exact seeks (.inl ⟨least, rfl⟩)
  · exact seeks (.inr ⟨greatest, rfl⟩)

/-- What a search shows compares as equal then, also where it fails and shows nothing. -/
theorem shown_order_of_arranged (named : Text.upper name ∈ ["COUNT", "SUM", "AVG", "MIN", "MAX"])
    {wins : Ordering} (seeks : Seeks name wins) :
    let mine := (aggregate name values size).toOption.getD .null
    let theirs := (aggregate name arranged size).toOption.getD .null
    mine.kind = theirs.kind ∧ mine.order theirs = .eq := by
  have fails := fails_iff_of_arranged same size named
  cases yields : aggregate name values size with
  | error e =>
    obtain ⟨other, failed⟩ := fails.mp ⟨e, yields⟩
    have nulls : Json.null.order .null = .eq := by decide
    rw [failed]
    exact ⟨rfl, nulls⟩
  | ok v =>
    cases yieldsThere : aggregate name arranged size with
    | error e =>
      obtain ⟨other, failed⟩ := fails.mpr ⟨e, yieldsThere⟩
      rw [yields] at failed
      cases failed
    | ok w => exact order_eq_of_arranged same size seeks yields yieldsThere

end

end Functions

/-! ### Aggregates over groups -/

theorem Reported.faults_mapM {α β : Type} (f : α → Reported β) (items : List α) :
    (items.mapM f).faults = items.flatMap fun a => (f a).faults := by
  induction items with
  | nil => rw [List.mapM_nil]; rfl
  | cons a rest ih =>
    rw [List.mapM_cons, List.flatMap_cons, ← ih, ← List.append_nil (rest.mapM f).faults]
    rfl

namespace Expr

/-- The values that the argument of an aggregate has on the records of a group; a record without an
argument counts as such. -/
def argumentValues (scope : Scope) (args : List Expr) (members : List Record) : List Json :=
  members.map fun r => (evalFirst scope r args).value

/-- The faults that are met while the argument of an aggregate is evaluated. -/
def argumentFaults (scope : Scope) (args : List Expr) (members : List Record) : List Fault :=
  members.flatMap fun r => (evalFirst scope r args).faults

theorem argumentFaults_eq_nil_iff {scope : Scope} {args : List Expr} {members others : List Record}
    (arranged : members.Perm others) :
    argumentFaults scope args members = [] ↔ argumentFaults scope args others = [] := by
  rw [argumentFaults, argumentFaults, ← List.perm_nil, ← List.perm_nil]
  exact (arranged.flatMap_right _).congr_left _

/-- Why an aggregate is refused, if it is. -/
def refusals (func : String) : Functions.Outcome Json → List Fault
  | .ok _ => []
  | .error e => [.refusedCall func e]

theorem refusals_eq_nil_iff (func : String) (outcome : Functions.Outcome Json) :
    refusals func outcome = [] ↔ ¬ ∃ e, outcome = .error e := by
  cases outcome <;> simp [refusals]

section
variable {func : String} {args : List Expr}

theorem eval_aggregate (aggregates : Functions.isAggregate func args.length = true)
    (fits : aggregateArity? func args.length = none) (scope : Scope) (row : Option Record)
    (members : List Record) :
    let outcome := Functions.aggregate func (argumentValues scope args members) members.length
    (call func args).eval scope row (some members) =
      ⟨.of (outcome.toOption.getD .null),
        argumentFaults scope args members ++ refusals func outcome⟩ := by
  rw [eval.eq_def]
  dsimp only
  rw [if_pos aggregates, fits, Reported.bind_eq, Reported.value_mapM, Reported.faults_mapM,
    evalAggregate, argumentValues, argumentFaults]
  cases Functions.aggregate func (members.map fun r => (evalFirst scope r args).value)
    members.length <;> rfl

variable (named : Text.upper func ∈ ["COUNT", "SUM", "AVG", "MIN", "MAX"])
  (arity : args.length = 1 ∨ args = [] ∧ Text.upper func = "COUNT")
include named arity

theorem isAggregate_of_named : Functions.isAggregate func args.length = true := by
  simp only [List.mem_cons, List.not_mem_nil, or_false] at named
  rw [Functions.isAggregate]
  rcases arity with one | ⟨rfl, count⟩
  · rw [one]
    rcases named with name | name | name | name | name <;> rw [name] <;> rfl
  · rw [count]
    rfl

omit named in
theorem aggregateArity?_of_named : aggregateArity? func args.length = none := by
  rcases arity with one | ⟨rfl, count⟩
  · simp [aggregateArity?, one]
  · simp [aggregateArity?, Text.lower_of_upper_count count]

end

theorem present_argumentValues_nil (scope : Scope) (members : List Record) :
    Functions.present (argumentValues scope [] members) = argumentValues scope [] members := by
  refine List.filter_eq_self.mpr fun value member => ?_
  obtain ⟨r, -, rfl⟩ := List.mem_map.mp member
  rw [evalFirst]
  rfl

/-- Aggregates over a group do what they say, and the order of the records does not matter. A call
is evaluated by folding the values that its argument has on the records, and its faults are those of
the argument and the refusal of the aggregate. A count is that of the values that are not null, and
without an argument that of the records. A sum or a mean is refused if and only if a value that is
neither null nor a number is among them, and it is null if there is none. The least and the greatest
value are refused if and only if two values are of different types, they are null if and only if
there is none, and else it is the first of the values than which no other one is less or greater. On
the same records in another order the call has faults or not, and is refused or not, as before; a
count is the same, and the least and the greatest value compare as equal to what they were. -/
theorem aggregates_of_group {func : String} {args : List Expr}
    (named : Text.upper func ∈ ["COUNT", "SUM", "AVG", "MIN", "MAX"])
    (arity : args.length = 1 ∨ args = [] ∧ Text.upper func = "COUNT") (scope : Scope)
    (members : List Record) :
    let outcome (group : List Record) :=
      Functions.aggregate func (argumentValues scope args group) group.length
    let found := Functions.present (argumentValues scope args members)
    (∀ row, (call func args).eval scope row (some members) =
      ⟨.of ((outcome members).toOption.getD .null),
        argumentFaults scope args members ++ refusals func (outcome members)⟩) ∧
    (Text.upper func = "COUNT" → outcome members = .ok (.ofNat found.length) ∧
      (args = [] → found.length = members.length)) ∧
    (∀ finish, Functions.Totals func finish →
      ((∃ e, outcome members = .error e) ↔ ∃ v ∈ found, v.kind ≠ .number) ∧
      ∀ v, outcome members = .ok v → v =
        if found = [] then .null
        else .ofFloat (finish (Functions.total (found.map Json.toNumber)) found.length)) ∧
    (∀ wins, Functions.Seeks func wins →
      ((∃ e, outcome members = .error e) ↔ ∃ a ∈ found, ∃ b ∈ found, a.kind ≠ b.kind) ∧
      (outcome members = .ok .null ↔ found = []) ∧
      ∀ v, outcome members = .ok v → found ≠ [] → Functions.foremost wins found = some v) ∧
    ∀ others row row', members.Perm others →
      let mine := (call func args).eval scope row (some members)
      let theirs := (call func args).eval scope row' (some others)
      (mine.faults = [] ↔ theirs.faults = []) ∧
      ((∃ e, outcome members = .error e) ↔ ∃ e, outcome others = .error e) ∧
      (Text.upper func = "COUNT" → mine.value.raw = theirs.value.raw) ∧
      ∀ wins, Functions.Seeks func wins → mine.value.raw.kind = theirs.value.raw.kind ∧
        mine.value.raw.order theirs.value.raw = .eq := by
  have aggregates := isAggregate_of_named named arity
  have fits := aggregateArity?_of_named arity
  intro outcome found
  refine ⟨fun row => eval_aggregate aggregates fits scope row members, fun count => ⟨?_, ?_⟩,
    fun finish totals => Functions.aggregate_totals totals _ _, fun wins seeks => ⟨?_, ?_, ?_⟩, ?_⟩
  · exact Functions.aggregate_count count _ _
  · rintro rfl
    change (Functions.present (argumentValues scope [] members)).length = _
    rw [present_argumentValues_nil, argumentValues, List.length_map]
  · exact (Functions.aggregate_seeks seeks _ _).1
  · exact Functions.aggregate_eq_null_iff seeks _ _
  · exact fun v yields some => Functions.foremost_of_aggregate seeks yields some
  · intro others row row' arranged mine theirs
    have values : (argumentValues scope args members).Perm (argumentValues scope args others) :=
      arranged.map _
    have size : others.length = members.length := arranged.length_eq.symm
    have shown : mine = _ := eval_aggregate aggregates fits scope row members
    have shownThere : theirs = _ := eval_aggregate aggregates fits scope row' others
    have fails := Functions.fails_iff_of_arranged values members.length named
    rw [shown, shownThere]
    dsimp only [outcome]
    rw [size]
    refine ⟨?_, fails, fun count => ?_, fun wins seeks => ?_⟩
    · rw [List.append_eq_nil_iff, List.append_eq_nil_iff, refusals_eq_nil_iff, refusals_eq_nil_iff,
        fails, argumentFaults_eq_nil_iff arranged]
    · have counted : (Functions.present (argumentValues scope args members)).length =
          (Functions.present (argumentValues scope args others)).length :=
        (values.filter _).length_eq
      rw [Functions.aggregate_count count, Functions.aggregate_count count, counted]
    · exact Functions.shown_order_of_arranged values members.length named seeks

/-- Marks of which two have the greatest value, written in two ways. -/
def tiedMarks : List Record :=
  [Select.mark "a" .null, Select.mark "b" (.ofNat 2), Select.mark "c" (.num (.float 2.0)),
    Select.mark "d" (.ofNat 1)]

theorem aggregates_of_group_tiedMarks :
    Text.upper "Max" ∈ ["COUNT", "SUM", "AVG", "MIN", "MAX"] ∧
    [ref "marks" "value"].length = 1 ∧ tiedMarks.Perm tiedMarks.reverse ∧
    let greatest (group : List Record) :=
      (call "Max" [ref "marks" "value"]).eval Select.marksContext.scope none (some group)
    (greatest tiedMarks).value.raw == .ofNat 2 ∧
      (greatest tiedMarks.reverse).value.raw == .num (.float 2.0) ∧
      (greatest tiedMarks).value.raw.order (greatest tiedMarks.reverse).value.raw = .eq := by
  have named : Text.upper "Max" ∈ ["COUNT", "SUM", "AVG", "MIN", "MAX"] := by decide +kernel
  have seeks : Functions.Seeks "Max" .gt := .inr ⟨by decide +kernel, rfl⟩
  have arranged : tiedMarks.Perm tiedMarks.reverse := (List.reverse_perm tiedMarks).symm
  have single : [ref "marks" "value"].length = 1 := rfl
  obtain ⟨-, -, -, -, others⟩ :=
    aggregates_of_group named (.inl single) Select.marksContext.scope tiedMarks
  obtain ⟨-, -, -, same⟩ := others tiedMarks.reverse none none arranged
  refine ⟨named, single, arranged, ?_, ?_, (same .gt seeks).2⟩
  · decide +kernel
  · decide +kernel

end Expr
end RecordQuery
