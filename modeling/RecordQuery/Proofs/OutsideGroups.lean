import RecordQuery.Proofs.DistinctProblems
import RecordQuery.Proofs.Evaluation
import RecordQuery.Proofs.NumberTexts
import RecordQuery.Proofs.Walks

/-!
Aggregates that are called outside of a group. Evaluation decides at each call whether there is a
group, and there is none in the argument of an aggregate, which is evaluated on one record. So an
expression reports an aggregate outside of a group only if it contains one and there is no group, or
if one aggregate is called below another (`Expr.grouped_eval`). A query that contains an aggregate
in a projection evaluates all projections on groups, and otherwise there is none to be reported; so
no projection reports one unless its aggregates are nested (`Expr.walks_complete`).
-/
namespace RecordQuery

/-! ### Faults -/

/-- No aggregate has been called outside of a group. -/
def Reported.Grouped {α : Type} (x : Reported α) : Prop :=
  ∀ func, Fault.aggregateOutsideGroup func ∉ x.faults

namespace Reported
variable {α β : Type}

theorem grouped_pure (a : α) : Grouped (pure a) := fun _ => List.not_mem_nil

theorem grouped_fault {f : Fault} (other : ∀ func, f ≠ .aggregateOutsideGroup func) (a : α) :
    (fault f a).Grouped := by
  intro func listed
  exact other func (List.mem_singleton.mp listed).symm

theorem Grouped.bind {x : Reported α} {f : α → Reported β} (first : x.Grouped)
    (second : (f x.value).Grouped) : (x >>= f).Grouped := by
  intro func listed
  exact (List.mem_append.mp listed).elim (first func) (second func)

theorem Grouped.mapM {f : α → Reported β} {items : List α} (each : ∀ a ∈ items, (f a).Grouped) :
    (items.mapM f).Grouped := by
  induction items with
  | nil => rw [List.mapM_nil]; exact grouped_pure []
  | cons a rest ih =>
    rw [List.mapM_cons]
    refine (each a List.mem_cons_self).bind (Grouped.bind ?_ (grouped_pure _))
    exact ih fun other member => each other (List.mem_cons_of_mem a member)

end Reported

namespace Expr
open Reported (grouped_pure grouped_fault)

theorem grouped_evalColumn (scope : Scope) (row : Option Record) (source name : String) :
    (evalColumn scope row source name).Grouped := by
  intro func listed
  rw [faults_evalColumn, Option.mem_toList] at listed
  cases isNameFault_of_misnamed listed

theorem grouped_evalArithmetic (op : ArithmeticOp) (a b : Json) :
    (evalArithmetic op a b).Grouped := by
  rw [evalArithmetic]
  split
  · exact grouped_pure _
  · split
    · exact grouped_fault (by simp) _
    · split
      · exact grouped_pure _
      · split
        · exact grouped_fault (by simp) _
        · exact grouped_pure _

theorem grouped_evalComparison (scope : Scope) (op : ComparisonOp) (a b : Json) :
    (evalComparison scope op a b).Grouped := by
  rw [evalComparison]
  split
  · exact grouped_pure _
  · split
    · exact grouped_pure _
    · split
      · exact grouped_fault (by simp) _
      · split
        · split
          · exact grouped_pure _
          · exact grouped_fault (by simp) _
        · exact grouped_pure _

theorem grouped_evalNegate (a : Json) : (evalNegate a).Grouped := by
  rw [evalNegate]
  split
  · exact grouped_pure _
  · exact grouped_pure _
  · exact grouped_fault (by simp) _

theorem grouped_evalCall (scope : Scope) (func : String) (args : List Json) :
    (evalCall scope func args).Grouped := by
  rw [evalCall]
  split
  · exact grouped_pure _
  · exact grouped_fault (by simp) _

theorem grouped_evalAggregate (func : String) (values : List Json) (size : Nat) :
    (evalAggregate func values size).Grouped := by
  rw [evalAggregate]
  split
  · exact grouped_pure _
  · exact grouped_fault (by simp) _

theorem grouped_evalAll {scope : Scope} {row : Option Record} {group : Option (List Record)}
    {es : List Expr} (each : ∀ e ∈ es, (e.eval scope row group).Grouped) :
    (evalAll scope row group es).Grouped := by
  induction es with
  | nil => rw [evalAll]; exact grouped_pure []
  | cons e rest ih =>
    rw [evalAll]
    refine (each e List.mem_cons_self).bind (Reported.Grouped.bind ?_ (grouped_pure _))
    exact ih fun other member => each other (List.mem_cons_of_mem e member)

/-! ### Expressions -/

/-- An aggregate is called in the argument of another one. -/
def NestsAggregates (e : Expr) : Prop := ∃ place outer below inner,
  node? place e = some outer ∧ outer.isAggregateCall = true ∧
    below ≠ [] ∧ node? (place ++ below) e = some inner ∧ inner.isAggregateCall = true

theorem node?_of_mem_children {e part : Expr} (member : part ∈ e.children) :
    ∃ i, ∀ rest, node? (i :: rest) e = node? rest part := by
  obtain ⟨i, here⟩ := List.mem_iff_getElem?.mp member
  exact ⟨i, fun rest => by rw [node?, here]; rfl⟩

theorem nestsAggregates_iff (e : Expr) :
    e.NestsAggregates ↔
      (e.isAggregateCall = true ∧ ∃ part ∈ e.children, part.containsAggregate = true) ∨
        ∃ part ∈ e.children, part.NestsAggregates := by
  constructor
  · rintro ⟨_ | ⟨i, place⟩, outer, below, inner, found, calls, deeper, also, again⟩
    · obtain rfl := Option.some.inj found
      cases below with
      | nil => exact absurd rfl deeper
      | cons i rest =>
        obtain ⟨part, here, under⟩ := Option.bind_eq_some_iff.mp also
        refine .inl ⟨calls, part, List.mem_of_getElem? here, ?_⟩
        exact (containsAggregate_iff part).mpr ⟨rest, inner, under, again⟩
    · obtain ⟨part, here, under⟩ := Option.bind_eq_some_iff.mp found
      rw [List.cons_append, node?, here] at also
      exact .inr ⟨part, List.mem_of_getElem? here,
        place, outer, below, inner, under, calls, deeper, also, again⟩
  · rintro (⟨calls, part, member, contains⟩ | ⟨part, member, nests⟩)
    · obtain ⟨i, leads⟩ := node?_of_mem_children member
      obtain ⟨place, inner, found, again⟩ := (containsAggregate_iff part).mp contains
      refine ⟨[], e, i :: place, inner, rfl, calls, List.cons_ne_nil i place, ?_, again⟩
      rw [List.nil_append, leads, found]
    · obtain ⟨i, leads⟩ := node?_of_mem_children member
      obtain ⟨place, outer, below, inner, found, calls, deeper, also, again⟩ := nests
      refine ⟨i :: place, outer, below, inner, ?_, calls, deeper, ?_, again⟩
      · rw [leads, found]
      · rw [List.cons_append, leads, also]

/-- Either there is no aggregate, or there is a group and no aggregate below another one. -/
def Settled (group : Option (List Record)) (e : Expr) : Prop :=
  e.containsAggregate = false ∨ group ≠ none ∧ ¬ e.NestsAggregates

theorem Settled.of_part {group : Option (List Record)} {e part : Expr} (settled : e.Settled group)
    (member : part ∈ e.children) : part.Settled group := by
  rcases settled with free | ⟨grouped, apart⟩
  · exact .inl (free_of_mem_children free member)
  · exact .inr ⟨grouped, fun nests =>
      apart ((nestsAggregates_iff e).mpr (.inr ⟨part, member, nests⟩))⟩

/-- An aggregate is called in a group, and none is called in its argument. -/
theorem Settled.of_call {group : Option (List Record)} {e : Expr} (settled : e.Settled group)
    (calls : e.isAggregateCall = true) :
    group ≠ none ∧ ∀ part ∈ e.children, part.containsAggregate = false := by
  rcases settled with free | ⟨grouped, apart⟩
  · rw [containsAggregate_eq, calls, Bool.true_or] at free
    cases free
  · refine ⟨grouped, fun part member => Bool.eq_false_iff.mpr fun contains => apart ?_⟩
    exact (nestsAggregates_iff e).mpr (.inl ⟨calls, part, member, contains⟩)

/-- No aggregate is met outside of a group, unless there is no group or one is called below another
one. -/
theorem grouped_eval (scope : Scope) (e : Expr) :
    ∀ (row : Option Record) {group : Option (List Record)}, e.Settled group →
      (e.eval scope row group).Grouped := by
  induction e using induction_on_children with
  | step e ih =>
    intro row group settled
    have part {p : Expr} (member : p ∈ e.children) : (p.eval scope row group).Grouped :=
      ih p member row (settled.of_part member)
    cases e with
    | literal value => rw [eval]; exact grouped_pure _
    | column source name => rw [eval]; exact grouped_evalColumn scope row source name
    | binary op left right =>
      rw [eval]
      refine (part (by simp [children])).bind (Reported.Grouped.bind (part (by simp [children])) ?_)
      exact grouped_evalArithmetic op _ _
    | comparison op left right =>
      rw [eval]
      refine (part (by simp [children])).bind (Reported.Grouped.bind (part (by simp [children])) ?_)
      exact (grouped_evalComparison scope op _ _).bind (grouped_pure _)
    | logical op left right =>
      rw [eval]
      refine (part (by simp [children])).bind (Reported.Grouped.bind (part (by simp [children])) ?_)
      exact grouped_pure _
    | not operand =>
      rw [eval]
      exact (part (by simp [children])).bind (grouped_pure _)
    | negate operand =>
      rw [eval]
      exact (part (by simp [children])).bind (grouped_evalNegate _)
    | isNull operand negated =>
      rw [eval]
      exact (part (by simp [children])).bind (grouped_pure _)
    | inList operand items negated =>
      rw [eval]
      refine (part (by simp [children])).bind (Reported.Grouped.bind ?_ (grouped_pure _))
      exact grouped_evalAll fun item member => part (by simp [children, member])
    | call func args =>
      rw [eval.eq_def]
      dsimp only
      split
      · rename_i calls
        obtain ⟨grouped, free⟩ := settled.of_call calls
        cases group with
        | none => exact absurd rfl grouped
        | some members =>
          dsimp only
          split
          · exact grouped_fault (by simp) _
          · refine Reported.Grouped.bind (.mapM fun r _ => ?_) (grouped_evalAggregate func _ _)
            -- The argument is evaluated on one record, where there is no group.
            cases args with
            | nil => rw [evalFirst]; exact grouped_pure _
            | cons arg rest =>
              rw [evalFirst]
              have member : arg ∈ (call func (arg :: rest)).children := List.mem_cons_self
              exact (ih arg member (some r) (.inl (free arg member))).bind (grouped_pure _)
      · refine (grouped_evalAll fun arg member => part member).bind ?_
        exact grouped_evalCall scope func _

end Expr

/-! ### Projections -/

/-- What is reported once is one of the problems, if it is added at all. -/
theorem Log.Reports.adds {α : Type} {x : Log α} {problems : List ValidationError}
    {P : ValidationError → Prop} (reports : x.Reports problems) (each : ∀ e ∈ problems, P e) :
    x.Adds P := by
  have added : ∀ errors, ∃ added, reportAll errors problems = errors ++ added ∧
      ∀ e ∈ added, P e := by
    clear reports
    induction problems with
    | nil => exact fun errors => ⟨[], (List.append_nil errors).symm, List.forall_mem_nil P⟩
    | cons first rest ih =>
      intro errors
      obtain ⟨one, once, same⟩ := reportOnce_append errors first
      obtain ⟨more, all, others⟩ :=
        ih (fun e member => each e (List.mem_cons_of_mem first member)) (reportOnce errors first)
      refine ⟨one ++ more, ?_, fun e listed => ?_⟩
      · rw [← List.append_assoc, ← once]
        exact all
      · rcases List.mem_append.mp listed with here | later
        · exact same e here ▸ each first List.mem_cons_self
        · exact others e later
  intro errors
  rw [reports errors]
  exact added errors

/-- The index of an item ends at the bracket, so paths inside items tell the items. -/
theorem itemPath_append_cancel {list rest more : String} {i k : Nat}
    (same : itemPath list i ++ rest = itemPath list k ++ more) : i = k ∧ rest = more := by
  have texts := congrArg String.toList same
  simp only [itemPath, String.toList_append, List.append_assoc, List.append_cancel_left_eq] at texts
  have digits (n : Nat) : (toString n).toList = Nat.toDigits 10 n := Nat.toList_repr
  have numeral (n : Nat) : ∀ c ∈ (toString n).toList, c.isDigit = true := by
    intro c listed
    rw [digits] at listed
    exact Nat.isDigit_of_mem_toDigits (by decide) (by decide) listed
  have ends (cs : List Char) : ∀ c ∈ ("]".toList ++ cs).head?, c.isDigit = false := by
    rintro c ⟨⟩
    decide
  obtain ⟨index, behind⟩ :=
    Decimal.append_inj_of_ends (numeral i) (numeral k) (ends _) (ends _) texts
  rw [digits, digits] at index
  have value := congrArg (Nat.ofDigitChars 10 · 0) index
  simp only [Nat.ofDigitChars_ten_toDigits] at value
  exact ⟨value, String.toList_inj.mp (List.append_cancel_left behind)⟩

namespace Fault

/-- An error tells whether its fault is an aggregate outside of a group. -/
theorem eq_of_error {f : Fault} {func : String} {clause : String}
    (same : f.error.within clause = (aggregateOutsideGroup func).error.within clause) :
    ∃ other, f = .aggregateOutsideGroup other := by
  have told := congrArg ValidationError.suggestion same
  -- Other faults suggest nothing, or something that begins with another letter.
  have first {text rest : String} (long : 1 ≤ text.toList.length)
      (suggested : some (text ++ rest) = some "Use aggregates in SELECT projections") :
      text.toList.take 1 = ['U'] := by
    rw [← take_append long rest, Option.some.inj suggested]
    decide
  cases f with
  | aggregateOutsideGroup other => exact ⟨other, rfl⟩
  | ambiguousSource _ _ _ | unknownTable _ _ _ | unknownColumn _ _ _ _ =>
    exact absurd (first (by decide) told) (by decide)
  | _ => cases told

end Fault

namespace Select

/-- The error of an aggregate that a projection calls outside of a group. -/
def outsideGroup (func : String) (index : Nat) : ValidationError :=
  (Fault.aggregateOutsideGroup func).error.within (itemPath "select.projections" index)

theorem outsideGroup_path (func : String) (index : Nat) :
    (outsideGroup func index).path =
      itemPath "select.projections" index ++ ("." ++ Expr.callLabel func) := by
  rw [outsideGroup, ValidationError.inside_within _ (Fault.error_path_ne_empty _),
    String.append_assoc]
  rfl

theorem outsideGroup_opening (func : String) (index : Nat) :
    (outsideGroup func index).path.toList.take 8 =
      ['s', 'e', 'l', 'e', 'c', 't', '.', 'p'] := by
  rw [outsideGroup_path, take_itemPath_append (by decide)]
  decide

/-- What is evaluated in another clause is not reported by a projection. -/
theorem ne_outsideGroup {clause : String} {f : Fault} {func : String} {index : Nat}
    (long : 8 ≤ clause.toList.length)
    (other : clause.toList.take 8 ≠ ['s', 'e', 'l', 'e', 'c', 't', '.', 'p']) :
    f.error.within clause ≠ outsideGroup func index := by
  intro same
  have opens := outsideGroup_opening func index
  rw [← same, ValidationError.inside_within _ f.error_path_ne_empty, String.append_assoc,
    take_append long] at opens
  exact other opens

variable {s : Select} {index : Nat} {p : Projection}

theorem ne_outsideGroup_of_outputProblems (projected : s.projections[index]? = some p)
    {scope : Scope} {row : Option Record} {group : Option (List Record)}
    (settled : p.expr.Settled group) {e : ValidationError}
    (listed : e ∈ s.outputProblems scope row group) (func : String) :
    e ≠ outsideGroup func index := by
  rcases List.mem_append.mp listed with shown | sorted
  · obtain ⟨⟨q, k⟩, numbered, faulty⟩ := List.mem_flatMap.mp shown
    obtain ⟨f, met, rfl⟩ := List.mem_map.mp faulty
    intro same
    have paths := congrArg ValidationError.path same
    rw [outsideGroup_path, ValidationError.inside_within _ f.error_path_ne_empty,
      String.append_assoc] at paths
    obtain ⟨rfl, -⟩ := itemPath_append_cancel paths
    obtain ⟨other, rfl⟩ := Fault.eq_of_error same
    have here : s.projections[k]? = some q := List.mem_zipIdx_iff_getElem?.mp numbered
    obtain rfl := Option.some.inj (projected.symm.trans here)
    exact Expr.grouped_eval scope p.expr row settled other met
  · obtain ⟨key, -, faulty⟩ := List.mem_flatMap.mp sorted
    obtain ⟨f, -, rfl⟩ := List.mem_map.mp faulty
    exact ne_outsideGroup (by decide) (by decide)

theorem ne_outsideGroup_of_answerProblems (projected : s.projections[index]? = some p)
    (apart : ¬ p.expr.NestsAggregates) {scope : Scope} {rows : List Record} {e : ValidationError}
    (listed : e ∈ s.answerProblems scope rows) (func : String) : e ≠ outsideGroup func index := by
  rcases List.mem_append.mp listed with filtered | put
  · obtain ⟨row, -, faulty⟩ := List.mem_flatMap.mp filtered
    obtain ⟨condition, -, faulty⟩ := List.mem_flatMap.mp faulty
    obtain ⟨f, -, rfl⟩ := List.mem_map.mp faulty
    exact ne_outsideGroup (by decide) (by decide)
  · split at put
    · rcases List.mem_append.mp put with grouped | put
      · obtain ⟨row, -, faulty⟩ := List.mem_flatMap.mp grouped
        obtain ⟨f, -, rfl⟩ := List.mem_map.mp faulty
        exact ne_outsideGroup (by decide) (by decide)
      · obtain ⟨members, -, faulty⟩ := List.mem_flatMap.mp put
        have settled : p.expr.Settled (some members) := .inr ⟨by simp, apart⟩
        exact ne_outsideGroup_of_outputProblems projected settled faulty func
    · rename_i plain
      obtain ⟨row, -, faulty⟩ := List.mem_flatMap.mp put
      -- A query that is not aggregated has no aggregate in its projections.
      have free : p.expr.containsAggregate = false := by
        rw [isAggregated, Bool.not_eq_true, Bool.or_eq_false_iff, List.any_eq_false] at plain
        exact Bool.eq_false_iff.mpr (plain.2 p (List.mem_of_getElem? projected))
      exact ne_outsideGroup_of_outputProblems projected (.inl free) faulty func

theorem executeEntries_adds_grouped (projected : s.projections[index]? = some p)
    (apart : ¬ p.expr.NestsAggregates) (func : String) (ctx : Context) (w : World)
    (errors : List ValidationError) :
    (s.executeEntries ctx).Adds (· ≠ outsideGroup func index) w errors := by
  have opens {path : String} {e : ValidationError} (located : e.path = path)
      (other : path.toList.take 8 ≠ ['s', 'e', 'l', 'e', 'c', 't', '.', 'p']) :
      e ≠ outsideGroup func index := by
    rintro rfl
    rw [← located, outsideGroup_opening] at other
    exact other rfl
  have first (e : ValidationError) (located : e.path = "select.from") := opens located (by decide)
  refine Exec.Adds.bind (s.loadRows_adds_of first ?_ _ w errors) ?_
  · rintro i - e (here | ⟨inner, -, inside⟩)
    · refine opens here ?_
      rw [← @String.append_empty (itemPath _ _), take_itemPath_append (by decide)]
      decide
    · refine opens inside ?_
      rw [String.append_assoc, String.append_assoc, take_itemPath_append (by decide)]
      decide
  · intro loaded later after _
    cases loaded with
    | none => exact Exec.adds_pure none
    | some entry =>
      obtain ⟨inner, rows⟩ := entry
      have reports := (s.filterRows_reports inner.scope rows).bind_of_yields
        (s.filterRows_yields inner.scope rows) (s.outputRows_reports inner.scope _)
      refine Exec.Adds.bind (Exec.adds_log (reports.adds ?_)) fun outputs _ _ _ => Exec.adds_pure _
      exact fun e listed => ne_outsideGroup_of_answerProblems projected apart listed func

theorem execute_adds_grouped (projected : s.projections[index]? = some p)
    (apart : ¬ p.expr.NestsAggregates) (func : String) (ctx : Context) (w : World)
    (errors : List ValidationError) :
    (s.execute ctx).Adds (· ≠ outsideGroup func index) w errors := by
  rw [Exec.Adds, errors_execute]
  exact executeEntries_adds_grouped projected apart func ctx w errors

/-- The number of records of each group, summed up within the group. -/
def nestedCounts : Select where
  projections := [⟨.call "sum" [.call "count" []], none⟩]
  base := .ofTable "users"

example :
    ((usersWorld [("name", .str "Ann")] [("name", .str "Bob")]).run
      (nestedCounts.execute usersContext [])).1.2.map (·.path) =
        ["select.projections[0].count()"] := by
  decide +kernel

end Select

/-- Walks are complete, and the search for aggregates agrees with evaluation. Every walk of every
visitor is a tour: it visits the root and the direct parts of each node below which the visitor
goes, in the order of their places and so each of them once. The sources of an expression are those
of its columns, and it contains an aggregate exactly if one of its nodes calls one. One without
aggregates reports none outside of a group, although there is no group; and a projection of a query
does not report one, unless an aggregate is called in the argument of another one. -/
theorem Expr.walks_complete :
    (∀ {σ : Type} (visit : Visitor σ) (state : σ) (e : Expr), ∃ visits,
      e.walk visit.recorded (state, []) = (e.walk visit state, record visits) ∧
        visit.Makes state visits (e.walk visit state) ∧ Tour e visits ∧
        (visits.map (·.place)).Nodup ∧ ∀ v ∈ visits, node? v.place e = some v.node) ∧
      (∀ e : Expr, e.referencedTables.Pairwise (· < ·) ∧ ∀ source,
        source ∈ e.referencedTables ↔ ∃ place name, node? place e = some (.column source name)) ∧
      (∀ e : Expr, e.containsAggregate = true ↔ ∃ place func args,
        node? place e = some (.call func args) ∧ Functions.isAggregate func args.length = true) ∧
      (∀ e : Expr, e.containsAggregate = false → ∀ scope row func,
        Fault.aggregateOutsideGroup func ∉ (e.eval scope row none).faults) ∧
      ∀ (s : Select) (index : Nat) (p : Projection), s.projections[index]? = some p →
        ¬ p.expr.NestsAggregates → ∀ func ctx w errors,
          (s.execute ctx).Adds (· ≠ Select.outsideGroup func index) w errors ∧
            (s.executeEntries ctx).Adds (· ≠ Select.outsideGroup func index) w errors := by
  refine ⟨fun visit state e => ?_, fun e => ?_, fun e => ?_, fun e free scope row => ?_,
    fun s index p projected apart func ctx w errors => ?_⟩
  · obtain ⟨visits, tour, makes, recorded⟩ := exists_tour visit e state
    exact ⟨visits, recorded [], makes, tour, tour.nodup, fun v listed => tour.node?_eq listed⟩
  · exact ⟨sorted_referencedTables e, mem_referencedTables_iff e⟩
  · rw [containsAggregate_iff]
    refine exists_congr fun place => ⟨?_, ?_⟩
    · rintro ⟨node, found, calls⟩
      cases node with
      | call func args => exact ⟨func, args, found, calls⟩
      | _ => cases calls
    · rintro ⟨func, args, found, calls⟩
      exact ⟨_, found, calls⟩
  · exact grouped_eval scope e row (.inl free)
  · exact ⟨Select.execute_adds_grouped projected apart func ctx w errors,
      Select.executeEntries_adds_grouped projected apart func ctx w errors⟩

/-- How many users have a name. -/
def Select.namedUsers : Select where
  projections := [⟨.call "count" [.ref "users" "name"], none⟩]
  base := .ofTable "users"

/-- A count of a column nests no aggregates, and no projection of it reports one. -/
theorem Expr.walks_complete_namedUsers :
    ¬ (Expr.call "count" [.ref "users" "name"]).NestsAggregates ∧
      (Select.namedUsers.execute Select.usersContext).Adds (· ≠ Select.outsideGroup "count" 0)
        (Select.usersWorld [("name", .str "Ann")] [("name", .str "Bob")]) [] := by
  have apart : ¬ (Expr.call "count" [.ref "users" "name"]).NestsAggregates := by
    have column : ¬ (Expr.ref "users" "name").NestsAggregates := by
      rw [nestsAggregates_iff]
      simp [ref, children]
    have free : (Expr.ref "users" "name").containsAggregate = false := by decide +kernel
    rw [nestsAggregates_iff]
    simp [children, free, column]
  exact ⟨apart, (walks_complete.2.2.2.2 Select.namedUsers 0 _ rfl apart "count" _ _ _).1⟩

end RecordQuery
