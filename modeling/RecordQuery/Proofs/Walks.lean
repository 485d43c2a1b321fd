import Mathlib.Data.List.Induction
import Mathlib.Data.String.Basic
import RecordQuery.Proofs.NameFaults

/-!
Walks through expressions. The parts of an expression have places: the root has the empty one, and
the place of a direct part is that of the whole with its number behind it (`Expr.node?`). A walk
visits places in their order, a whole before its parts and parts from left to right, each of them
once: the root, and the direct parts of each node at which the visitor has said to go below it
(`Expr.Tour`, `Expr.exists_tour`). A visitor that always goes below comes to every node, so the
sources that are collected are those of all columns (`Expr.mem_referencedTables_iff`); and the
search for an aggregate misses none although it stops early (`Expr.containsAggregate_iff`).
-/
namespace RecordQuery.Expr

/-! ### Places -/

theorem sizeOf_lt_of_mem_children {e part : Expr} (member : part ∈ e.children) :
    sizeOf part < sizeOf e := by
  cases e with
  | literal _ | column _ _ => cases member
  | binary _ left right | comparison _ left right | logical _ left right =>
    simp only [children, List.mem_cons, List.not_mem_nil, or_false] at member
    rcases member with rfl | rfl <;> simp +arith
  | not operand | negate operand | isNull operand _ =>
    obtain rfl := List.mem_singleton.mp member
    simp +arith
  | inList operand items _ =>
    rcases List.mem_cons.mp member with rfl | listed
    · simp +arith
    · have smaller := List.sizeOf_lt_of_mem listed
      simp only [inList.sizeOf_spec]
      omega
  | call _ args =>
    have smaller : sizeOf part < sizeOf args := List.sizeOf_lt_of_mem member
    simp only [call.sizeOf_spec]
    omega

/-- What holds of an expression whenever it holds of its direct parts holds of all expressions. -/
theorem induction_on_children {motive : Expr → Prop}
    (step : ∀ e, (∀ part ∈ e.children, motive part) → motive e) (e : Expr) : motive e :=
  step e fun part _ => induction_on_children step part
termination_by sizeOf e
decreasing_by exact sizeOf_lt_of_mem_children ‹_›

/-- The node at a place. -/
def node? : List Nat → Expr → Option Expr
  | [], e => some e
  | i :: rest, e => e.children[i]?.bind (node? rest)

theorem node?_append (place below : List Nat) (e : Expr) :
    node? (place ++ below) e = (node? place e).bind (node? below) := by
  induction place generalizing e with
  | nil => rfl
  | cons i rest ih =>
    rw [List.cons_append, node?, node?]
    cases e.children[i]? with
    | none => rfl
    | some part => exact ih part

theorem node?_concat (place : List Nat) (i : Nat) (e : Expr) :
    node? (place ++ [i]) e = (node? place e).bind fun parent => parent.children[i]? := by
  rw [node?_append]
  cases node? place e with
  | none => rfl
  | some parent =>
    change parent.children[i]?.bind (node? []) = parent.children[i]?
    cases parent.children[i]? <;> rfl

/-! ### Tours -/

/-- A node that a walk comes to, with its place and whether the walk goes below it. -/
structure Visit where
  place : List Nat
  node : Expr
  below : Bool

/-- The visit as one of a part with a number. -/
def Visit.under (i : Nat) (v : Visit) : Visit := { v with place := i :: v.place }

/-- The visits of a walk: of the root, and of the direct parts of each node below which the walk
goes. They are in the order of their places. -/
structure Tour (e : Expr) (visits : List Visit) : Prop where
  ordered : visits.Pairwise (·.place < ·.place)
  root : ∀ node, (∃ below, ⟨[], node, below⟩ ∈ visits) ↔ node = e
  parts : ∀ place i node, (∃ below, ⟨place ++ [i], node, below⟩ ∈ visits) ↔
    ∃ parent, ⟨place, parent, true⟩ ∈ visits ∧ parent.children[i]? = some node

/-- The visits of walks through parts, of which the first has a number. -/
structure Tours (first : Nat) (es : List Expr) (visits : List Visit) : Prop where
  ordered : visits.Pairwise (·.place < ·.place)
  inside : ∀ v ∈ visits, ∃ i rest, first ≤ i ∧ v.place = i :: rest
  roots : ∀ i node, (∃ below, ⟨[first + i], node, below⟩ ∈ visits) ↔ es[i]? = some node
  parts : ∀ k place i node, (∃ below, ⟨k :: (place ++ [i]), node, below⟩ ∈ visits) ↔
    ∃ parent, ⟨k :: place, parent, true⟩ ∈ visits ∧ parent.children[i]? = some node

theorem tours_nil (first : Nat) : Tours first [] [] :=
  ⟨.nil, List.forall_mem_nil _, by simp, by simp⟩

theorem mem_under_append {first k : Nat} {place : List Nat} {node : Expr} {below : Bool}
    {visits more : List Visit} :
    ⟨k :: place, node, below⟩ ∈ visits.map (Visit.under first) ++ more ↔
      (k = first ∧ ⟨place, node, below⟩ ∈ visits) ∨ ⟨k :: place, node, below⟩ ∈ more := by
  rw [List.mem_append, List.mem_map]
  refine or_congr_left ⟨?_, ?_⟩
  · rintro ⟨⟨inner, n, b⟩, member, same⟩
    cases same
    exact ⟨rfl, member⟩
  · rintro ⟨rfl, member⟩
    exact ⟨_, member, rfl⟩

theorem Tour.cons {first : Nat} {e : Expr} {es : List Expr} {visits more : List Visit}
    (here : Tour e visits) (later : Tours (first + 1) es more) :
    Tours first (e :: es) (visits.map (.under first) ++ more) := by
  have beyond {place : List Nat} {node : Expr} {below : Bool}
      (listed : ⟨first :: place, node, below⟩ ∈ more) : False := by
    obtain ⟨i, rest, after, same⟩ := later.inside _ listed
    obtain ⟨rfl, -⟩ := List.cons.inj same
    omega
  refine ⟨?_, ?_, ?_, ?_⟩
  · refine List.pairwise_append.mpr ⟨?_, later.ordered, ?_⟩
    · exact List.pairwise_map.mpr (here.ordered.imp fun before => List.Lex.cons before)
    · rintro _ listed v follows
      obtain ⟨u, -, rfl⟩ := List.mem_map.mp listed
      obtain ⟨i, rest, after, same⟩ := later.inside v follows
      rw [same]
      exact .rel (by omega)
  · rintro v listed
    rcases List.mem_append.mp listed with own | follows
    · obtain ⟨u, -, rfl⟩ := List.mem_map.mp own
      exact ⟨first, u.place, Nat.le_refl first, rfl⟩
    · obtain ⟨i, rest, after, same⟩ := later.inside v follows
      exact ⟨i, rest, by omega, same⟩
  · intro i node
    simp only [mem_under_append]
    cases i with
    | zero =>
      rw [List.getElem?_cons_zero, Option.some_inj, @eq_comm _ e node, ← here.root]
      refine exists_congr fun below => ⟨?_, fun listed => .inl ⟨rfl, listed⟩⟩
      rintro (⟨-, listed⟩ | listed)
      · exact listed
      · exact (beyond listed).elim
    | succ i =>
      rw [List.getElem?_cons_succ, ← later.roots, Nat.add_assoc, Nat.add_comm 1 i]
      refine exists_congr fun below => ⟨?_, .inr⟩
      rintro (⟨same, -⟩ | listed)
      · omega
      · exact listed
  · intro k place i node
    by_cases own : k = first
    · subst own
      have only (place : List Nat) (node : Expr) (below : Bool) :
          ⟨k :: place, node, below⟩ ∈ visits.map (Visit.under k) ++ more ↔
            ⟨place, node, below⟩ ∈ visits := by
        rw [mem_under_append]
        exact ⟨fun listed => listed.elim (·.2) fun late => (beyond late).elim,
          fun listed => .inl ⟨rfl, listed⟩⟩
      simp only [only]
      exact here.parts place i node
    · simp only [mem_under_append, own, false_and, false_or]
      exact later.parts k place i node

/-- Below the root, a walk tours the direct parts. -/
theorem Tours.below {e : Expr} {visits : List Visit} (tours : Tours 0 e.children visits) :
    Tour e (⟨[], e, true⟩ :: visits) := by
  have apart {node : Expr} {below : Bool} : ⟨[], node, below⟩ ∉ visits := by
    intro listed
    obtain ⟨i, rest, -, same⟩ := tours.inside _ listed
    cases same
  refine ⟨List.pairwise_cons.mpr ⟨fun v listed => ?_, tours.ordered⟩, fun node => ?_, ?_⟩
  · obtain ⟨i, rest, -, same⟩ := tours.inside v listed
    rw [same]
    exact .nil
  · constructor
    · rintro ⟨below, listed⟩
      rcases List.mem_cons.mp listed with same | more
      · cases same
        rfl
      · exact (apart more).elim
    · rintro rfl
      exact ⟨true, List.mem_cons_self⟩
  · intro place i node
    cases place with
    | nil =>
      have roots := tours.roots i node
      rw [Nat.zero_add] at roots
      simp only [List.mem_cons, apart, or_false, List.nil_append]
      constructor
      · rintro ⟨below, same | listed⟩
        · cases same
        · exact ⟨e, rfl, roots.mp ⟨below, listed⟩⟩
      · rintro ⟨parent, same, found⟩
        cases same
        obtain ⟨below, listed⟩ := roots.mpr found
        exact ⟨below, .inr listed⟩
    | cons k rest =>
      have parts := tours.parts k rest i node
      simp only [List.mem_cons, List.cons_append, Visit.mk.injEq, reduceCtorEq, false_and, false_or]
      exact parts

/-- A walk that does not go below the root visits the root alone. -/
theorem tour_root (e : Expr) : Tour e [⟨[], e, false⟩] := by
  refine ⟨List.pairwise_singleton _ _, fun node => ?_, fun place i node => ?_⟩
  · simp
  · simp

/-! ### Walks -/

section
variable {σ : Type} (visit : Visitor σ)

/-- A walk comes to the root, and it goes through its direct parts if the visitor says so. -/
theorem walk_eq (state : σ) (e : Expr) :
    e.walk visit state =
      if (visit state e).2 then walkAll visit (visit state e).1 e.children
      else (visit state e).1 := by
  cases e <;> simp [walk, children, walkAll]

/-- The visitor that also writes down the nodes it comes to, each with its answer. -/
def Visitor.recorded : Visitor (σ × List (Expr × Bool)) := fun (state, seen) node =>
  let (next, below) := visit state node
  ((next, seen ++ [(node, below)]), below)

/-- Visits of nodes one after another lead from a state to another one, and each answer is that of
the visitor in the state of the visit. -/
def Visitor.Makes : σ → List Visit → σ → Prop
  | state, [], final => final = state
  | state, v :: rest, final =>
    (visit state v.node).2 = v.below ∧ Makes (visit state v.node).1 rest final

/-- What a visitor writes down of visits. -/
def record (visits : List Visit) : List (Expr × Bool) := visits.map fun v => (v.node, v.below)

variable {visit}

theorem Visitor.Makes.append {first second : List Visit} : ∀ {state mid final : σ},
    visit.Makes state first mid → visit.Makes mid second final →
      visit.Makes state (first ++ second) final := by
  induction first with
  | nil => rintro state mid final rfl later; exact later
  | cons v rest ih => exact fun one later => ⟨one.1, ih one.2 later⟩

/-- The places of parts do not count for a visitor. -/
theorem Visitor.Makes.under (i : Nat) {visits : List Visit} : ∀ {state final : σ},
    visit.Makes state visits final → visit.Makes state (visits.map (.under i)) final := by
  induction visits with
  | nil => exact id
  | cons v rest ih => exact fun made => ⟨made.1, ih made.2⟩

theorem record_under (i : Nat) (visits : List Visit) :
    record (visits.map (.under i)) = record visits := by
  rw [record, List.map_map]
  rfl

/-- Walks through parts one after another, each of which is a tour. -/
theorem exists_tours {es : List Expr}
    (each : ∀ e ∈ es, ∀ state, ∃ visits, Tour e visits ∧
      visit.Makes state visits (e.walk visit state) ∧
      ∀ seen, e.walk visit.recorded (state, seen) = (e.walk visit state, seen ++ record visits)) :
    ∀ first state, ∃ visits, Tours first es visits ∧
      visit.Makes state visits (walkAll visit state es) ∧
      ∀ seen, walkAll visit.recorded (state, seen) es =
        (walkAll visit state es, seen ++ record visits) := by
  induction es with
  | nil =>
    refine fun first state => ⟨[], tours_nil first, rfl, fun seen => ?_⟩
    rw [walkAll, walkAll]
    exact congrArg _ (List.append_nil seen).symm
  | cons e rest ih =>
    intro first state
    obtain ⟨visits, tour, makes, recorded⟩ := each e List.mem_cons_self state
    have others := ih fun part member => each part (List.mem_cons_of_mem e member)
    obtain ⟨more, tours, later, after⟩ := others (first + 1) (e.walk visit state)
    refine ⟨_, tour.cons tours, (makes.under first).append later, fun seen => ?_⟩
    rw [walkAll, walkAll, recorded, after, List.append_assoc, record, record, record,
      List.map_append]
    congr 3
    exact (record_under first visits).symm

variable (visit)

/-- A walk is a tour: it visits the root and the direct parts of each node below which the visitor
goes, in the order of their places. -/
theorem exists_tour (e : Expr) : ∀ state, ∃ visits, Tour e visits ∧
    visit.Makes state visits (e.walk visit state) ∧
    ∀ seen, e.walk visit.recorded (state, seen) =
      (e.walk visit state, seen ++ record visits) := by
  induction e using induction_on_children with
  | step e ih =>
    intro state
    have asked (seen : List (Expr × Bool)) : visit.recorded (state, seen) e =
      (((visit state e).1, seen ++ [(e, (visit state e).2)]), (visit state e).2) := rfl
    cases answer : (visit state e).2 with
    | false =>
      refine ⟨_, tour_root e, ⟨answer, ?_⟩, fun seen => ?_⟩
      · rw [walk_eq, answer]
        rfl
      · rw [walk_eq, walk_eq, asked, answer]
        rfl
    | true =>
      obtain ⟨visits, tours, makes, recorded⟩ := exists_tours ih 0 (visit state e).1
      refine ⟨_, tours.below, ⟨answer, ?_⟩, fun seen => ?_⟩
      · rw [walk_eq, answer]
        exact makes
      · rw [walk_eq, walk_eq, asked, answer]
        exact (recorded _).trans (by rw [List.append_assoc]; rfl)

end

/-! ### What a tour comes to -/

section
variable {e : Expr} {visits : List Visit} (tour : Tour e visits)

include tour

/-- No place is visited twice. -/
theorem Tour.nodup : (visits.map (·.place)).Nodup := by
  refine List.pairwise_map.mpr (tour.ordered.imp ?_)
  rintro v u before same
  rw [same] at before
  exact List.lt_irrefl _ before

theorem Tour.node?_eq {place : List Nat} {node : Expr} {below : Bool}
    (listed : ⟨place, node, below⟩ ∈ visits) : node? place e = some node := by
  induction place using List.reverseRecOn generalizing node below with
  | nil =>
    rw [(tour.root node).mp ⟨below, listed⟩]
    rfl
  | append_singleton place i ih =>
    obtain ⟨parent, above, found⟩ := (tour.parts place i node).mp ⟨below, listed⟩
    rw [node?_concat, ih above]
    exact found

/-- A tour that goes below every node comes to every node. -/
theorem Tour.exists_visit (deep : ∀ v ∈ visits, v.below = true) {place : List Nat} {node : Expr}
    (found : node? place e = some node) : ⟨place, node, true⟩ ∈ visits := by
  have answered {place : List Nat} {node : Expr}
      (visited : ∃ below, ⟨place, node, below⟩ ∈ visits) : ⟨place, node, true⟩ ∈ visits := by
    obtain ⟨below, listed⟩ := visited
    obtain rfl : below = true := deep _ listed
    exact listed
  induction place using List.reverseRecOn generalizing node with
  | nil => exact answered ((tour.root node).mpr (Option.some.inj found).symm)
  | append_singleton place i ih =>
    rw [node?_concat] at found
    obtain ⟨parent, above, part⟩ := Option.bind_eq_some_iff.mp found
    exact answered ((tour.parts place i node).mpr ⟨parent, ih above, part⟩)

end

/-! ### Sources -/

section
variable {name : String} {names : List String}

theorem mem_insertName (other : String) :
    other ∈ insertName name names ↔ other = name ∨ other ∈ names := by
  induction names with
  | nil => rw [insertName, List.mem_singleton, or_iff_left List.not_mem_nil]
  | cons first rest ih =>
    rw [insertName]
    split
    · exact List.mem_cons
    · rename_i equal
      obtain rfl : name = first := Std.LawfulEqCmp.eq_of_compare equal
      rw [List.mem_cons, ← or_assoc, or_self]
    · rw [List.mem_cons, ih, List.mem_cons, or_left_comm]

theorem sorted_insertName (sorted : names.Pairwise (· < ·)) :
    (insertName name names).Pairwise (· < ·) := by
  induction names with
  | nil => exact List.pairwise_singleton _ name
  | cons first rest ih =>
    obtain ⟨least, later⟩ := List.pairwise_cons.mp sorted
    rw [insertName]
    split
    · rename_i below
      have less : name < first := compare_lt_iff_lt.mp below
      refine List.pairwise_cons.mpr ⟨fun other member => ?_, sorted⟩
      rcases List.mem_cons.mp member with rfl | behind
      · exact less
      · exact less.trans (least other behind)
    · exact sorted
    · rename_i above
      refine List.pairwise_cons.mpr ⟨fun other member => ?_, ih later⟩
      rcases (mem_insertName other).mp member with rfl | behind
      · exact compare_gt_iff_gt.mp above
      · exact least other behind

end

/-- A node is a column of a source. -/
def IsColumnOf (source : String) (node : Expr) : Prop := ∃ name, node = column source name

theorem collectSource_eq (names : List String) (node : Expr) :
    (collectSource names node).2 = true ∧
      (∀ source, source ∈ (collectSource names node).1 ↔
        source ∈ names ∨ IsColumnOf source node) ∧
      (names.Pairwise (· < ·) → (collectSource names node).1.Pairwise (· < ·)) := by
  cases node with
  | column own name =>
    refine ⟨rfl, fun source => ?_, sorted_insertName⟩
    rw [collectSource, mem_insertName, or_comm]
    refine or_congr_right ⟨?_, ?_⟩
    · rintro rfl
      exact ⟨name, rfl⟩
    · rintro ⟨_, same⟩
      exact (Expr.column.inj same).1.symm
  | _ => exact ⟨rfl, fun source => by simp [collectSource, IsColumnOf], id⟩

/-- The sources that visits collect are those of the columns that are visited. -/
theorem collected {visits : List Visit} : ∀ {names final : List String},
    collectSource.Makes names visits final →
      (∀ v ∈ visits, v.below = true) ∧
      (∀ source, source ∈ final ↔ source ∈ names ∨ ∃ v ∈ visits, IsColumnOf source v.node) ∧
      (names.Pairwise (· < ·) → final.Pairwise (· < ·)) := by
  induction visits with
  | nil =>
    rintro names final rfl
    exact ⟨List.forall_mem_nil _, fun source => by simp, id⟩
  | cons v rest ih =>
    rintro names final ⟨answer, made⟩
    obtain ⟨deep, members, sorted⟩ := ih made
    obtain ⟨below, here, ordered⟩ := collectSource_eq names v.node
    refine ⟨List.forall_mem_cons.mpr ⟨answer.symm.trans below, deep⟩, fun source => ?_, ?_⟩
    · rw [members, here, or_assoc, List.exists_mem_cons_iff]
    · exact fun start => sorted (ordered start)

/-- The sources that an expression refers to are those of its columns. -/
theorem mem_referencedTables_iff (e : Expr) (source : String) :
    source ∈ e.referencedTables ↔ ∃ place name, node? place e = some (.column source name) := by
  obtain ⟨visits, tour, makes, -⟩ := exists_tour collectSource e []
  obtain ⟨deep, members, -⟩ := collected makes
  rw [referencedTables, members, or_iff_right List.not_mem_nil]
  constructor
  · rintro ⟨⟨place, node, below⟩, listed, name, rfl⟩
    exact ⟨place, name, tour.node?_eq listed⟩
  · rintro ⟨place, name, found⟩
    exact ⟨_, tour.exists_visit deep found, name, rfl⟩

theorem sorted_referencedTables (e : Expr) : e.referencedTables.Pairwise (· < ·) := by
  obtain ⟨visits, -, makes, -⟩ := exists_tour collectSource e []
  exact (collected makes).2.2 .nil

/-! ### Aggregates -/

/-- An expression contains an aggregate exactly if one of its nodes calls one. -/
theorem containsAggregate_iff (e : Expr) :
    e.containsAggregate = true ↔
      ∃ place node, node? place e = some node ∧ node.isAggregateCall = true := by
  induction e using induction_on_children with
  | step e ih =>
    rw [containsAggregate_eq, Bool.or_eq_true, List.any_eq_true]
    constructor
    · rintro (own | ⟨part, member, inside⟩)
      · exact ⟨[], e, rfl, own⟩
      · obtain ⟨place, node, found, calls⟩ := (ih part member).mp inside
        obtain ⟨i, here⟩ := List.mem_iff_getElem?.mp member
        exact ⟨i :: place, node, by rw [node?, here]; exact found, calls⟩
    · rintro ⟨_ | ⟨i, rest⟩, node, found, calls⟩
      · obtain rfl := Option.some.inj found
        exact .inl calls
      · obtain ⟨part, here, below⟩ := Option.bind_eq_some_iff.mp found
        have member := List.mem_of_getElem? here
        exact .inr ⟨part, member, (ih part member).mpr ⟨rest, node, below, calls⟩⟩

end RecordQuery.Expr
