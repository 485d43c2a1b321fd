import RecordQuery.Proofs.Footprint
import RecordQuery.Proofs.Headers
import Mathlib.Algebra.GroupWithZero.Nat
import Mathlib.Data.List.Nodup

/-!
How the rows of a query are sorted and cut. Any two values are in order, whatever their types: each
has a rank, a magnitude and a wording, and these are compared one after the other
(`Json.sortOrder_eq`). So rows are in order by any list of keys (`Select.compareBy`), and there is
one way to sort rows in which those that compare as equal stay in their order (`StablySorted`). A
query sorts that way, and the rows that it yields with an offset and a limit are a part of those that
it yields without (`Select.sorted_and_sliced`).
-/
namespace RecordQuery

/-! ### The order of values -/

namespace Json

/-- What a boolean or a number is compared by. -/
def magnitude : Json → Int
  | bool b => b.toNat
  | num n => n.scaled
  | _ => 0

/-- What a text, a list or an object is compared by. -/
def wording : Json → String
  | str s => s
  | arr items => (arr items).toText
  | obj members => (obj members).toText
  | _ => ""

theorem compare_toNat (a b : Bool) :
    compare a b = compare ((a.toNat : Nat) : Int) ((b.toNat : Nat) : Int) := by
  cases a <;> cases b <;> rfl

/-- Values are compared by their ranks, then by their magnitudes, and then by their wordings. -/
theorem sortOrder_eq (a b : Json) :
    a.sortOrder b = compareLex (compareOn fun v : Json => v.kind.rank)
      (compareLex (compareOn magnitude) (compareOn wording)) a b := by
  by_cases same : a.kind = b.kind
  · have ranks : compareOn (fun v : Json => v.kind.rank) a b = .eq := by
      rw [compareOn, same]
      exact Std.ReflCmp.compare_self
    rw [sortOrder, if_pos same, compareLex, ranks, Ordering.then, compareLex]
    cases a <;> cases b <;>
      simp_all [kind, order, magnitude, wording, compareOn, Number.order, compare_toNat]
  · have ranks : compare a.kind.rank b.kind.rank ≠ .eq := by
      intro equal
      exact same (Kind.rank_injective (Std.LawfulEqCmp.eq_of_compare equal))
    rw [sortOrder, if_neg same, compareLex, compareOn]
    cases first : compare a.kind.rank b.kind.rank with
    | eq => exact absurd first ranks
    | lt | gt => rfl

instance : Std.TransCmp sortOrder := by
  have same : sortOrder = compareLex (compareOn fun v : Json => v.kind.rank)
      (compareLex (compareOn magnitude) (compareOn wording)) := by
    funext a b
    exact sortOrder_eq a b
  rw [same]
  infer_instance

/-- Values of different types, in order. -/
example : [null, bool false, bool true, ofNat 2, num (.float 2.5), str "", arr [], obj []].Pairwise
    fun a b => a.sortOrder b = .lt := by decide +kernel

end Json

/-! ### The order of rows -/

/-- The order of values by one key. -/
def SortKey.order (key : SortKey) (a b : Json) : Ordering :=
  if key.descending then (a.sortOrder b).swap else a.sortOrder b

instance (key : SortKey) : Std.TransCmp key.order := by
  by_cases down : key.descending = true
  · have same : key.order = fun a b => b.sortOrder a := by
      funext a b
      rw [SortKey.order, if_pos down]
      exact (Std.OrientedCmp.eq_swap).symm
    rw [same]
    infer_instance
  · have same : key.order = Json.sortOrder := by
      funext a b
      rw [SortKey.order, if_neg down]
    rw [same]
    infer_instance

namespace Select

theorem compareBy_cons (key : SortKey) (keys : List SortKey) (a b : Json) (as bs : List Json) :
    compareBy (key :: keys) (a :: as) (b :: bs) = (key.order a b).then (compareBy keys as bs) := rfl

theorem compareBy_swap (keys : List SortKey) : ∀ as bs : List Json,
    compareBy keys as bs = (compareBy keys bs as).swap := by
  induction keys with
  | nil => intro as bs; rfl
  | cons key keys ih =>
    intro as bs
    cases as with
    | nil => cases bs <;> rfl
    | cons a as =>
      cases bs with
      | nil => rfl
      | cons b bs =>
        rw [compareBy_cons, compareBy_cons, Ordering.swap_then, ← ih as bs,
          ← Std.OrientedCmp.eq_swap]

theorem isLE_compareBy_trans (keys : List SortKey) : ∀ {as bs cs : List Json},
    as.length = keys.length → bs.length = keys.length → cs.length = keys.length →
      (compareBy keys as bs).isLE → (compareBy keys bs cs).isLE → (compareBy keys as cs).isLE := by
  induction keys with
  | nil => intro as bs cs _ _ _ _ _; rfl
  | cons key keys ih =>
    intro as bs cs asFull bsFull csFull first second
    obtain ⟨a, as, rfl⟩ := List.exists_cons_of_length_eq_add_one asFull
    obtain ⟨b, bs, rfl⟩ := List.exists_cons_of_length_eq_add_one bsFull
    obtain ⟨c, cs, rfl⟩ := List.exists_cons_of_length_eq_add_one csFull
    simp only [List.length_cons, Nat.add_right_cancel_iff] at asFull bsFull csFull
    rw [compareBy_cons] at first second ⊢
    rw [Ordering.isLE_then_iff_or] at first second ⊢
    rcases first with below | ⟨level, first⟩
    · left
      rcases second with after | ⟨level, -⟩
      · exact Std.TransCmp.lt_trans below after
      · exact Std.TransCmp.lt_of_lt_of_eq below level
    · rcases second with after | ⟨next, second⟩
      · left
        exact Std.TransCmp.lt_of_eq_of_lt level after
      · right
        exact ⟨Std.TransCmp.eq_trans level next, ih asFull bsFull csFull first second⟩

/-- The order in which output rows are sorted. -/
def outputOrder (keys : List SortKey) (a b : Output) : Ordering :=
  compareBy keys a.sortValues b.sortValues

/-- An output row with a value for each key. -/
abbrev Ranked (keys : List SortKey) : Type :=
  { row : Output // row.sortValues.length = keys.length }

instance (keys : List SortKey) :
    Std.TransCmp fun a b : Ranked keys => outputOrder keys a.1 b.1 where
  eq_swap := compareBy_swap keys _ _
  isLE_trans {a b c} first second := isLE_compareBy_trans keys a.2 b.2 c.2 first second

end Select

/-! ### Stable sorting -/

/-- A list is the sorted arrangement of some rows, each with the position that it had: a row stands
before another one if it is less, or if they are equal and it has come first. -/
def StablySorted {α : Type} (cmp : α → α → Ordering) (rows sorted : List α) : Prop :=
  ∃ placed : List (α × Nat), placed.Perm rows.zipIdx ∧ placed.map Prod.fst = sorted ∧
    placed.Pairwise fun a b => cmp a.1 b.1 = .lt ∨ cmp a.1 b.1 = .eq ∧ a.2 < b.2

section
variable {α β : Type} {cmp : α → α → Ordering} {rows : List α}

/-- There is only one such arrangement. -/
theorem StablySorted.unique (oriented : ∀ a b, cmp a b = (cmp b a).swap) {first second : List α}
    (one : StablySorted cmp rows first) (other : StablySorted cmp rows second) :
    first = second := by
  obtain ⟨placed, same, rfl, ordered⟩ := one
  obtain ⟨again, alike, rfl, arranged⟩ := other
  refine congrArg (List.map Prod.fst) ?_
  refine List.Perm.eq_of_pairwise ?_ ordered arranged (same.trans alike.symm)
  -- Of two rows at most one stands before the other.
  intro a b _ _ before after
  exfalso
  have swapped := oriented a.1 b.1
  rcases before with less | ⟨level, earlier⟩
  · rcases after with more | ⟨level, -⟩
    · rw [less, more] at swapped
      cases swapped
    · rw [less, level] at swapped
      cases swapped
  · rcases after with more | ⟨-, later⟩
    · rw [level, more] at swapped
      cases swapped
    · omega

theorem nodup_positions (rows : List α) : (rows.zipIdx.map Prod.snd).Nodup := by
  rw [List.zipIdx_map_snd]
  exact List.nodup_range'

/-- Sorting by a transitive order is stable. -/
theorem stablySorted_mergeSort [Std.TransCmp cmp] (rows : List α) :
    StablySorted cmp rows (rows.mergeSort fun a b => (cmp a b).isLE) := by
  have total : ∀ a b : α, ((cmp a b).isLE || (cmp b a).isLE) = true := by
    intro a b
    have back : cmp b a = (cmp a b).swap := Std.OrientedCmp.eq_swap
    rw [back]
    cases cmp a b <;> rfl
  have le_trans : ∀ a b c : α, (cmp a b).isLE = true → (cmp b c).isLE = true →
      (cmp a c).isLE = true := fun a b c first second => Std.TransCmp.isLE_trans first second
  have sorts := List.pairwise_mergeSort (List.zipIdxLE_trans le_trans) (List.zipIdxLE_total total)
    rows.zipIdx
  have permutes := List.mergeSort_perm rows.zipIdx (List.zipIdxLE fun a b => (cmp a b).isLE)
  have apart : (rows.zipIdx.mergeSort (List.zipIdxLE fun a b => (cmp a b).isLE)).Pairwise
      fun a b => a.2 ≠ b.2 :=
    List.pairwise_map.mp ((permutes.map Prod.snd).nodup_iff.mpr (nodup_positions rows))
  refine ⟨_, permutes, List.mergeSort_zipIdx, (sorts.and apart).imp ?_⟩
  rintro a b ⟨before, ne⟩
  have back : cmp b.1 a.1 = (cmp a.1 b.1).swap := Std.OrientedCmp.eq_swap
  rw [List.zipIdxLE, back] at before
  cases found : cmp a.1 b.1 with
  | lt => exact .inl rfl
  | eq =>
    right
    have earlier : a.2 ≤ b.2 := by simpa [found] using before
    exact ⟨rfl, by omega⟩
  | gt => simp [found] at before

/-- Sorting commutes with reading the rows off. -/
theorem StablySorted.map {f : β → α} {rows sorted : List β}
    (sorts : StablySorted (fun a b => cmp (f a) (f b)) rows sorted) :
    StablySorted cmp (rows.map f) (sorted.map f) := by
  obtain ⟨placed, same, rfl, ordered⟩ := sorts
  refine ⟨placed.map (Prod.map f id), ?_, ?_, ?_⟩
  · rw [List.zipIdx_map]
    exact same.map _
  · simp
  · rw [List.pairwise_map]
    exact ordered

end

namespace Select

/-- Rows with a value for each key are sorted in the one stable way. -/
theorem stablySorted_iff {keys : List SortKey} {rows sorted : List Output}
    (full : ∀ row ∈ rows, row.sortValues.length = keys.length) :
    StablySorted (outputOrder keys) rows sorted ↔ sorted = sortRows keys rows := by
  -- Among rows of this length the order is transitive.
  have sorts : StablySorted (outputOrder keys) rows (sortRows keys rows) := by
    have read : (rows.attachWith (fun row => row.sortValues.length = keys.length) full).map
        Subtype.val = rows := List.attachWith_map_subtype_val full
    have ranked : StablySorted (fun a b : Ranked keys => outputOrder keys a.1 b.1)
        (rows.attachWith _ full) _ := stablySorted_mergeSort (rows.attachWith _ full)
    have stable : StablySorted (outputOrder keys) ((rows.attachWith _ full).map Subtype.val) _ :=
      ranked.map
    rw [List.map_mergeSort (s := fun a b => (outputOrder keys a b).isLE) (fun _ _ _ _ => rfl),
      read] at stable
    exact stable
  constructor
  · intro other
    exact other.unique (fun a b => compareBy_swap keys _ _) sorts
  · rintro rfl
    exact sorts

end Select

/-! ### Cutting -/

/-- What only reads leaves the world as it is. -/
theorem Exec.Ensures.world_of_run {α : Type} {stage : StageId} {x : Exec α}
    {post : α → List ValidationError → Prop} {errors : List ValidationError}
    (ensures : x.Ensures (Call.Reads stage) post errors) (w : World) :
    (w.run (x errors)).2 = w := by
  refine Script.Ensures.run_invariant (fun v => v = w) ensures ?_ rfl
  rintro v c read rfl
  exact World.answer_of_reads read v

/-- The result of a statement with a part of its rows. -/
def Result.slice (offset limit : Option Nat) (result : Result) : Result :=
  { result with rows := Select.slice offset limit result.rows }

namespace Select

section
variable {α β : Type}

theorem map_slice (f : α → β) (offset limit : Option Nat) (rows : List α) :
    (slice offset limit rows).map f = slice offset limit (rows.map f) := by
  cases limit with
  | none => simp [slice]
  | some n => simp [slice]

/-- The rows of a part are those from the offset on, and as many as the limit says. -/
theorem getElem?_slice (offset limit : Option Nat) (rows : List α) (i : Nat) :
    (slice offset limit rows)[i]? =
      if ∀ n ∈ limit, i < n then rows[offset.getD 0 + i]? else none := by
  cases limit with
  | none => simp [slice]
  | some n => simp [slice, List.getElem?_take]

theorem slice_append (rows : List α) (start size more : Nat) :
    slice (some start) (some (size + more)) rows =
      slice (some start) (some size) rows ++ slice (some (start + size)) (some more) rows := by
  simp only [slice, Option.getD_some]
  rw [List.take_add, List.drop_drop]

end

/-- The query with another offset and another limit. -/
def sliced (s : Select) (offset limit : Option Nat) : Select := { s with offset, limit }

/-- A query for one page after another, each of them of some size. -/
def pages (s : Select) : Nat → List Nat → List Select
  | _, [] => []
  | start, size :: more => s.sliced (some start) (some size) :: s.pages (start + size) more

section
variable (s : Select) (ctx : Context) (offset limit : Option Nat)

/-- A query with an offset and a limit does what it does without, and yields a part of the rows. -/
theorem executeEntries_sliced : (s.sliced offset limit).executeEntries ctx =
    Option.map (slice offset limit) <$> (s.sliced none none).executeEntries ctx := by
  rw [executeEntries, executeEntries, map_bind]
  have loads : (s.sliced offset limit).loadRows { ctx with aliases := [] } =
      (s.sliced none none).loadRows { ctx with aliases := [] } := rfl
  rw [loads]
  congr 1
  funext loaded
  cases loaded with
  | none => rfl
  | some entry =>
    obtain ⟨inner, rows⟩ := entry
    dsimp only
    rw [map_bind]
    congr 1
    funext outputs
    have cut : (slice offset limit (sortRows s.orderBy outputs)).map (·.entries) =
        slice offset limit ((slice none none (sortRows s.orderBy outputs)).map (·.entries)) :=
      map_slice _ offset limit _
    exact congrArg (fun rows => (pure (some rows) : Exec (Option (List Entries)))) cut

theorem execute_sliced : (s.sliced offset limit).execute ctx =
    Result.slice offset limit <$> (s.sliced none none).execute ctx := by
  rw [execute, execute, executeEntries_sliced, map_bind, bind_map_left]
  congr 1
  funext found
  cases found with
  | none =>
    have none : Result.slice offset limit .rejected = .rejected := by
      cases limit <;> simp [Result.slice, Result.rejected, slice]
    exact congrArg (fun result => (pure result : Exec Result)) none.symm
  | some rows =>
    dsimp only [Option.map_some]
    rw [map_slice]
    rfl

end

section
variable (s : Select) (ctx : Context) (w : World) (errors : List ValidationError)

theorem run_sliced (offset limit : Option Nat) :
    w.run ((s.sliced offset limit).executeEntries ctx errors) =
      (((w.run ((s.sliced none none).executeEntries ctx errors)).1.1.map
          (Option.map (slice offset limit)),
        (w.run ((s.sliced none none).executeEntries ctx errors)).1.2), w) := by
  rw [executeEntries_sliced, Exec.run_map, (executeEntries_reads _ ctx errors).world_of_run]

theorem full_of_mem_outputs {scope : Scope} {rows : List Record} {output : Output}
    (member : output ∈ s.outputs scope rows) : output.sortValues.length = s.orderBy.length := by
  obtain ⟨row, group, -, rfl⟩ := exists_of_mem_outputs member
  rw [computed, List.length_map]

variable {s ctx w errors} {rows : List Entries} {later : List ValidationError}
  (ran : (w.run ((s.sliced none none).executeEntries ctx errors)).1 = (.ok (some rows), later))

include ran

theorem run_part (offset limit : Option Nat) :
    w.run ((s.sliced offset limit).executeEntries ctx errors) =
      ((.ok (some (slice offset limit rows)), later), w) := by
  rw [run_sliced, ran]
  rfl

/-- Pages one after another yield the rows one after another. -/
theorem run_pages (sizes : List Nat) : ∀ start, ∃ parts,
    List.Forall₂ (fun (page : Select) part =>
      w.run (page.executeEntries ctx errors) = ((.ok (some part), later), w))
      (s.pages start sizes) parts ∧
    parts.flatten = slice (some start) (some sizes.sum) rows := by
  induction sizes with
  | nil => intro start; exact ⟨[], .nil, by simp [slice]⟩
  | cons size more ih =>
    intro start
    obtain ⟨parts, runs, rest⟩ := ih (start + size)
    refine ⟨slice (some start) (some size) rows :: parts, .cons (run_part ran _ _) runs, ?_⟩
    rw [List.flatten_cons, rest, List.sum_cons, slice_append]

end

/-- Values are in order, whatever their types, and rows by any list of keys. The rows of a query
without offset and limit are its output rows in the one stable arrangement. With an offset and a
limit the same errors are reported and the same store is left, and the rows are those at the
positions from the offset on, up to the limit; so consecutive pages of any sizes make up the rows. -/
theorem sorted_and_sliced (s : Select) (ctx : Context) (w : World)
    (errors : List ValidationError) :
    Std.TransCmp Json.sortOrder ∧
    (∀ keys, Std.TransCmp fun a b : Ranked keys => outputOrder keys a.1 b.1) ∧
    (∀ offset limit,
      w.run ((s.sliced offset limit).executeEntries ctx errors) =
        (((w.run ((s.sliced none none).executeEntries ctx errors)).1.1.map
            (Option.map (slice offset limit)),
          (w.run ((s.sliced none none).executeEntries ctx errors)).1.2), w) ∧
      w.run ((s.sliced offset limit).execute ctx errors) =
        (((w.run ((s.sliced none none).execute ctx errors)).1.1.map (Result.slice offset limit),
          (w.run ((s.sliced none none).execute ctx errors)).1.2), w)) ∧
    ∀ rows later,
      (w.run ((s.sliced none none).executeEntries ctx errors)).1 = (.ok (some rows), later) →
      (∃ inner loaded found sorted,
        w.run (s.loadRows { ctx with aliases := [] } errors) =
          ((.ok (some (inner, loaded)), found), w) ∧
        rows = sorted.map (·.entries) ∧
        ∀ other, StablySorted (outputOrder s.orderBy)
          (s.outputs inner.scope (s.kept inner.scope loaded)) other ↔ other = sorted) ∧
      (∀ offset limit, ∃ part,
        w.run ((s.sliced offset limit).executeEntries ctx errors) =
          ((.ok (some part), later), w) ∧
        ∀ i, part[i]? = if ∀ n ∈ limit, i < n then rows[offset.getD 0 + i]? else none) ∧
      ∀ sizes, ∃ parts,
        List.Forall₂ (fun (page : Select) part =>
          w.run (page.executeEntries ctx errors) = ((.ok (some part), later), w))
          (s.pages 0 sizes) parts ∧
        parts.flatten = rows.take sizes.sum := by
  refine ⟨inferInstance, fun keys => inferInstance, fun offset limit => ⟨?_, ?_⟩, ?_⟩
  · exact run_sliced s ctx w errors offset limit
  · rw [execute_sliced, Exec.run_map, (execute_reads _ ctx errors).world_of_run]
  · intro rows later ran
    refine ⟨?_, fun offset limit => ?_, fun sizes => ?_⟩
    · have whole := run_part ran none none
      obtain ⟨inner, loaded, found, loads, same⟩ := run_executeEntries_inv whole
      refine ⟨inner, loaded, found,
        sortRows s.orderBy (s.outputs inner.scope (s.kept inner.scope loaded)), loads, same, ?_⟩
      intro other
      exact stablySorted_iff fun row listed => s.full_of_mem_outputs listed
    · exact ⟨_, run_part ran offset limit, getElem?_slice offset limit rows⟩
    · exact run_pages ran sizes 0

/-- Marks have values of any type. -/
def marksContext : Context where
  schema := .ofTypes [.ofFields "marks" [.ofType "value" .string]]
  stage := ⟨0⟩
  now := ⟨0, 0, 0⟩

/-- A mark of a given value. -/
def mark (id : String) (value : Json) : Record := ⟨id, ⟨0, 0, 0⟩, ⟨0, 0, 0⟩, [("value", value)]⟩

/-- A world with marks of three types, two of which are the same number. -/
def marksWorld : World where
  store := .load {} "marks"
    [mark "a" (.ofNat 2), mark "b" .null, mark "c" (.str "1"), mark "d" (.ofNat 2)]
  now := ⟨0, 0, 0⟩
  ids := fun _ => "new"

/-- The marks by their values, the greatest one first. -/
def marksDescending : Select where
  projections := [⟨.ref "marks" "id", none⟩]
  base := .ofTable "marks"
  orderBy := [⟨.ref "marks" "value", true⟩]

theorem sorted_and_sliced_marks :
    ∃ rows later part,
      (marksWorld.run ((marksDescending.sliced none none).executeEntries marksContext [])).1 =
        (.ok (some rows), later) ∧
      marksWorld.run ((marksDescending.sliced (some 1) (some 2)).executeEntries marksContext []) =
        ((.ok (some part), later), marksWorld) ∧
      ∀ i, part[i]? = if i < 2 then rows[1 + i]? else none := by
  have found : ((marksWorld.run ((marksDescending.sliced none none).executeEntries marksContext
      [])).1.1.toOption.bind id).isSome = true := by
    decide +kernel
  obtain ⟨-, -, -, read⟩ := sorted_and_sliced marksDescending marksContext marksWorld []
  cases ran : (marksWorld.run ((marksDescending.sliced none none).executeEntries marksContext
      [])).1 with
  | mk reply later =>
    rw [ran] at found
    match reply, found, ran with
    | .ok (some rows), _, ran =>
      obtain ⟨-, parts, -⟩ := read rows later ran
      obtain ⟨part, cut, shown⟩ := parts (some 1) (some 2)
      exact ⟨rows, later, part, rfl, cut, fun i => by simpa using shown i⟩

end Select
end RecordQuery
