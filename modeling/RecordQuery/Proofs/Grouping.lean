import RecordQuery.Proofs.FiniteValues
import RecordQuery.Proofs.Sorting

/-!
The groups of a query. Rows are grouped by the compact text of their keys, and on rows of data this
text tells the keys. So the groups are the classes of the rows by their keys (`classes`): each row is
in one of them, with all rows of the same keys and no other, and the rows and the groups stay in
order (`Select.grouped`).
-/
namespace RecordQuery

/-! ### Groups -/

section
variable {α κ : Type}

/-- Groups of items by a key, where an item is told from equal ones by its position. -/
structure Grouped (key : α → κ) (items : List α) (groups : List (List (α × ℕ))) : Prop where
  /-- Each item is in one group. -/
  whole : groups.flatten.Perm items.zipIdx
  nonempty : ∀ members ∈ groups, members ≠ []
  /-- A group keeps its items in their order. -/
  ordered : ∀ members ∈ groups, members.Pairwise fun a b => a.2 < b.2
  /-- The groups stand in the order of their first items. -/
  firsts : groups.Pairwise fun members later =>
    ∀ a ∈ members.head?, ∀ b ∈ later.head?, a.2 < b.2
  /-- Two items share a group if and only if they have the same key. -/
  shared : ∀ a ∈ items.zipIdx, ∀ b ∈ items.zipIdx,
    (∃ members ∈ groups, a ∈ members ∧ b ∈ members) ↔ key a.1 = key b.1

theorem pairwise_zipIdx (items : List α) : items.zipIdx.Pairwise fun a b => a.2 < b.2 := by
  refine List.pairwise_map.mp ?_
  rw [List.zipIdx_map_snd]
  exact List.pairwise_lt_range'

/-- Classes by anything that tells the key are groups by the key. -/
theorem grouped_classes {κ' : Type} [DecidableEq κ'] {mark : α → κ'} {key : α → κ} {items : List α}
    (tells : ∀ x ∈ items, ∀ y ∈ items, mark x = mark y ↔ key x = key y) :
    Grouped key items (classes (fun a => mark a.1) items.zipIdx) where
  whole := flatten_classes _ _
  nonempty := fun _ listed => ne_nil_of_mem_classes _ listed
  ordered := fun _ listed => (pairwise_zipIdx items).sublist (sublist_of_mem_classes _ listed)
  firsts := pairwise_head_classes _ (pairwise_zipIdx items)
  shared := by
    intro a listed b also
    rw [← tells a.1 (List.fst_mem_of_mem_zipIdx listed) b.1 (List.fst_mem_of_mem_zipIdx also)]
    constructor
    · rintro ⟨members, group, inside, besides⟩
      obtain ⟨x, -, rfl⟩ := (mem_classes _).mp group
      exact ((mem_withKey _).mp inside).2.trans ((mem_withKey _).mp besides).2.symm
    · intro same
      exact ⟨_, (mem_classes _).mpr ⟨a, listed, rfl⟩, mem_withKey_self _ listed,
        (mem_withKey _).mpr ⟨also, same.symm⟩⟩

end

namespace Select

/-! ### The groups of a query -/

/-- The texts of lists of values tell the values. -/
theorem tuple_text_injective {xs ys : List Json} (first : ∀ x ∈ xs, x.Finite)
    (second : ∀ y ∈ ys, y.Finite) (same : (Json.arr xs).text = (Json.arr ys).text) : xs = ys := by
  have trees := Json.text_injective (by rwa [Json.Finite, Json.finiteItems_iff])
    (by rwa [Json.Finite, Json.finiteItems_iff]) same
  exact Json.arr.inj trees

theorem finite_keyTuple (scope : Scope) {exprs : List Expr} (exprsFinite : ∀ e ∈ exprs, e.Finite)
    {row : Record} (rowFinite : row.Finite) : ∀ a ∈ keyTuple scope exprs row, a.Finite := by
  refine Expr.finite_evalAll ?_ (by simp) exprs (Expr.finiteAll_iff.mpr exprsFinite)
  rintro _ ⟨⟩
  exact rowFinite

theorem mem_of_mem_kept {s : Select} {scope : Scope} {rows : List Record} {r : Record}
    (member : r ∈ s.kept scope rows) : r ∈ rows := by
  rw [kept] at member
  split at member
  · exact member
  · exact List.mem_of_mem_filter member

/-- The groups of the rows that pass: without keys all rows are one group, even if there is none.
With keys, every row is in the one group of the rows that have the same values, and the rows and the
groups stay in order, since different values have different texts. A query that aggregates yields one
row for each group. -/
theorem grouped (s : Select) (scope : Scope) {rows : List Record}
    (rowsFinite : ∀ r ∈ rows, r.Finite) (keysFinite : ∀ e ∈ s.groupBy, e.Finite) :
    ∃ groups, (groupRows scope s.groupBy (s.kept scope rows)).Yields groups ∧
      (s.isAggregated = true →
        Log.Yields (do s.outputRows scope (← filterRows scope s.filter rows))
          (groups.map fun members => s.computed scope members.head? (some members))) ∧
      (s.groupBy = [] → groups = [s.kept scope rows]) ∧
      (s.groupBy ≠ [] → s.kept scope rows = [] → groups = []) ∧
      (s.groupBy ≠ [] → ∃ numbered, groups = numbered.map (List.map Prod.fst) ∧
        Grouped (keyTuple scope s.groupBy) (s.kept scope rows) numbered) ∧
      ∀ xs ys : List Json, (∀ x ∈ xs, x.Finite) → (∀ y ∈ ys, y.Finite) →
        (Json.arr xs).text = (Json.arr ys).text → xs = ys := by
  have keptFinite : ∀ r ∈ s.kept scope rows, r.Finite := fun r member =>
    rowsFinite r (mem_of_mem_kept member)
  refine ⟨groupsOf scope s.groupBy (s.kept scope rows), groupRows_yields scope _ s.groupBy,
    ?_, ?_, ?_, ?_, fun xs ys => tuple_text_injective⟩
  · intro aggregated
    have outputs := s.outputRows_yields scope (s.kept scope rows)
    rw [Select.outputs, if_pos aggregated] at outputs
    exact (s.filterRows_yields scope rows).bind outputs
  · intro none
    rw [none, groupsOf]
    rfl
  · intro given empty
    rw [groupsOf_eq scope given, empty, classes]
  · intro given
    have tells : ∀ x ∈ s.kept scope rows, ∀ y ∈ s.kept scope rows,
        (Json.arr (keyTuple scope s.groupBy x)).text =
            (Json.arr (keyTuple scope s.groupBy y)).text ↔
          keyTuple scope s.groupBy x = keyTuple scope s.groupBy y := by
      intro x listed y also
      constructor
      · exact tuple_text_injective (finite_keyTuple scope keysFinite (keptFinite x listed))
          (finite_keyTuple scope keysFinite (keptFinite y also))
      · intro same
        rw [same]
    have read := classes_map (fun row => (Json.arr (keyTuple scope s.groupBy row)).text) Prod.fst
      (s.kept scope rows).zipIdx
    rw [List.zipIdx_map_fst] at read
    refine ⟨_, ?_, grouped_classes tells⟩
    rw [groupsOf_eq scope given, read]

/-- The marks that are not null, by their values. -/
def marksByValue : Select where
  projections := [⟨.call "count" [], some "n"⟩]
  base := .ofTable "marks"
  filter := some (.isNull (.ref "marks" "value") true)
  groupBy := [.ref "marks" "value"]

theorem finite_mark {id : String} {value : Json} (finite : value.Finite) :
    (mark id value).Finite := by
  intro field member
  obtain rfl := List.mem_singleton.mp member
  exact finite

/-- Marks whose values differ, but for two that are the same text. -/
def marks : List Record :=
  [mark "a" (.str "1"), mark "b" (.ofNat 1), mark "c" .null, mark "d" (.num (.float 1.0)),
    mark "e" (.str "1"), mark "f" (.arr [.str "1"])]

theorem grouped_marks : (∀ r ∈ marks, r.Finite) ∧ (∀ e ∈ marksByValue.groupBy, e.Finite) ∧
    ∃ groups, (groupRows marksContext.scope marksByValue.groupBy
        (marksByValue.kept marksContext.scope marks)).Yields groups ∧
      groups.map (List.map Record.id) = [["a", "e"], ["b"], ["d"], ["f"]] := by
  have finite : ∀ r ∈ marks, r.Finite := by
    simp only [marks, List.forall_mem_cons]
    have one : (Json.num (.float 1.0)).Finite := Json.finite_num (by decide +kernel)
    exact ⟨finite_mark trivial, finite_mark (Json.finite_ofInt 1), finite_mark trivial,
      finite_mark one, finite_mark trivial, finite_mark ⟨trivial, trivial⟩, by simp⟩
  have keys : ∀ e ∈ marksByValue.groupBy, e.Finite := by
    intro e member
    obtain rfl := List.mem_singleton.mp member
    trivial
  obtain ⟨groups, yields, -⟩ := grouped marksByValue marksContext.scope finite keys
  refine ⟨finite, keys, groups, yields, ?_⟩
  rw [← yields []]
  decide +kernel

end Select
end RecordQuery
