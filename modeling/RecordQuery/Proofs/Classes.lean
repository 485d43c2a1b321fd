import RecordQuery.Statement.Select
import Mathlib.Data.List.Basic

/-!
Classes of items by a key. Each class stands at the place of its first item and holds all items of
the key in their order (`mem_classes`), so that no item is lost and none is in two classes
(`flatten_classes`). The groups of a query are made row by row, and that makes classes
(`Select.foldl_addToGroup`).
-/
namespace RecordQuery

/-! ### Classes of items -/

section
variable {α β κ : Type} [DecidableEq κ] (key : β → κ)

/-- The items of a key. -/
def withKey (k : κ) (items : List β) : List β := items.filter (key · = k)

/-- The items of other keys. -/
def withoutKey (k : κ) (items : List β) : List β := items.filter (key · ≠ k)

theorem mem_withKey {k : κ} {items : List β} {x : β} :
    x ∈ withKey key k items ↔ x ∈ items ∧ key x = k := by
  simp [withKey]

theorem withKey_withoutKey {k k' : κ} (differs : k' ≠ k) (items : List β) :
    withKey key k' (withoutKey key k items) = withKey key k' items := by
  rw [withKey, withKey, withoutKey, List.filter_filter]
  refine List.filter_congr fun x _ => ?_
  by_cases same : key x = k'
  · simp [same, differs]
  · simp [same]

/-- Items in classes of the same key, each class at the place of its first item. -/
def classes : List β → List (List β)
  | [] => []
  | x :: rest => (x :: withKey key (key x) rest) :: classes (withoutKey key (key x) rest)
termination_by items => items.length
decreasing_by exact Nat.lt_succ_of_le (List.length_filter_le _ rest)

theorem mem_classes {members items : List β} :
    members ∈ classes key items ↔ ∃ x ∈ items, members = withKey key (key x) items := by
  induction items using classes.induct key with
  | case1 => simp [classes]
  | case2 x rest ih =>
    have own : withKey key (key x) (x :: rest) = x :: withKey key (key x) rest := by simp [withKey]
    have other {y : β} (differs : key y ≠ key x) :
        withKey key (key y) (x :: rest) = withKey key (key y) (withoutKey key (key x) rest) := by
      rw [withKey_withoutKey key differs]
      simp [withKey, Ne.symm differs]
    rw [classes, List.mem_cons, ih]
    constructor
    · rintro (rfl | ⟨y, listed, rfl⟩)
      · exact ⟨x, List.mem_cons_self, own.symm⟩
      · obtain ⟨later, differs⟩ := List.mem_filter.mp listed
        exact ⟨y, List.mem_cons_of_mem x later, (other (by simpa using differs)).symm⟩
    · rintro ⟨y, listed, rfl⟩
      by_cases same : key y = key x
      · left
        rw [same, own]
      · right
        have later : y ∈ rest := by
          rcases List.mem_cons.mp listed with rfl | later
          · exact absurd rfl same
          · exact later
        exact ⟨y, List.mem_filter.mpr ⟨later, by simpa using same⟩, other same⟩

/-- Each item is in the class of its key. -/
theorem mem_withKey_self {items : List β} {x : β} (listed : x ∈ items) :
    x ∈ withKey key (key x) items := (mem_withKey key).mpr ⟨listed, rfl⟩

theorem ne_nil_of_mem_classes {members items : List β} (listed : members ∈ classes key items) :
    members ≠ [] := by
  obtain ⟨x, member, rfl⟩ := (mem_classes key).mp listed
  exact List.ne_nil_of_mem (mem_withKey_self key member)

theorem sublist_of_mem_classes {members items : List β} (listed : members ∈ classes key items) :
    members.Sublist items := by
  obtain ⟨x, -, rfl⟩ := (mem_classes key).mp listed
  exact List.filter_sublist

theorem flatten_classes (items : List β) : (classes key items).flatten.Perm items := by
  induction items using classes.induct key with
  | case1 => rw [classes, List.flatten_nil]
  | case2 x rest ih =>
    rw [classes, List.flatten_cons, List.cons_append]
    refine List.Perm.cons x ((ih.append_left _).trans ?_)
    simpa [withKey, withoutKey] using List.filter_append_perm (fun y => decide (key y = key x)) rest

/-- In a list in order, the first items of classes are in order. -/
theorem pairwise_head_classes {lt : β → β → Prop} {items : List β} (ordered : items.Pairwise lt) :
    (classes key items).Pairwise fun a b => ∀ x ∈ a.head?, ∀ y ∈ b.head?, lt x y := by
  induction items using classes.induct key with
  | case1 => rw [classes]; exact .nil
  | case2 x rest ih =>
    obtain ⟨least, later⟩ := List.pairwise_cons.mp ordered
    rw [classes]
    refine List.pairwise_cons.mpr ⟨?_, ih (later.filter _)⟩
    rintro members listed _ ⟨⟩ y first
    have inside := (sublist_of_mem_classes key listed).mem (List.mem_of_mem_head? first)
    exact least y (List.mem_of_mem_filter inside)

theorem classes_map (f : α → β) (items : List α) :
    classes key (items.map f) = (classes (fun a => key (f a)) items).map (List.map f) := by
  induction items using classes.induct (fun a => key (f a)) with
  | case1 => simp [classes]
  | case2 x rest ih =>
    have same : withoutKey key (key (f x)) (rest.map f) =
        (withoutKey (fun a => key (f a)) (key (f x)) rest).map f := by
      rw [withoutKey, withoutKey, List.filter_map]
      rfl
    rw [List.map_cons, classes, classes, List.map_cons, same, ih, withKey, withKey, List.map_cons,
      List.filter_map]
    rfl

end

namespace Select

/-! ### Adding rows to groups -/

section
variable (key : Record → String)

/-- What rows add to groups of which the first one has a key: those of the key go to it, and the
others to the groups behind it. -/
theorem foldl_addToGroup_cons (k : String) (rows : List Record) :
    ∀ (members : List Record) (groups : List (String × List Record)),
      rows.foldl (fun groups row => addToGroup (key row) row groups) ((k, members) :: groups) =
        (k, members ++ withKey key k rows) ::
          (withoutKey key k rows).foldl (fun groups row => addToGroup (key row) row groups)
            groups := by
  induction rows with
  | nil => intro members groups; simp [withKey, withoutKey]
  | cons row rest ih =>
    intro members groups
    rw [List.foldl_cons, addToGroup]
    by_cases same : k = key row
    · rw [if_pos same, ih]
      simp [withKey, withoutKey, same]
    · rw [if_neg same, ih]
      simp [withKey, withoutKey, Ne.symm same]

/-- Adding rows one after another makes classes. -/
theorem foldl_addToGroup (rows : List Record) :
    (rows.foldl (fun groups row => addToGroup (key row) row groups) []).map (·.2) =
      classes key rows := by
  induction rows using classes.induct key with
  | case1 => rw [classes]; rfl
  | case2 row rest ih =>
    rw [List.foldl_cons, addToGroup, foldl_addToGroup_cons, List.map_cons, ih, classes]
    rfl

end

end Select
end RecordQuery
