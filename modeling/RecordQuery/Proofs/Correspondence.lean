import RecordQuery.Proofs.Evaluation
import RecordQuery.Statement.Select
import Mathlib.Data.List.Sort

/-!
Queries that correspond. Where the expressions of two queries agree on related rows, each step after
the loading of rows does so too: filtering, grouping, computing output columns, sorting and cutting
(`Select.answer_alike`). The results then have the same values in the same places; where the
evaluations also meet the same faults and the columns have the same names, everything is the same.
-/
namespace RecordQuery

/-! ### Computations that collect errors -/

namespace Log
variable {α β γ δ : Type} {exact : Prop}

/-- What two computations yield is related. Where `exact` holds and they find the same errors, they
leave the same errors. -/
def Alike (exact : Prop) (R : α → β → Prop) (x : Log α) (y : Log β) : Prop :=
  ∀ errors errors' : List ValidationError, (exact → errors = errors') →
    R (x.run errors).1 (y.run errors').1 ∧ (exact → (x.run errors).2 = (y.run errors').2)

variable {R : α → β → Prop} {S : γ → δ → Prop}

theorem alike_pure {a : α} {b : β} (related : R a b) : Alike exact R (pure a) (pure b) :=
  fun _ _ same => ⟨related, same⟩

theorem Alike.bind {x : Log α} {y : Log β} {f : α → Log γ} {g : β → Log δ}
    (first : Alike exact R x y) (second : ∀ a b, R a b → Alike exact S (f a) (g b)) :
    Alike exact S (x >>= f) (y >>= g) := fun errors errors' same =>
  second _ _ (first errors errors' same).1 _ _ (first errors errors' same).2

theorem alike_within {x : Reported α} {y : Reported β} (alike : x.Alike exact R y)
    (clause : String) : Alike exact R (within clause x) (within clause y) := by
  intro errors errors' same
  refine ⟨alike.value, fun holds => ?_⟩
  change scopeErrors errors.length clause (errors ++ x.faults.map Fault.error) =
    scopeErrors errors'.length clause (errors' ++ y.faults.map Fault.error)
  rw [same holds, alike.faults holds]

theorem Alike.mapM {f : α → Log γ} {g : β → Log δ}
    (each : ∀ a b, R a b → Alike exact S (f a) (g b)) {as : List α} {bs : List β}
    (related : List.Forall₂ R as bs) : Alike exact (List.Forall₂ S) (as.mapM f) (bs.mapM g) := by
  induction related with
  | nil =>
    rw [List.mapM_nil, List.mapM_nil]
    exact alike_pure .nil
  | cons head _ ih =>
    rw [List.mapM_cons, List.mapM_cons]
    refine (each _ _ head).bind fun c d first => ?_
    exact ih.bind fun cs ds rest => alike_pure (.cons first rest)

theorem Alike.foldlM {f : γ → α → Log γ} {g : δ → β → Log δ}
    (each : ∀ c d a b, S c d → R a b → Alike exact S (f c a) (g d b)) {as : List α} {bs : List β}
    (related : List.Forall₂ R as bs) :
    ∀ {c : γ} {d : δ}, S c d → Alike exact S (as.foldlM f c) (bs.foldlM g d) := by
  induction related with
  | nil => intro c d start; exact alike_pure start
  | cons head _ ih =>
    intro c d start
    rw [List.foldlM_cons, List.foldlM_cons]
    exact (each c d _ _ start head).bind fun c d next => ih next

theorem Alike.filterM {p : α → Log Bool} {q : β → Log Bool}
    (each : ∀ a b, R a b → Alike exact Eq (p a) (q b)) {as : List α} {bs : List β}
    (related : List.Forall₂ R as bs) :
    Alike exact (List.Forall₂ R) (as.filterM p) (bs.filterM q) := by
  have kept : ∀ {found : List α} {found' : List β}, List.Forall₂ R found found' →
      Alike exact (List.Forall₂ R) (as.filterAuxM p found) (bs.filterAuxM q found') := by
    induction related with
    | nil => intro found found' start; exact alike_pure start
    | @cons a b as bs head _ ih =>
      intro found found' start
      refine (each a b head).bind fun keep keep' same => ?_
      subst same
      cases keep with
      | false => exact ih start
      | true => exact ih (.cons head start)
  exact (kept .nil).bind fun found found' all => alike_pure (List.rel_reverse all)

end Log

/-! ### Parts of queries -/

section
variable (exact : Prop) (scope scope' : Scope) (R : Record → Record → Prop)

/-- Two expressions have the same values on related rows and groups. -/
def Expr.Alike (e e' : Expr) : Prop :=
  ∀ row row' group group', Option.Rel R row row' → Option.Rel (List.Forall₂ R) group group' →
    (e.eval scope row group).Alike exact Value.Same (e'.eval scope' row' group')

/-- Two projections have the same values, in as many columns. -/
structure Projection.Alike (p p' : Projection) : Prop where
  expr : p.expr.Alike exact scope scope' R p'.expr
  wildcard : p.isWildcard = p'.isWildcard
  name : exact → p.name = p'.name

/-- Two sort keys have the same values and the same direction. -/
structure SortKey.Alike (k k' : SortKey) : Prop where
  expr : k.expr.Alike exact scope scope' R k'.expr
  descending : k.descending = k'.descending

/-- Two queries agree in all parts that work on rows. -/
structure Select.Alike (s s' : Select) : Prop where
  projections :
    List.Forall₂ (Projection.Alike exact scope scope' R) s.projections s'.projections
  filter : Option.Rel (Expr.Alike exact scope scope' R) s.filter s'.filter
  groupBy : List.Forall₂ (Expr.Alike exact scope scope' R) s.groupBy s'.groupBy
  orderBy : List.Forall₂ (SortKey.Alike exact scope scope' R) s.orderBy s'.orderBy
  aggregated : s.isAggregated = s'.isAggregated
  offset : s.offset = s'.offset
  limit : s.limit = s'.limit

end

/-- Two rows have the same values in the same places, under the same names where `exact` holds. -/
def Entries.Alike (exact : Prop) (entries entries' : Entries) : Prop :=
  List.Forall₂ (fun a b : String × Json => a.2 = b.2 ∧ (exact → a.1 = b.1)) entries entries'

theorem Entries.Alike.values {exact : Prop} {entries entries' : Entries}
    (alike : Entries.Alike exact entries entries') :
    entries.map Prod.snd = entries'.map Prod.snd := by
  rw [Entries.Alike] at alike
  induction alike with
  | nil => rfl
  | cons head _ ih => rw [List.map_cons, List.map_cons, head.1, ih]

theorem Entries.Alike.eq {entries entries' : Entries}
    (alike : Entries.Alike True entries entries') : entries = entries' := by
  have same := List.Forall₂.imp (S := Eq)
    (fun a b same => Prod.ext (same.2 trivial) same.1) alike
  rw [List.forall₂_eq_eq_eq] at same
  exact same

theorem Entries.alike_refl (exact : Prop) (entries : Entries) :
    Entries.Alike exact entries entries :=
  List.forall₂_same.mpr fun _ _ => ⟨rfl, fun _ => rfl⟩

section
variable {exact : Prop} {scope scope' : Scope} {R : Record → Record → Prop}

theorem Expr.Alike.passes {e e' : Expr} (alike : e.Alike exact scope scope' R e')
    {row row' : Record} (related : R row row') :
    (e.passes scope (some row) none).Alike exact Eq (e'.passes scope' (some row') none) := by
  rw [Expr.passes, Expr.passes]
  refine (alike _ _ _ _ (.some related) .none).bind fun a b same => ?_
  rw [same]
  exact Reported.alike_refl _ rfl

theorem evalAll_alike {es es' : List Expr}
    (alike : List.Forall₂ (Expr.Alike exact scope scope' R) es es') {row row' : Record}
    (related : R row row') :
    (Expr.evalAll scope (some row) none es).Alike exact Eq
      (Expr.evalAll scope' (some row') none es') := by
  induction alike with
  | nil =>
    rw [Expr.evalAll, Expr.evalAll]
    exact Reported.alike_pure rfl
  | cons head _ ih =>
    rw [Expr.evalAll, Expr.evalAll]
    refine (head _ _ _ _ (.some related) .none).bind fun a b same => ?_
    refine ih.bind fun values values' equal => ?_
    rw [same, equal]
    exact Reported.alike_pure rfl

/-! ### Output columns -/

section
variable {row row' : Option Record} {group group' : Option (List Record)}
  (rows : Option.Rel R row row') (groups : Option.Rel (List.Forall₂ R) group group')

include rows groups

theorem projectOne_alike {p p' : Projection} (alike : p.Alike exact scope scope' R p')
    (path : String) :
    (projectOne scope row group path p).Alike exact (Entries.Alike exact)
      (projectOne scope' row' group' path p') := by
  rw [projectOne, projectOne]
  refine (Log.alike_within (alike.expr _ _ _ _ rows groups) path).bind fun a b same => ?_
  refine Log.alike_pure ?_
  rw [same]
  have one (value : Json) : Entries.Alike exact [(p.name, value)] [(p'.name, value)] :=
    .cons ⟨rfl, alike.name⟩ .nil
  cases b.raw with
  | obj members =>
    dsimp only
    rw [alike.wildcard]
    split
    · exact Entries.alike_refl exact members
    · exact one _
  | _ => exact one _

theorem projectFrom_alike {ps ps' : List Projection}
    (alike : List.Forall₂ (Projection.Alike exact scope scope' R) ps ps') (clause : String) :
    ∀ index, (projectFrom scope row group clause index ps).Alike exact (Entries.Alike exact)
      (projectFrom scope' row' group' clause index ps') := by
  induction alike with
  | nil => intro index; exact Log.alike_pure .nil
  | cons head _ ih =>
    intro index
    rw [projectFrom, projectFrom]
    refine (projectOne_alike rows groups head _).bind fun first first' same => ?_
    exact (ih (index + 1)).bind fun rest rest' more => Log.alike_pure (List.rel_append same more)

theorem sortValues_alike {keys keys' : List SortKey}
    (alike : List.Forall₂ (SortKey.Alike exact scope scope' R) keys keys') :
    (Select.sortValues scope keys row group).Alike exact Eq
      (Select.sortValues scope' keys' row' group') := by
  have each (k k' : SortKey) (same : k.Alike exact scope scope' R k') :
      Log.Alike exact Eq
        (do return (← Log.within "select.order_by" (k.expr.eval scope row group)).raw)
        (do return (← Log.within "select.order_by" (k'.expr.eval scope' row' group')).raw) :=
    (Log.alike_within (same.expr _ _ _ _ rows groups) _).bind fun a b equal => Log.alike_pure equal
  have all := Log.Alike.mapM each alike
  rw [List.forall₂_eq_eq_eq] at all
  exact all

/-- Two output rows are sorted alike and have the same values. -/
structure Output.Alike (exact : Prop) (a b : Select.Output) : Prop where
  sortValues : a.sortValues = b.sortValues
  entries : Entries.Alike exact a.entries b.entries

theorem outputRow_alike {s s' : Select} (alike : s.Alike exact scope scope' R s') :
    (s.outputRow scope row group).Alike exact (Output.Alike exact)
      (s'.outputRow scope' row' group') := by
  rw [Select.outputRow, Select.outputRow, project, project]
  refine (projectFrom_alike rows groups alike.projections _ 0).bind fun entries entries' same => ?_
  refine (sortValues_alike rows groups alike.orderBy).bind fun values values' equal => ?_
  exact Log.alike_pure ⟨equal, same⟩

end

/-! ### Groups -/

/-- Two groups under keys have the same key and related rows. -/
def KeyedAlike (R : Record → Record → Prop) (a b : String × List Record) : Prop :=
  a.1 = b.1 ∧ List.Forall₂ R a.2 b.2

theorem addToGroup_alike {row row' : Record} (related : R row row') (key : String)
    {groups groups' : List (String × List Record)}
    (alike : List.Forall₂ (KeyedAlike R) groups groups') :
    List.Forall₂ (KeyedAlike R) (Select.addToGroup key row groups)
      (Select.addToGroup key row' groups') := by
  induction alike with
  | nil => exact .cons ⟨rfl, .cons related .nil⟩ .nil
  | @cons a b rest rest' head tail ih =>
    obtain ⟨k, members⟩ := a
    obtain ⟨k', members'⟩ := b
    obtain ⟨rfl, same⟩ : k = k' ∧ List.Forall₂ R members members' := head
    rw [Select.addToGroup, Select.addToGroup]
    split
    · exact .cons ⟨rfl, List.rel_append same (.cons related .nil)⟩ tail
    · exact .cons ⟨rfl, same⟩ ih

theorem groupRows_alike {es es' : List Expr}
    (alike : List.Forall₂ (Expr.Alike exact scope scope' R) es es') {rows rows' : List Record}
    (related : List.Forall₂ R rows rows') :
    (Select.groupRows scope es rows).Alike exact (List.Forall₂ (List.Forall₂ R))
      (Select.groupRows scope' es' rows') := by
  have empty : es.isEmpty = es'.isEmpty := by
    rw [Bool.eq_iff_iff, List.isEmpty_iff_length_eq_zero, List.isEmpty_iff_length_eq_zero,
      alike.length_eq]
  rw [Select.groupRows, Select.groupRows, empty]
  split
  · exact Log.alike_pure (.cons related .nil)
  · refine Log.Alike.bind (R := List.Forall₂ (KeyedAlike R)) ?_ fun groups groups' same => ?_
    · refine Log.Alike.foldlM (fun groups groups' row row' same rowsAlike => ?_) related .nil
      have values := Log.alike_within (evalAll_alike alike rowsAlike) "select.group_by"
      refine Log.Alike.bind (R := Eq) ?_ fun key key' equal => ?_
      · exact values.bind fun values values' equal => Log.alike_pure (by rw [equal])
      · subst equal
        exact Log.alike_pure (addToGroup_alike rowsAlike key same)
    · exact Log.alike_pure (List.rel_map (fun a b keyed => keyed.2) same)

theorem outputRows_alike {s s' : Select} (alike : s.Alike exact scope scope' R s')
    {rows rows' : List Record} (related : List.Forall₂ R rows rows') :
    (s.outputRows scope rows).Alike exact (List.Forall₂ (Output.Alike exact))
      (s'.outputRows scope' rows') := by
  rw [Select.outputRows, Select.outputRows, alike.aggregated]
  split
  · refine (groupRows_alike alike.groupBy related).bind fun groups groups' same => ?_
    refine Log.Alike.mapM (fun members members' within => ?_) same
    refine outputRow_alike ?_ (.some within) alike
    cases within with
    | nil => exact .none
    | cons head _ => exact .some head
  · exact Log.Alike.mapM (fun row row' same => outputRow_alike (.some same) .none alike) related

/-! ### Sorting and cutting -/

theorem compareBy_alike {keys keys' : List SortKey}
    (alike : List.Forall₂ (SortKey.Alike exact scope scope' R) keys keys') :
    Select.compareBy keys = Select.compareBy keys' := by
  induction alike with
  | nil => rfl
  | cons head _ ih =>
    funext as bs
    cases as with
    | nil => rfl
    | cons a as =>
      cases bs with
      | nil => rfl
      | cons b bs => rw [Select.compareBy, Select.compareBy, head.descending, ih]

/-- Lists of related members stay so when they are sorted by what related members share. -/
theorem mergeSort_alike {α β : Type} {S : α → β → Prop} {le : α → α → Bool} {le' : β → β → Bool}
    (shared : ∀ a a' b b', S a b → S a' b' → le a a' = le' b b') {as : List α} {bs : List β}
    (related : List.Forall₂ S as bs) : List.Forall₂ S (as.mergeSort le) (bs.mergeSort le') := by
  -- Both lists are sides of the list of the pairs, which is sorted in either way at once.
  obtain ⟨pairs, rfl, rfl⟩ : ∃ pairs : List (α × β),
      as = pairs.map Prod.fst ∧ bs = pairs.map Prod.snd :=
    ⟨as.zip bs, (List.map_fst_zip (Nat.le_of_eq related.length_eq)).symm,
      (List.map_snd_zip (Nat.le_of_eq related.length_eq.symm)).symm⟩
  rw [List.forall₂_map_left_iff, List.forall₂_map_right_iff, List.forall₂_same] at related
  rw [← List.map_mergeSort (r := fun p q => le p.1 q.1) fun _ _ _ _ => rfl,
    ← List.map_mergeSort (r := fun p q => le p.1 q.1) fun p first q second =>
      shared _ _ _ _ (related p first) (related q second)]
  rw [List.forall₂_map_left_iff, List.forall₂_map_right_iff, List.forall₂_same]
  exact fun pair member => related pair (List.mem_mergeSort.mp member)

theorem sortRows_alike {keys keys' : List SortKey}
    (alike : List.Forall₂ (SortKey.Alike exact scope scope' R) keys keys')
    {outputs outputs' : List Select.Output}
    (related : List.Forall₂ (Output.Alike exact) outputs outputs') :
    List.Forall₂ (Output.Alike exact) (Select.sortRows keys outputs)
      (Select.sortRows keys' outputs') := by
  refine mergeSort_alike (fun a a' b b' first second => ?_) related
  rw [first.sortValues, second.sortValues, compareBy_alike alike]

theorem slice_alike {α β : Type} {S : α → β → Prop} (offset limit : Option Nat) {as : List α}
    {bs : List β} (related : List.Forall₂ S as bs) :
    List.Forall₂ S (Select.slice offset limit as) (Select.slice offset limit bs) := by
  have dropped := List.forall₂_drop (offset.getD 0) related
  cases limit with
  | none => exact dropped
  | some n => exact List.forall₂_take n dropped

end

/-! ### Queries -/

namespace Select

/-- What a query makes of its rows. -/
def answer (s : Select) (scope : Scope) (rows : List Record) : Log (List Entries) := do
  let rows ← filterRows scope s.filter rows
  let outputs ← s.outputRows scope rows
  return (slice s.offset s.limit (sortRows s.orderBy outputs)).map (·.entries)

section
variable {exact : Prop} {scope scope' : Scope} {R : Record → Record → Prop} {s s' : Select}

theorem filterRows_alike {condition condition' : Option Expr}
    (alike : Option.Rel (Expr.Alike exact scope scope' R) condition condition')
    {rows rows' : List Record} (related : List.Forall₂ R rows rows') :
    (filterRows scope condition rows).Alike exact (List.Forall₂ R)
      (filterRows scope' condition' rows') := by
  cases alike with
  | none => exact Log.alike_pure related
  | some same =>
    refine Log.Alike.filterM (R := R) (fun row row' rowsAlike => ?_) related
    exact Log.alike_within (same.passes rowsAlike) "select.where"

/-- Queries that agree on related rows yield the same values in the same places. -/
theorem answer_alike (alike : s.Alike exact scope scope' R s') {rows rows' : List Record}
    (related : List.Forall₂ R rows rows') :
    (s.answer scope rows).Alike exact (List.Forall₂ (Entries.Alike exact))
      (s'.answer scope' rows') := by
  rw [answer, answer, alike.offset, alike.limit]
  refine (filterRows_alike alike.filter related).bind fun kept kept' same => ?_
  refine (outputRows_alike alike same).bind fun outputs outputs' outs => ?_
  refine Log.alike_pure ?_
  rw [List.forall₂_map_left_iff, List.forall₂_map_right_iff]
  refine (slice_alike s'.offset s'.limit (sortRows_alike alike.orderBy outs)).imp ?_
  exact fun a b equal => equal.entries

end

end Select
end RecordQuery
