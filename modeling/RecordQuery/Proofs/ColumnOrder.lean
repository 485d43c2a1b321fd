import RecordQuery.Proofs.StoredFields

/-!
The order of the columns of a new record. Stripping system columns moves the last column into each
gap, so of the user columns, as many as there are in all, the ones that stand among the first places
keep their places, and the others fill the places of system columns
(`Dict.getElem?_foldl_swapRemove`). What is in front of the first system column does not count
(`Dict.keepsOrder_fromSystem`), and neither do the names and values of user columns
(`Dict.KeepsOrder.of_alike`). If the order is kept although two user columns stand behind a system
column, then as many system columns stand in front of these as there are of them
(`Dict.KeepsOrder.length_userColumns_le`). That leaves few arrangements to try, and those in which
the order is kept are listed (`Dict.keepsOrder_iff`). The main statement is
`Record.create_in_order`.
-/
namespace RecordQuery

open Calendar (Instant)

/-! ### Removals and places -/

namespace Dict
variable {α β : Type}

theorem length_swapRemove_le (d : Dict α) (key : String) : (swapRemove d key).length ≤ d.length := by
  rw [swapRemove]
  split
  · split
    · exact le_rfl
    · rw [List.length_map, List.length_dropLast]
      exact Nat.sub_le _ _
  · exact le_rfl

theorem length_foldl_swapRemove_le (names : List String) (d : Dict α) :
    (names.foldl swapRemove d).length ≤ d.length := by
  induction names generalizing d with
  | nil => exact le_rfl
  | cons name rest ih => exact (ih _).trans (length_swapRemove_le d name)

/-- A removal moves the last entry only. -/
theorem getElem?_swapRemove {d : Dict α} {key : String} {place : Nat} {entry : String × α}
    (within : place < (swapRemove d key).length) (there : d[place]? = some entry)
    (other : entry.1 ≠ key) : (swapRemove d key)[place]? = some entry := by
  by_cases present : key ∈ keys d
  · rcases List.eq_nil_or_concat' d with rfl | ⟨init, last, rfl⟩
    · cases present
    · rw [swapRemove_concat present] at within ⊢
      rw [List.length_map] at within
      rw [List.getElem?_append_left within] at there
      rw [List.getElem?_map, there, Option.map_some, if_neg other]
  · rwa [swapRemove_of_not_mem present]

/-- Entries that stay, and stand among as many first places as there are such entries, keep their
places. -/
theorem getElem?_foldl_swapRemove (names : List String) {d : Dict α} {place : Nat}
    {entry : String × α} (within : place < (names.foldl swapRemove d).length)
    (there : d[place]? = some entry) (stays : entry.1 ∉ names) :
    (names.foldl swapRemove d)[place]? = some entry := by
  induction names generalizing d with
  | nil => exact there
  | cons name rest ih =>
    rw [List.mem_cons, not_or] at stays
    have before : place < (swapRemove d name).length :=
      within.trans_le (length_foldl_swapRemove_le rest _)
    exact ih within (getElem?_swapRemove before there stays.1) stays.2

theorem swapRemove_append {before : Dict α} {key : String} (absent : key ∉ keys before)
    (after : Dict α) : swapRemove (before ++ after) key = before ++ swapRemove after key := by
  by_cases present : key ∈ keys after
  · rcases List.eq_nil_or_concat' after with rfl | ⟨init, last, rfl⟩
    · cases present
    · have inBoth : key ∈ keys (before ++ init ++ [last]) := by
        rw [List.append_assoc, keys, List.map_append]
        exact List.mem_append_right _ present
      rw [← List.append_assoc, swapRemove_concat inBoth, swapRemove_concat present,
        List.map_append, map_replaced_of_not_mem absent]
  · have absentInBoth : key ∉ keys (before ++ after) := by
      rw [keys, List.map_append, List.mem_append, not_or]
      exact ⟨absent, present⟩
    rw [swapRemove_of_not_mem present, swapRemove_of_not_mem absentInBoth]

theorem foldl_swapRemove_append (names : List String) {before : Dict α}
    (absent : ∀ name ∈ names, name ∉ keys before) (after : Dict α) :
    names.foldl swapRemove (before ++ after) = before ++ names.foldl swapRemove after := by
  induction names generalizing after with
  | nil => rfl
  | cons name rest ih =>
    obtain ⟨first, others⟩ := List.forall_mem_cons.mp absent
    rw [List.foldl_cons, List.foldl_cons, swapRemove_append first, ih others]

/-! ### Removals from related dictionaries -/

section
variable {R : String × α → String × β → Prop} {d : Dict α} {e : Dict β}

theorem mem_keys_iff_of_forall₂ {key : String} (alike : ∀ x y, R x y → (x.1 = key ↔ y.1 = key))
    (related : List.Forall₂ R d e) : key ∈ keys d ↔ key ∈ keys e := by
  induction related with
  | nil => rfl
  | cons first _ ih =>
    simp only [keys, List.map_cons, List.mem_cons] at ih ⊢
    rw [ih, eq_comm, alike _ _ first, eq_comm]

theorem forall₂_swapRemove {key : String} (alike : ∀ x y, R x y → (x.1 = key ↔ y.1 = key))
    (related : List.Forall₂ R d e) : List.Forall₂ R (swapRemove d key) (swapRemove e key) := by
  have sameKeys := mem_keys_iff_of_forall₂ alike related
  by_cases present : key ∈ keys d
  · have present' : key ∈ keys e := sameKeys.mp present
    rcases List.eq_nil_or_concat' d with rfl | ⟨init, last, rfl⟩
    · cases present
    rcases List.eq_nil_or_concat' e with rfl | ⟨init', last', rfl⟩
    · cases present'
    have reversed := List.forall₂_reverse_iff.mpr related
    rw [List.reverse_append, List.reverse_append] at reversed
    obtain ⟨lasts, inits⟩ := List.forall₂_cons.mp reversed
    rw [swapRemove_concat present, swapRemove_concat present']
    refine List.rel_map (fun x y both => ?_) (List.forall₂_reverse_iff.mp inits)
    by_cases own : x.1 = key
    · rw [if_pos own, if_pos ((alike x y both).mp own)]
      exact lasts
    · rw [if_neg own, if_neg (mt (alike x y both).mpr own)]
      exact both
  · rw [swapRemove_of_not_mem present, swapRemove_of_not_mem (mt sameKeys.mpr present)]
    exact related

theorem forall₂_foldl_swapRemove (names : List String)
    (alike : ∀ name ∈ names, ∀ x y, R x y → (x.1 = name ↔ y.1 = name))
    (related : List.Forall₂ R d e) :
    List.Forall₂ R (names.foldl swapRemove d) (names.foldl swapRemove e) := by
  induction names generalizing d e with
  | nil => exact related
  | cons name rest ih =>
    obtain ⟨first, others⟩ := List.forall_mem_cons.mp alike
    exact ih others (forall₂_swapRemove first related)

end

end Dict

/-! ### User columns and system columns -/

namespace Dict
variable {α : Type}

/-- The entries of user columns, in their order. -/
def userColumns (d : Dict α) : Dict α := d.filter fun entry => !isSystemColumn entry.1

/-- The entries of system columns, in their order. -/
def systemEntries (d : Dict α) : Dict α := d.filter fun entry => isSystemColumn entry.1

/-- The columns from the first system column on. -/
def fromSystem (d : Dict α) : Dict α := d.dropWhile fun entry => !isSystemColumn entry.1

/-- The system columns in front of the first user column. -/
def leading (d : Dict α) : Dict α := d.takeWhile fun entry => isSystemColumn entry.1

/-- Stripping system columns leaves the user columns in their order. -/
def KeepsOrder (d : Dict α) : Prop := systemColumns.foldl swapRemove d = userColumns d

instance [DecidableEq α] (d : Dict α) : Decidable d.KeepsOrder :=
  inferInstanceAs (Decidable (systemColumns.foldl swapRemove d = userColumns d))

theorem length_eq (d : Dict α) : d.length = d.systemEntries.length + d.userColumns.length :=
  List.length_eq_length_filter_add _

theorem mem_systemColumns_of_mem {d : Dict α} :
    ∀ name ∈ keys d.systemEntries, name ∈ systemColumns := by
  intro name listed
  obtain ⟨entry, member, rfl⟩ := List.mem_map.mp listed
  exact List.contains_iff_mem.mp (List.mem_filter.mp member).2

theorem leading_sublist (d : Dict α) : d.leading.Sublist d.systemEntries := by
  have system : ∀ entry ∈ d.leading, isSystemColumn entry.1 = true :=
    List.all_eq_true.mp List.all_takeWhile
  rw [← List.filter_eq_self.mpr system]
  exact (List.takeWhile_sublist _).filter _

/-- The first user column stands behind the system columns that lead. -/
theorem getElem?_length_leading (d : Dict α) : d[d.leading.length]? = d.userColumns[0]? := by
  induction d with
  | nil => rfl
  | cons entry rest ih =>
    by_cases system : isSystemColumn entry.1 = true
    · simpa [leading, userColumns, system] using ih
    · simp [leading, userColumns, system]

theorem isSystemColumn_of_head? {d : Dict α} :
    ∀ entry ∈ d.fromSystem.head?, isSystemColumn entry.1 = true := by
  intro entry first
  have stops := List.head?_dropWhile_not (fun entry : String × α => !isSystemColumn entry.1) d
  rw [← fromSystem, Option.mem_def.mp first] at stops
  simpa using stops

/-- User columns in front of the first system column stay where they are, so the order of the others
decides. -/
theorem keepsOrder_fromSystem (d : Dict α) : d.fromSystem.KeepsOrder ↔ d.KeepsOrder := by
  let before : Dict α := d.takeWhile fun entry => !isSystemColumn entry.1
  have split : before ++ d.fromSystem = d := List.takeWhile_append_dropWhile
  have user : ∀ entry ∈ before, (!isSystemColumn entry.1) = true :=
    List.all_eq_true.mp List.all_takeWhile
  have absent : ∀ name ∈ systemColumns, name ∉ keys before := by
    intro name system listed
    obtain ⟨entry, member, rfl⟩ := List.mem_map.mp listed
    simpa [isSystemColumn, system] using user entry member
  have stripped : systemColumns.foldl swapRemove d =
      before ++ systemColumns.foldl swapRemove d.fromSystem := by
    rw [← foldl_swapRemove_append systemColumns absent, split]
  have kept : userColumns d = before ++ userColumns d.fromSystem := by
    rw [← split, userColumns, List.filter_append, List.filter_eq_self.mpr user, split]
    rfl
  rw [KeepsOrder, KeepsOrder, stripped, kept, List.append_cancel_left_eq]

section
variable {d : Dict α} (distinct : (keys d).Nodup)

include distinct

theorem length_systemEntries_le : d.systemEntries.length ≤ systemColumns.length := by
  have once : (keys d.systemEntries).Nodup := nodup_keys_filter distinct _
  simpa [keys] using (List.subperm_of_subset once mem_systemColumns_of_mem).length_le

theorem perm_stripped : (systemColumns.foldl swapRemove d).Perm d.userColumns :=
  foldl_swapRemove_perm systemColumns distinct

/-- A user column among as many first places as there are user columns keeps its place. -/
theorem getElem?_stripped {place : Nat} (within : place < d.userColumns.length)
    {entry : String × α} (there : d[place]? = some entry) (user : isSystemColumn entry.1 = false) :
    (systemColumns.foldl swapRemove d)[place]? = some entry := by
  refine getElem?_foldl_swapRemove systemColumns ?_ there ?_
  · rwa [(perm_stripped distinct).length_eq]
  · intro system
    rw [isSystemColumn, List.contains_iff_mem.mpr system] at user
    cases user

/-- Where a system column is the first one and the order is kept, as many system columns as there are
user columns stand in front of them: a user column among the first places would stay there. -/
theorem KeepsOrder.length_userColumns_le (keeps : d.KeepsOrder)
    (led : ∀ entry ∈ d.head?, isSystemColumn entry.1 = true) :
    d.userColumns.length ≤ d.systemEntries.length := by
  refine le_trans ?_ (leading_sublist d).length_le
  by_contra! within
  obtain ⟨first, leads⟩ : ∃ first, d.userColumns[0]? = some first :=
    ⟨_, List.getElem?_eq_getElem (Nat.zero_lt_of_lt within)⟩
  have there : d[d.leading.length]? = some first := (getElem?_length_leading d).trans leads
  have user : isSystemColumn first.1 = false := by
    simpa using (List.mem_filter.mp (List.mem_of_getElem? leads)).2
  have inOrder : d.userColumns[d.leading.length]? = some first :=
    keeps ▸ getElem?_stripped distinct within there user
  have once : d.userColumns.Nodup :=
    (List.Nodup.of_map Prod.fst distinct).sublist List.filter_sublist
  have none : d.leading.length = 0 :=
    (List.getElem?_inj within once).mp (inOrder.trans leads.symm)
  rw [none, ← List.head?_eq_getElem?] at there
  rw [led first there] at user
  cases user

end

end Dict

/-! ### Kinds of columns -/

/-- What a column is to a store. -/
inductive ColumnKind where
  | id
  | created
  | updated
  | user
  deriving DecidableEq

namespace ColumnKind

/-- The kind of the column that has a name. -/
def ofName (name : String) : ColumnKind :=
  if name = "id" then .id
  else if name = "created" then .created
  else if name = "updated" then .updated
  else .user

/-- The name of a column of a kind; any other name would do for a user column. -/
def name : ColumnKind → String
  | .id => "id"
  | .created => "created"
  | .updated => "updated"
  | .user => "name"

theorem ofName_name (kind : ColumnKind) : ofName kind.name = kind := by
  cases kind <;> decide

theorem name_ofName {key : String} (system : key ∈ systemColumns) : (ofName key).name = key := by
  simp only [systemColumns, List.mem_cons, List.not_mem_nil, or_false] at system
  rcases system with rfl | rfl | rfl <;> decide

theorem ofName_eq_user_iff (name : String) : ofName name = .user ↔ isSystemColumn name = false := by
  simp only [ofName, isSystemColumn, systemColumns]
  by_cases isId : name = "id"
  · simp [isId]
  · by_cases isCreated : name = "created"
    · simp [isCreated]
    · by_cases isUpdated : name = "updated" <;> simp [isId, isCreated, isUpdated]

/-- Each system column has a kind of its own. -/
theorem ofName_eq_iff {key : String} (system : key ∈ systemColumns) (name : String) :
    ofName name = ofName key ↔ name = key := by
  refine ⟨fun same => ?_, congrArg ofName⟩
  have known : isSystemColumn key = true := List.contains_iff_mem.mpr system
  have system' : isSystemColumn name = true := by
    by_contra user
    rw [Bool.not_eq_true, ← ofName_eq_user_iff, same, ofName_eq_user_iff, known] at user
    cases user
  rw [← name_ofName (List.contains_iff_mem.mp system'), same, name_ofName system]

end ColumnKind

namespace Dict
variable {α β : Type}

/-- The kinds of the columns. -/
def kinds (d : Dict α) : List ColumnKind := d.map (ColumnKind.ofName ·.1)

theorem count_user (d : Dict α) : d.kinds.count .user = d.userColumns.length := by
  rw [List.count_eq_countP, kinds, List.countP_map, List.countP_eq_length_filter, userColumns]
  refine congrArg List.length (List.filter_congr fun entry _ => ?_)
  rw [Bool.eq_iff_iff, Bool.not_eq_true', ← ColumnKind.ofName_eq_user_iff]
  simp

theorem head?_kinds_fromSystem (d : Dict α) : d.fromSystem.kinds.head? ≠ some .user := by
  rw [kinds, List.head?_map]
  intro user
  obtain ⟨entry, first, kind⟩ := Option.map_eq_some_iff.mp user
  have system := isSystemColumn_of_head? entry first
  rw [(ColumnKind.ofName_eq_user_iff _).mp kind] at system
  cases system

/-- No kind of system column occurs twice. -/
theorem nodup_systemKinds {d : Dict α} (distinct : (keys d).Nodup) :
    (d.kinds.filter (· != .user)).Nodup := by
  have parts : d.kinds.filter (· != .user) = (keys d.systemEntries).map ColumnKind.ofName := by
    rw [kinds, List.filter_map, keys, systemEntries, List.map_map]
    refine congrArg (List.map _) (List.filter_congr fun entry _ => ?_)
    rw [Bool.eq_iff_iff, ← not_iff_not, Bool.not_eq_true, Bool.not_eq_true,
      ← ColumnKind.ofName_eq_user_iff]
    simp
  rw [parts]
  refine List.Nodup.map_on (fun name _ other listed same => ?_) (nodup_keys_filter distinct _)
  exact (ColumnKind.ofName_eq_iff (mem_systemColumns_of_mem other listed) name).mp same

/-- The entries of two dictionaries at one place. -/
def Paired (d : Dict α) (e : Dict β) (x : String × α) (y : String × β) : Prop :=
  ∃ place : Nat, d[place]? = some x ∧ e[place]? = some y

section
variable {d : Dict α} {e : Dict β}

theorem leftUnique_paired (once : e.Nodup) : Relator.LeftUnique (Paired d e) := by
  rintro x z y ⟨place, inD, inE⟩ ⟨place', inD', inE'⟩
  obtain ⟨within, -⟩ := List.getElem?_eq_some_iff.mp inE
  obtain rfl := (List.getElem?_inj within once).mp (inE.trans inE'.symm)
  exact Option.some.inj (inD.symm.trans inD')

variable (alike : d.kinds = e.kinds)

include alike

theorem forall₂_paired : List.Forall₂ (Paired d e) d e := by
  have size : d.length = e.length := by simpa [kinds] using congrArg List.length alike
  refine List.forall₂_iff_get.mpr ⟨size, fun place inD inE => ⟨place, ?_, ?_⟩⟩
  · simp
  · simp

theorem Paired.kind {x : String × α} {y : String × β} (paired : Paired d e x y) :
    ColumnKind.ofName x.1 = ColumnKind.ofName y.1 := by
  obtain ⟨place, inD, inE⟩ := paired
  have same : d.kinds[place]? = e.kinds[place]? := by rw [alike]
  simpa [kinds, inD, inE] using same

/-- Whether the order is kept depends on the kinds of the columns only. -/
theorem KeepsOrder.of_alike (once : e.Nodup) (keeps : e.KeepsOrder) : d.KeepsOrder := by
  have sameName : ∀ name ∈ systemColumns, ∀ x y, Paired d e x y → (x.1 = name ↔ y.1 = name) := by
    intro name system x y paired
    rw [← ColumnKind.ofName_eq_iff system, ← ColumnKind.ofName_eq_iff system, paired.kind alike]
  have samePart : ∀ x y, Paired d e x y →
      ((!isSystemColumn x.1) = true ↔ (!isSystemColumn y.1) = true) := by
    intro x y paired
    rw [Bool.not_eq_true', Bool.not_eq_true', ← ColumnKind.ofName_eq_user_iff,
      ← ColumnKind.ofName_eq_user_iff, paired.kind alike]
  -- Both the removals and the filter keep entries paired, and an entry has one partner only.
  have stripped := forall₂_foldl_swapRemove systemColumns sameName (forall₂_paired alike)
  have kept : List.Forall₂ (Paired d e) d.userColumns e.userColumns :=
    List.rel_filter (fun x y => samePart x y) (forall₂_paired alike)
  rw [show systemColumns.foldl swapRemove e = e.userColumns from keeps] at stripped
  exact List.left_unique_forall₂' (leftUnique_paired once) stripped kept

end

end Dict

/-! ### Arrangements that end in order -/

namespace ColumnKind

/-- The arrangements, from the first system column on, in which more than one user column stands
behind a system column and which are in order again after the removals. -/
def restoring : List (List ColumnKind) :=
  [[.created, .id, .user, .user],
    [.updated, .id, .user, .user],
    [.updated, .created, .user, .user],
    [.id, .created, .user, .user, .updated],
    [.created, .id, .updated, .user, .user],
    [.created, .id, .user, .updated, .user],
    [.created, .updated, .id, .user, .user],
    [.updated, .id, .created, .user, .user],
    [.updated, .id, .user, .created, .user],
    [.updated, .id, .user, .user, .created],
    [.updated, .created, .user, .id, .user],
    [.updated, .created, .user, .user, .id],
    [.updated, .created, .id, .user, .user, .user]]

/-- A dictionary with columns of given kinds: their values are their places. -/
def sample (kinds : List ColumnKind) : Dict Nat :=
  kinds.zipIdx.map fun entry => (entry.1.name, entry.2)

theorem kinds_sample (kinds : List ColumnKind) : (sample kinds).kinds = kinds := by
  rw [Dict.kinds, sample, List.map_map]
  calc kinds.zipIdx.map ((ofName ·.1) ∘ fun entry => (entry.1.name, entry.2))
      = kinds.zipIdx.map Prod.fst := List.map_congr_left fun entry _ => ofName_name entry.1
    _ = kinds := List.zipIdx_map_fst 0 kinds

theorem nodup_sample (kinds : List ColumnKind) : (sample kinds).Nodup := by
  refine List.Nodup.of_map Prod.snd ?_
  rw [sample, List.map_map]
  change (kinds.zipIdx.map Prod.snd).Nodup
  rw [List.zipIdx_map_snd]
  exact List.nodup_range'

/-- The arrangements of at most some number of columns, with each of some kinds of system columns at
most once. -/
def arrangements : Nat → List ColumnKind → List (List ColumnKind)
  | 0, _ => [[]]
  | n + 1, system =>
    [] :: ((arrangements n system).map (.user :: ·) ++
      system.flatMap fun kind => (arrangements n (system.erase kind)).map (kind :: ·))

theorem mem_arrangements {kinds : List ColumnKind} (once : (kinds.filter (· != .user)).Nodup)
    {n : Nat} (short : kinds.length ≤ n) {system : List ColumnKind}
    (known : ∀ kind ∈ kinds, kind = .user ∨ kind ∈ system) : kinds ∈ arrangements n system := by
  induction kinds generalizing n system with
  | nil => cases n <;> simp [arrangements]
  | cons kind rest ih =>
    obtain ⟨first, others⟩ := List.forall_mem_cons.mp known
    cases n with
    | zero => cases short
    | succ n =>
      have shorter : rest.length ≤ n := Nat.le_of_succ_le_succ short
      refine List.mem_cons_of_mem _ (List.mem_append.mpr ?_)
      by_cases user : kind = .user
      · subst user
        exact .inl (List.mem_map_of_mem (ih (by simpa using once) shorter others))
      · rw [List.filter_cons, if_pos (bne_iff_ne.mpr user), List.nodup_cons] at once
        have left : ∀ other ∈ rest, other = .user ∨ other ∈ system.erase kind := by
          intro other member
          refine (others other member).imp_right fun available => ?_
          refine (List.mem_erase_of_ne ?_).mpr available
          rintro rfl
          exact once.1 (List.mem_filter.mpr ⟨member, bne_iff_ne.mpr user⟩)
        exact .inr (List.mem_flatMap.mpr ⟨kind, first.resolve_left user,
          List.mem_map_of_mem (ih once.2 shorter left)⟩)

theorem keepsOrder_of_mem_restoring : ∀ kinds ∈ restoring, (sample kinds).KeepsOrder := by
  decide

theorem mem_restoring_of_keepsOrder : ∀ kinds ∈ arrangements 6 [.id, .created, .updated],
    kinds.head? ≠ some .user → (sample kinds).KeepsOrder →
      kinds.count .user ≤ 1 ∨ kinds ∈ restoring := by
  -- All arrangements are tried; what the values are does not count, so the samples stand for all.
  decide +kernel

end ColumnKind

namespace Dict
variable {α : Type} {d : Dict α} (distinct : (keys d).Nodup)

include distinct

theorem keepsOrder_sample_iff : (ColumnKind.sample d.kinds).KeepsOrder ↔ d.KeepsOrder := by
  have alike : (ColumnKind.sample d.kinds).kinds = d.kinds := ColumnKind.kinds_sample d.kinds
  exact ⟨KeepsOrder.of_alike alike.symm (ColumnKind.nodup_sample _),
    KeepsOrder.of_alike alike (List.Nodup.of_map Prod.fst distinct)⟩

/-- Stripping system columns keeps the order of the user columns if at most one of them stands behind
a system column, or in one of few other arrangements, and in no case else. -/
theorem keepsOrder_iff :
    d.KeepsOrder ↔ d.fromSystem.userColumns.length ≤ 1 ∨
      d.fromSystem.kinds ∈ ColumnKind.restoring := by
  have behind : (keys d.fromSystem).Nodup :=
    distinct.sublist ((List.dropWhile_sublist _).map Prod.fst)
  rw [← keepsOrder_fromSystem]
  constructor
  · intro keeps
    have few := keeps.length_userColumns_le behind isSystemColumn_of_head?
    have three : d.fromSystem.systemEntries.length ≤ 3 := length_systemEntries_le behind
    have short : d.fromSystem.kinds.length ≤ 6 := by
      rw [kinds, List.length_map, length_eq]
      omega
    rw [← count_user]
    have arranged : d.fromSystem.kinds ∈ ColumnKind.arrangements 6 [.id, .created, .updated] := by
      refine ColumnKind.mem_arrangements (nodup_systemKinds behind) short fun kind _ => ?_
      cases kind <;> simp
    exact ColumnKind.mem_restoring_of_keepsOrder _ arranged (head?_kinds_fromSystem d)
      ((keepsOrder_sample_iff behind).mpr keeps)
  · rintro (few | listed)
    · exact eq_of_perm_of_length_le (perm_stripped behind) few
    · exact (keepsOrder_sample_iff behind).mp (ColumnKind.keepsOrder_of_mem_restoring _ listed)

end Dict

/-! ### New records -/

namespace Record

/-- A new record has the given columns without those of the store, and its row lists the columns of
the store first. Of the user columns, as many as there are in all, those among the first places keep
their places. The user columns are in the order in which they were given if and only if at most one
of them was given behind a system column, or the columns from the first system column on were given
in one of the arrangements of `ColumnKind.restoring`. -/
theorem create_in_order {fields : Dict Json} (distinct : (Dict.keys fields).Nodup) (now : Instant)
    (id : String) :
    let r := create now id fields
    r.fields.Perm fields.userColumns ∧
    r.toRow = [("id", .str id), ("created", .str now.rowText), ("updated", .str now.rowText)] ++
      r.fields ∧
    (∀ place < fields.userColumns.length, ∀ entry, fields[place]? = some entry →
      isSystemColumn entry.1 = false → r.fields[place]? = some entry) ∧
    (r.fields = fields.userColumns ↔ fields.fromSystem.userColumns.length ≤ 1 ∨
      fields.fromSystem.kinds ∈ ColumnKind.restoring) := by
  intro r
  have plain : r.Plain := plain_create distinct now id
  refine ⟨fields_create distinct now id, plain.toRow_eq, ?_, Dict.keepsOrder_iff distinct⟩
  intro place within entry there user
  exact Dict.getElem?_stripped distinct within there user

theorem create_in_order_reversed :
    let user : Dict Json := [("name", .str "Ann"), ("age", .ofNat 30), ("team", .null)]
    let fields : Dict Json :=
      [("updated", .null), ("created", .null), ("id", .str "forged")] ++ user
    (Dict.keys fields).Nodup ∧ (create ⟨0, 0, 0⟩ "u1" fields).fields = user := by
  intro user fields
  have distinct : (Dict.keys fields).Nodup := by decide
  have arranged : fields.fromSystem.kinds ∈ ColumnKind.restoring := by decide
  have inOrder := (create_in_order distinct ⟨0, 0, 0⟩ "u1").2.2.2.mpr (.inr arranged)
  have given : fields.userColumns = user := rfl
  exact ⟨distinct, inOrder.trans given⟩

/-- An identifier that is given in front of two columns exchanges them. -/
theorem create_out_of_order :
    ¬ ∀ (fields : Dict Json), (Dict.keys fields).Nodup → ∀ now id,
      (create now id fields).fields = fields.userColumns := by
  intro kept
  let fields : Dict Json := [("id", .str "forged"), ("name", .str "Ann"), ("age", .ofNat 30)]
  have distinct : (Dict.keys fields).Nodup := by decide
  have names := congrArg Dict.keys (kept fields distinct ⟨0, 0, 0⟩ "u1")
  have made : Dict.keys (create ⟨0, 0, 0⟩ "u1" fields).fields = ["age", "name"] := rfl
  have given : Dict.keys fields.userColumns = ["name", "age"] := rfl
  rw [made, given] at names
  exact absurd names (by decide)

end Record
end RecordQuery
