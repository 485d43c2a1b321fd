import RecordQuery.Store.Table
import Mathlib.Data.List.Nodup

/-!
Two ways to put the writes of a stage over a table: reading lays them over the records
(`Table.overlaid`), and the commit puts them one by one into their places (`Table.upsertAll`). On
tables that list each identifier once the two agree, order included (`upsertAll_eq_overlaid`), and
finding a record in the result is finding it among the writes first (`find?_overlaid`). On any
tables both act on the records under each identifier alone (`under_overlaid`, `under_upsertAll`),
and they show equally many as long as the writes are to different records (`length_upsertAll`).
One more write of the stage shows in the place of its record (`overlaid_upsert`).
-/
namespace RecordQuery

namespace Table

/-- The table lists each identifier once. -/
def Distinct (t : Table) : Prop := (t.map Record.id).Nodup

theorem distinct_nil : Distinct [] := List.nodup_nil

theorem distinct_cons {r : Record} {t : Table} :
    Distinct (r :: t) ↔ (∀ s ∈ t, s.id ≠ r.id) ∧ Distinct t := by
  simp [Distinct, List.nodup_cons]

/-! ### Finding records -/

theorem find?_eq_none_iff (t : Table) (id : String) :
    find? t id = none ↔ ∀ r ∈ t, r.id ≠ id := by
  induction t with
  | nil => simp [find?]
  | cons r rest ih =>
    cases found : find? rest id with
    | some s => simp only [find?, found, reduceCtorEq, false_iff]; simp_all
    | none =>
      have absent := ih.mp found
      by_cases same : r.id = id <;> simp_all [find?]

/-- A record that is found is listed under its identifier. -/
theorem mem_of_find? {t : Table} {id : String} {r : Record} (found : find? t id = some r) :
    r ∈ t ∧ r.id = id := by
  induction t with
  | nil => simp [find?] at found
  | cons s rest ih =>
    rw [find?] at found
    cases later : find? rest id with
    | some found' =>
      rw [later] at found
      obtain ⟨member, same⟩ := ih (later.trans found)
      exact ⟨List.mem_cons_of_mem _ member, same⟩
    | none =>
      rw [later] at found
      by_cases same : s.id = id
      · simp only [same, ↓reduceIte, Option.some.injEq] at found
        subst found
        exact ⟨List.mem_cons_self .., same⟩
      · simp [same] at found

/-- In a table that lists each identifier once, finding a record is membership. -/
theorem find?_eq_some_iff {t : Table} (distinct : Distinct t) (id : String) (r : Record) :
    find? t id = some r ↔ r ∈ t ∧ r.id = id := by
  constructor
  · exact mem_of_find?
  · rintro ⟨member, rfl⟩
    induction t with
    | nil => simp at member
    | cons s rest ih =>
      obtain ⟨other, distinct⟩ := distinct_cons.mp distinct
      rcases List.mem_cons.mp member with rfl | later
      · simp [find?, (find?_eq_none_iff rest r.id).mpr other]
      · simp [find?, ih distinct later]

theorem find?_append (t later : Table) (id : String) :
    find? (t ++ later) id = (find? later id).or (find? t id) := by
  induction t with
  | nil => simp [find?]
  | cons r rest ih =>
    rw [List.cons_append, find?, ih]
    cases found : find? later id with
    | some s => rfl
    | none => simp [find?]

theorem distinct_append {t later : Table} (distinct : Distinct t) :
    Distinct (t ++ later) ↔ Distinct later ∧ ∀ r ∈ later, find? t r.id = none := by
  rw [Distinct, List.map_append, List.nodup_append]
  constructor
  · rintro ⟨-, distinctLater, apart⟩
    refine ⟨distinctLater, fun r member => (find?_eq_none_iff t r.id).mpr fun s listed => ?_⟩
    exact apart s.id (List.mem_map_of_mem listed) r.id (List.mem_map_of_mem member)
  · rintro ⟨distinctLater, new⟩
    refine ⟨distinct, distinctLater, ?_⟩
    intro id listed other loaded equal
    obtain ⟨s, member, rfl⟩ := List.mem_map.mp listed
    obtain ⟨r, added, rfl⟩ := List.mem_map.mp loaded
    exact (find?_eq_none_iff t r.id).mp (new r added) s member equal

/-! ### Putting records into their places -/

/-- In a table that lists each identifier once, a record takes the place of the one with its
identifier, and a new one comes last. -/
theorem upsert_eq {t : Table} (distinct : Distinct t) (r : Record) :
    upsert t r =
      if (find? t r.id).isSome then t.map (fun s => if s.id = r.id then r else s)
      else t ++ [r] := by
  induction t with
  | nil => simp [upsert, find?]
  | cons s rest ih =>
    obtain ⟨other, distinct⟩ := distinct_cons.mp distinct
    by_cases same : s.id = r.id
    · have absent : find? rest r.id = none := by
        rw [find?_eq_none_iff]; intro x member; exact same ▸ other x member
      have others : rest.map (fun x => if x.id = r.id then r else x) = rest := by
        refine (List.map_congr_left fun x member => ?_).trans (List.map_id rest)
        rw [if_neg (same ▸ other x member), id]
      simp [upsert, find?, same, absent, others]
    · cases found : find? rest r.id <;> simp [upsert, find?, same, found, ih distinct]

theorem mem_upsert {t : Table} {r s : Record} (member : s ∈ upsert t r) : s = r ∨ s ∈ t := by
  induction t with
  | nil => simpa [upsert] using member
  | cons x rest ih =>
    rw [upsert] at member
    split at member
    · rcases List.mem_cons.mp member with same | later
      · exact .inl same
      · exact .inr (List.mem_cons_of_mem _ later)
    · rcases List.mem_cons.mp member with rfl | later
      · exact .inr (List.mem_cons_self ..)
      · rcases ih later with same | below
        · exact .inl same
        · exact .inr (List.mem_cons_of_mem _ below)

theorem distinct_upsert {t : Table} (distinct : Distinct t) (r : Record) :
    Distinct (upsert t r) := by
  rw [upsert_eq distinct]
  split
  · have ids : (t.map fun s => if s.id = r.id then r else s).map Record.id = t.map Record.id := by
      rw [List.map_map]
      refine List.map_congr_left fun s _ => ?_
      by_cases same : s.id = r.id <;> simp [same]
    rw [Distinct, ids]
    exact distinct
  · rename_i absent
    have new : ∀ s ∈ t, s.id ≠ r.id := by
      rwa [Bool.not_eq_true, Option.isSome_eq_false_iff, Option.isNone_iff_eq_none,
        find?_eq_none_iff] at absent
    rw [Distinct, List.map_append, List.nodup_append]
    refine ⟨distinct, List.nodup_singleton _, ?_⟩
    simpa using new

theorem upsertAll_cons (t : Table) (r : Record) (rest : List Record) :
    upsertAll t (r :: rest) = upsertAll (upsert t r) rest := rfl

theorem mem_upsertAll {t records : Table} {s : Record} (member : s ∈ upsertAll t records) :
    s ∈ records ∨ s ∈ t := by
  induction records generalizing t with
  | nil => exact .inr member
  | cons r rest ih =>
    rcases ih member with later | here
    · exact .inl (List.mem_cons_of_mem _ later)
    · rcases mem_upsert here with rfl | before
      · exact .inl (List.mem_cons_self ..)
      · exact .inr before

theorem distinct_upsertAll {t : Table} (distinct : Distinct t) (records : Table) :
    Distinct (upsertAll t records) := by
  induction records generalizing t with
  | nil => exact distinct
  | cons r rest ih => exact ih (distinct_upsert distinct r)

/-- A record that was put into its place is found there, others where they were. -/
theorem find?_upsertAll (t records : Table) (id : String) :
    find? (upsertAll t records) id = (find? records id).or (find? t id) := by
  induction records generalizing t with
  | nil => simp [upsertAll, find?]
  | cons r rest ih =>
    rw [upsertAll_cons, ih]
    by_cases same : id = r.id
    · subst same
      cases later : find? rest r.id <;> simp [find?, later, find?_upsert_self]
    · rw [find?_upsert_of_ne t same]
      cases later : find? rest id <;> simp [find?, later, Ne.symm same]

/-! ### Reading through staged versions -/

/-- The version of a record that is read through staged ones is under the same identifier. -/
theorem id_version (staged : Table) (r : Record) : ((find? staged r.id).getD r).id = r.id := by
  cases found : find? staged r.id with
  | none => rfl
  | some version => exact (mem_of_find? found).2

@[simp] theorem overlaid_nil (t : Table) : overlaid t [] = t := by simp [overlaid, find?]

/-- A write that is laid over a table before others: the others lie over the table in which it has
its place. -/
theorem overlaid_cons {t : Table} (distinct : Distinct t) {r : Record} {rest : Table}
    (new : ∀ s ∈ rest, s.id ≠ r.id) : overlaid t (r :: rest) = overlaid (upsert t r) rest := by
  have last : find? rest r.id = none := (find?_eq_none_iff rest r.id).mpr new
  have kept : rest.filter (fun s => (find? (upsert t r) s.id).isNone) =
      rest.filter (fun s => (find? t s.id).isNone) :=
    List.filter_congr fun s member => by rw [find?_upsert_of_ne t (new s member)]
  have versions : ∀ s : Record, (find? (r :: rest) s.id).getD s =
      if s.id = r.id then r else (find? rest s.id).getD s := by
    intro s
    by_cases same : s.id = r.id
    · simp [find?, same, last]
    · cases later : find? rest s.id <;> simp [find?, later, same, Ne.symm same]
  rw [overlaid, overlaid, kept, upsert_eq distinct]
  cases found : find? t r.id with
  | some old =>
    simp only [Option.isSome_some, ↓reduceIte, List.map_map, List.filter_cons, found,
      Option.isNone_some, Bool.false_eq_true]
    congr 1
    refine List.map_congr_left fun s _ => ?_
    rw [versions, Function.comp_apply]
    by_cases same : s.id = r.id <;> simp [same, last]
  | none =>
    simp only [Option.isSome_none, Bool.false_eq_true, ↓reduceIte, List.map_append, List.map_cons,
      List.map_nil, last, Option.getD_none, List.filter_cons, found, Option.isNone_none,
      List.append_assoc, List.singleton_append]
    congr 1
    refine List.map_congr_left fun s member => ?_
    rw [versions, if_neg ((find?_eq_none_iff t r.id).mp found s member)]

/-- The commit of a stage makes durable what reading through the stage showed. -/
theorem upsertAll_eq_overlaid {t staged : Table} (distinct : Distinct t)
    (distinctStaged : Distinct staged) : upsertAll t staged = overlaid t staged := by
  induction staged generalizing t with
  | nil => rw [overlaid_nil]; rfl
  | cons r rest ih =>
    obtain ⟨new, distinctRest⟩ := distinct_cons.mp distinctStaged
    rw [upsertAll_cons, ih (distinct_upsert distinct r) distinctRest, overlaid_cons distinct new]

theorem distinct_overlaid {t staged : Table} (distinct : Distinct t)
    (distinctStaged : Distinct staged) : Distinct (overlaid t staged) :=
  upsertAll_eq_overlaid distinct distinctStaged ▸ distinct_upsertAll distinct staged

/-- What is found through staged versions is the version, or else the record itself. -/
theorem find?_overlaid {t staged : Table} (distinct : Distinct t)
    (distinctStaged : Distinct staged) (id : String) :
    find? (overlaid t staged) id = (find? staged id).or (find? t id) := by
  rw [← upsertAll_eq_overlaid distinct distinctStaged, find?_upsertAll]

theorem length_upsert (t : Table) (r : Record) :
    (upsert t r).length = t.length + if (find? t r.id).isNone then 1 else 0 := by
  induction t with
  | nil => rfl
  | cons s rest ih =>
    rw [upsert, find?]
    by_cases last : find? rest r.id = none
    · by_cases same : s.id = r.id
      · simp [same, last]
      · simp [same, last, ih]
    · obtain ⟨found, later⟩ := Option.ne_none_iff_exists'.mp last
      simp [later, ih]

/-- A commit leaves as many records as reading through the stage showed, even if the table lists an
identifier twice. -/
theorem length_upsertAll {t staged : Table} (distinct : Distinct staged) :
    (upsertAll t staged).length = (overlaid t staged).length := by
  have counted : (upsertAll t staged).length =
      t.length + (staged.filter fun r => (find? t r.id).isNone).length := by
    induction staged generalizing t with
    | nil => rfl
    | cons r rest ih =>
      obtain ⟨other, distinct⟩ := distinct_cons.mp distinct
      have kept : rest.filter (fun s => (find? (upsert t r) s.id).isNone) =
          rest.filter (fun s => (find? t s.id).isNone) :=
        List.filter_congr fun s member => by rw [find?_upsert_of_ne t (other s member)]
      rw [upsertAll_cons, ih distinct, kept, length_upsert, List.filter_cons]
      split
      · rw [List.length_cons]; omega
      · omega
  rw [counted, overlaid, List.length_append, List.length_map]

/-! ### Records under one identifier -/

/-- The records of a table under one identifier. -/
def under (t : Table) (id : String) : Table := t.filter (·.id == id)

theorem under_cons (r : Record) (t : Table) (id : String) :
    under (r :: t) id = if r.id = id then r :: under t id else under t id := by
  by_cases same : r.id = id <;> simp [under, same]

/-- Choosing records by their identifiers does not change what is found under a chosen one. -/
theorem find?_filter (t : Table) {p : String → Bool} {id : String} (chosen : p id = true) :
    find? (t.filter fun r => p r.id) id = find? t id := by
  induction t with
  | nil => rfl
  | cons r rest ih =>
    rw [List.filter_cons, find?]
    by_cases own : p r.id = true
    · rw [if_pos own, find?, ih]
    · have other : r.id ≠ id := by rintro rfl; exact own chosen
      rw [if_neg own, if_neg other, ih]
      cases find? rest id <;> rfl

theorem find?_under (t : Table) (id : String) : find? (under t id) id = find? t id :=
  find?_filter t (p := (· == id)) (beq_self_eq_true id)

theorem under_eq_nil_iff (t : Table) (id : String) : under t id = [] ↔ find? t id = none := by
  rw [find?_eq_none_iff, under, List.filter_eq_nil_iff]
  simp

/-- Putting a record into its place is putting it into its place among the records that are chosen,
if it is chosen itself. -/
theorem filter_upsert (t : Table) (r : Record) (p : String → Bool) :
    (upsert t r).filter (fun s => p s.id) =
      if p r.id then upsert (t.filter fun s => p s.id) r else t.filter fun s => p s.id := by
  induction t with
  | nil => rw [upsert, List.filter_cons]; rfl
  | cons s rest ih =>
    rw [upsert, List.filter_cons]
    by_cases place : s.id = r.id ∧ find? rest r.id = none
    · rw [if_pos place, List.filter_cons, place.1]
      by_cases chosen : p r.id = true
      · have last := (find?_filter rest chosen).trans place.2
        rw [if_pos chosen, if_pos chosen, if_pos chosen, upsert, if_pos ⟨place.1, last⟩]
      · rw [if_neg chosen, if_neg chosen, if_neg chosen]
    · rw [if_neg place, List.filter_cons, ih]
      by_cases chosen : p r.id = true
      · rw [if_pos chosen, if_pos chosen]
        by_cases own : p s.id = true
        · rw [if_pos own, if_pos own, upsert, find?_filter rest chosen, if_neg place]
        · rw [if_neg own, if_neg own]
      · rw [if_neg chosen, if_neg chosen]

/-- Putting a record into its place touches the records under its identifier only. -/
theorem under_upsert (t : Table) (r : Record) (id : String) :
    under (upsert t r) id = if r.id = id then upsert (under t id) r else under t id := by
  have chosen := filter_upsert t r (· == id)
  simpa only [under, beq_iff_eq] using chosen

theorem under_upsertAll (t records : Table) (id : String) :
    under (upsertAll t records) id = upsertAll (under t id) (under records id) := by
  induction records generalizing t with
  | nil => rfl
  | cons r rest ih =>
    rw [upsertAll_cons, ih, under_upsert, under_cons]
    split <;> rfl

/-- What reading shows under an identifier is read from the records under it. -/
theorem under_overlaid (t staged : Table) (id : String) :
    under (overlaid t staged) id = overlaid (under t id) (under staged id) := by
  have versions : ∀ r ∈ under t id,
      (find? staged r.id).getD r = (find? (under staged id) r.id).getD r := by
    intro r member
    obtain rfl := beq_iff_eq.mp (List.mem_filter.mp member).2
    rw [find?_under]
  have added : ∀ r ∈ under staged id,
      (find? t r.id).isNone = (find? (under t id) r.id).isNone := by
    intro r member
    obtain rfl := beq_iff_eq.mp (List.mem_filter.mp member).2
    rw [find?_under]
  have swap : (staged.filter fun r => (find? t r.id).isNone).filter (·.id == id) =
      (under staged id).filter fun r => (find? t r.id).isNone := List.filter_comm ..
  rw [overlaid, overlaid, ← List.map_congr_left versions, ← List.filter_congr added, under,
    List.filter_append, List.filter_map, swap]
  congr 2
  exact List.filter_congr fun r _ => by rw [Function.comp_apply, id_version]

/-! ### Writing through staged versions -/

/-- A list of records with a version in the place of each record under its identifier, or at the end
if there is none. -/
def place (records : List Record) (r : Record) : List Record :=
  if ∃ old ∈ records, old.id = r.id then
    records.map fun old => if old.id = r.id then r else old
  else records ++ [r]

theorem listed_overlaid_iff {t staged : Table} {id : String} :
    (∃ r ∈ overlaid t staged, r.id = id) ↔ ((find? staged id).or (find? t id)).isSome := by
  constructor
  · rintro ⟨r, member, rfl⟩
    by_contra missing
    obtain ⟨noVersion, absent⟩ : find? staged r.id = none ∧ find? t r.id = none := by
      simpa using missing
    rcases List.mem_append.mp member with version | added
    · obtain ⟨old, listed, rfl⟩ := List.mem_map.mp version
      rw [id_version] at absent
      exact (find?_eq_none_iff t old.id).mp absent old listed rfl
    · exact (find?_eq_none_iff staged r.id).mp noVersion r (List.mem_filter.mp added).1 rfl
  · intro found
    cases known : find? t id with
    | some old =>
      obtain ⟨listed, rfl⟩ := mem_of_find? known
      exact ⟨_, List.mem_append_left _ (List.mem_map_of_mem listed), id_version staged old⟩
    | none =>
      rw [known, Option.or_none, Option.isSome_iff_exists] at found
      obtain ⟨r, added⟩ := found
      obtain ⟨listed, rfl⟩ := mem_of_find? added
      refine ⟨r, List.mem_append_right _ (List.mem_filter.mpr ⟨listed, ?_⟩), rfl⟩
      rw [known]
      rfl

/-- A version that is put among staged ones shows in the places of its record. -/
theorem overlaid_upsert {t staged : Table}
    (distinct : Distinct (staged.filter fun r => (find? t r.id).isNone)) (r : Record) :
    overlaid t (upsert staged r) = place (overlaid t staged) r := by
  have versions : ∀ s : Record, (find? (upsert staged r) s.id).getD s =
      if ((find? staged s.id).getD s).id = r.id then r else (find? staged s.id).getD s := by
    intro s
    rw [id_version]
    by_cases same : s.id = r.id
    · rw [if_pos same, same, find?_upsert_self]
      rfl
    · rw [if_neg same, find?_upsert_of_ne staged same]
  have base : t.map (fun s => (find? (upsert staged r) s.id).getD s) =
      (t.map fun s => (find? staged s.id).getD s).map
        fun old => if old.id = r.id then r else old := by
    rw [List.map_map]
    exact List.map_congr_left fun s _ => versions s
  rw [place, overlaid, base, filter_upsert staged r fun id => (find? t id).isNone]
  by_cases absent : (find? t r.id).isNone = true
  · -- The record is one that the stage has added, or a new one; the base keeps its records.
    have unchanged : (t.map fun s => (find? staged s.id).getD s).map
        (fun old => if old.id = r.id then r else old) =
          t.map fun s => (find? staged s.id).getD s := by
      refine (List.map_congr_left fun old member => ?_).trans (List.map_id _)
      obtain ⟨s, listed, rfl⟩ := List.mem_map.mp member
      have other := (find?_eq_none_iff t r.id).mp (Option.isNone_iff_eq_none.mp absent) s listed
      rw [id_version, if_neg other, id]
    have added := find?_filter staged (p := fun id => (find? t id).isNone) absent
    have listed : (∃ old ∈ overlaid t staged, old.id = r.id) ↔ (find? staged r.id).isSome := by
      rw [listed_overlaid_iff, Option.isNone_iff_eq_none.mp absent, Option.or_none]
    rw [if_pos absent, upsert_eq distinct, added]
    by_cases version : (find? staged r.id).isSome
    · rw [if_pos version, if_pos (listed.mpr version), overlaid, List.map_append]
    · rw [if_neg version, if_neg (mt listed.mp version), unchanged, overlaid, List.append_assoc]
  · have known : (find? t r.id).isSome := by simpa [Option.isSome_iff_ne_none] using absent
    have listed : ∃ old ∈ overlaid t staged, old.id = r.id := by
      rw [listed_overlaid_iff]
      cases find? staged r.id with
      | none => exact known
      | some version => rfl
    rw [if_neg absent, if_pos listed, overlaid, List.map_append]
    congr 1
    refine (List.map_id _).symm.trans (List.map_congr_left fun s member => ?_)
    have other : s.id ≠ r.id := by
      rintro same
      exact absent (same ▸ (List.mem_filter.mp member).2)
    rw [if_neg other, id]

end Table
end RecordQuery
