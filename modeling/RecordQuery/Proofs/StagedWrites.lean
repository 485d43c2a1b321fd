import RecordQuery.Proofs.Serializability
import RecordQuery.Proofs.StoredFields

/-!
What a write in a stage changes, and what it leaves alone. An insertion or an update is refused and
changes nothing, or it is carried out as a whole (`Store.WritesExactly`): the stage then reads the
record that it was handed back, and every other record and every other view are as they were
(`Store.Wrote`). A stage counts the writes that were carried out since it was last ended
(`Store.writes_after`); its commit and its rollback tell this number, and something is pending as
long as one of these numbers is not zero. All of this holds after every history, also where an
identifier was loaded twice (`Store.writes_exact`).
-/
namespace RecordQuery

open Calendar (Instant)

namespace Store

open Operation

/-! ### One write -/

/-- A view shows a record of a table under an identifier. -/
def Shows (store : Store) (view : Option StageId) (table id : String) : Prop :=
  ∃ r ∈ store.scan view table none, r.id = id

/-- What a view shows under an identifier, it finds there. -/
theorem isSome_get?_iff (store : Store) (view : Option StageId) (table id : String) :
    (store.get? view table id).isSome ↔ store.Shows view table id := by
  have found : store.get? view table id =
      ((store.staged view (Text.lower table)).find? id).or
        ((store.table (Text.lower table)).find? id) := by
    rw [get?, lookup?]
    cases (store.staged view (Text.lower table)).find? id with
    | none => rfl
    | some r => rfl
  rw [found]
  exact Table.listed_overlaid_iff.symm

/-- From one store to the next, a stage has written a record in a table, and nothing else has
changed. The table is found under every spelling of its name. -/
structure Wrote (before after : Store) (s : StageId) (table : String) (r : Record) : Prop where
  found : ∀ spelled, Text.lower spelled = Text.lower table →
    after.get? (some s) spelled r.id = some r
  /-- The record stands where its earlier version stood, or else last. -/
  listed : ∀ spelled, Text.lower spelled = Text.lower table →
    after.scan (some s) spelled none = Table.place (before.scan (some s) spelled none) r
  others : ∀ other id, (Text.lower other, id) ≠ (Text.lower table, r.id) →
    after.get? (some s) other id = before.get? (some s) other id
  tables : ∀ other limit, Text.lower other ≠ Text.lower table →
    after.scan (some s) other limit = before.scan (some s) other limit
  views : ∀ view, view ≠ some s → ∀ other id limit,
    after.get? view other id = before.get? view other id ∧
      after.scan view other limit = before.scan view other limit
  counts : ∀ stage, (after.stage stage).writes =
    (before.stage stage).writes + if stage = s then 1 else 0

theorem wrote_write {store : Store} {s : StageId} {table : String}
    (distinct : Table.Distinct (store.staged (some s) (Text.lower table))) (r : Record) :
    Wrote store (store.write s (Text.lower table) r) s table r where
  found spelled same := by
    rw [get?, same]
    exact lookup?_write_self store s (Text.lower table) r
  listed spelled same := by
    have added : Table.Distinct ((store.staged (some s) (Text.lower table)).filter
        fun r => ((store.table (Text.lower table)).find? r.id).isNone) :=
      distinct.sublist (List.filter_sublist.map Record.id)
    simp only [scan, same]
    exact records_write_self added r
  others other id apart := by
    rw [get?, get?]
    by_cases same : Text.lower other = Text.lower table
    · have ne : id ≠ r.id := by
        rintro rfl
        exact apart (by rw [same])
      rw [same]
      exact lookup?_write_of_ne ne
    · rw [lookup?, staged_write_of_ne store s r same]
      rfl
  tables other limit apart := by
    simp only [scan, records, staged_write_of_ne store s r apart]
    rfl
  views view apart other id limit := by
    have agree := agree_write store s (Text.lower table) r
    exact ⟨agree.lookup? apart _ id, agree.scan apart other limit⟩
  counts stage := by
    by_cases same : stage = s
    · subst same
      rw [stage_write_self, if_pos rfl]
    · rw [stage_write_of_ne store _ r same, if_neg same, Nat.add_zero]

/-- A write is carried out as a whole or not at all: it is refused under a condition, and then the
store stays as it is; otherwise it hands back the record that it has written. -/
structure WritesExactly (store : Store) (s : StageId) (table : String) (refuses : Prop)
    (makes : Record → Prop) (outcome : Except Failure Record × Store) : Prop where
  refused : (∃ failure, outcome.1 = .error failure) ↔ refuses
  unchanged : ∀ failure, outcome.1 = .error failure → outcome.2 = store
  written : ∀ r, outcome.1 = .ok r → makes r ∧ Wrote store outcome.2 s table r

section
variable {store : Store} {s : StageId} {table : String} {refuses : Prop} {makes : Record → Prop}

theorem writesExactly_refused (holds : refuses) (failure : Failure) :
    store.WritesExactly s table refuses makes (.error failure, store) where
  refused := ⟨fun _ => holds, fun _ => ⟨failure, rfl⟩⟩
  unchanged _ _ := rfl
  written r handed := by cases handed

theorem writesExactly_written
    (distinct : Table.Distinct (store.staged (some s) (Text.lower table))) (accepts : ¬ refuses)
    {r : Record} (made : makes r) :
    store.WritesExactly s table refuses makes (.ok r, store.write s (Text.lower table) r) where
  refused := by
    refine ⟨?_, fun holds => absurd holds accepts⟩
    rintro ⟨failure, refused⟩
    cases refused
  unchanged failure refused := by cases refused
  written other handed := by
    cases handed
    exact ⟨made, wrote_write distinct r⟩

end

section
variable {store : Store} {s : StageId} {table : String}
  (distinct : Table.Distinct (store.staged (some s) (Text.lower table)))
  {fields : Dict Json} (once : (Dict.keys fields).Nodup) (now : Instant) (id : String)

include distinct once

/-- An insertion is refused where the stage shows the identifier, and else makes a record of the
given fields. -/
theorem insert_exactly :
    store.WritesExactly s table (store.Shows (some s) table id) (Record.Made now id fields)
      (store.insert now s table id fields) := by
  cases seen : store.lookup? (some s) (Text.lower table) id with
  | some old =>
    have there : store.Shows (some s) table id := by
      rw [← isSome_get?_iff, get?, seen]
      rfl
    simp only [insert, seen]
    exact writesExactly_refused there _
  | none =>
    have missing : ¬ store.Shows (some s) table id := by
      rw [← isSome_get?_iff, get?, seen]
      simp
    simp only [insert, seen]
    exact writesExactly_written distinct missing
      (Record.made_create once now id)

/-- An update is refused where the stage does not show the identifier, and else lays the changes
over the record that the stage finds. -/
theorem update_exactly :
    store.WritesExactly s table (¬ store.Shows (some s) table id)
      (fun r => ∃ old, store.get? (some s) table id = some old ∧ old.id = id ∧
        Record.Changed now fields old r)
      (store.update now s table id fields) := by
  cases seen : store.lookup? (some s) (Text.lower table) id with
  | none =>
    have missing : ¬ store.Shows (some s) table id := by
      rw [← isSome_get?_iff, get?, seen]
      simp
    simp only [update, seen]
    exact writesExactly_refused missing _
  | some old =>
    have there : store.Shows (some s) table id := by
      rw [← isSome_get?_iff, get?, seen]
      rfl
    simp only [update, seen]
    exact writesExactly_written distinct (not_not.mpr there)
      ⟨old, seen, id_of_lookup? seen, Record.changed_apply once now old⟩

end

/-! ### Counting writes -/

/-- Each stage is kept once. -/
def StagesOnce (store : Store) : Prop := (store.stages.map Prod.fst).Nodup

theorem StagesOnce.setStage {store : Store} (once : store.StagesOnce) (id : StageId)
    (stage : Stage) : (store.setStage id stage).StagesOnce := by
  refine List.nodup_cons.mpr ⟨?_, once.sublist (List.filter_sublist.map Prod.fst)⟩
  intro listed
  obtain ⟨entry, member, same⟩ := List.mem_map.mp listed
  exact bne_iff_ne.mp (List.mem_filter.mp member).2 same

theorem StagesOnce.dropStage {store : Store} (once : store.StagesOnce) (id : StageId) :
    (store.dropStage id).StagesOnce := once.sublist (List.filter_sublist.map Prod.fst)

theorem StagesOnce.perform {store : Store} (once : store.StagesOnce) (op : Operation) :
    (store.perform op).2.StagesOnce := by
  have effect := store.effect_perform op
  generalize (store.perform op).2 = later at effect ⊢
  cases effect with
  | write writes name r => exact once.setStage _ _
  | commit s => exact once.dropStage s
  | rollback s => exact once.dropStage s
  | nothing | load | openStage => exact once

theorem StagesOnce.after {store : Store} (once : store.StagesOnce) (history : List Operation) :
    (store.after history).StagesOnce := by
  induction history generalizing store with
  | nil => exact once
  | cons op rest ih => exact ih (once.perform op)

/-- Something is pending if a stage has written. -/
theorem StagesOnce.hasPending_iff {store : Store} (once : store.StagesOnce) :
    store.hasPending = true ↔ ∃ s, 0 < (store.stage s).writes := by
  rw [hasPending, List.any_eq_true]
  constructor
  · rintro ⟨⟨s, stage⟩, member, counted⟩
    have kept : store.stages.lookup s = some stage := by
      obtain ⟨before, rest, split⟩ := List.append_of_mem member
      rw [StagesOnce, split, List.map_append, List.map_cons, List.nodup_middle,
        List.nodup_cons, List.mem_append] at once
      have earlier : before.lookup s = none := by
        rw [List.lookup_eq_none_iff]
        intro entry listed
        rw [bne_iff_ne]
        intro same
        exact once.1 (.inl (List.mem_map.mpr ⟨entry, listed, same.symm⟩))
      rw [split, List.lookup_append, earlier, List.lookup_cons_self]
      rfl
    refine ⟨s, ?_⟩
    rw [Store.stage, kept]
    simpa using counted
  · rintro ⟨s, counted⟩
    cases kept : store.stages.lookup s with
    | none =>
      rw [Store.stage, kept] at counted
      cases counted
    | some stage =>
      rw [Store.stage, kept] at counted
      obtain ⟨before, rest, split, -⟩ := List.lookup_eq_some_iff.mp kept
      exact ⟨(s, stage), by simp [split], by simpa using counted⟩

/-- A stage has counted its writes since it was last ended. -/
theorem writes_after {store : Store} (fresh : ∀ s, store.stage s = {}) (history : List Operation)
    (s : StageId) :
    ((store.after history).stage s).writes =
      (writtenTargets s (store.answers history)).length := by
  induction history using List.reverseRecOn with
  | nil =>
    change (store.stage s).writes = 0
    rw [fresh s]
  | append_singleton before op ih =>
    rw [after_concat, answers_concat, writtenTargets, pendingWrites_concat]
    by_cases ended : op.ends s = true
    · rw [if_pos ended, stage_perform_of_ends ended]
      rfl
    · rw [if_neg ended]
      by_cases writes : op.writesIn s = true
      · rw [if_pos writes, List.filterMap_append, List.length_append]
        rcases (store.after before).perform_write_cases writes with
          ⟨failure, refused⟩ | ⟨name, r, aims, stored⟩
        · rw [refused, ih]
          rfl
        · rw [stored, stage_write_self, ih]
          simp [writtenTargets, aims]
      · have goes : op.ends s = false := Bool.eq_false_iff.mpr ended
        rw [if_neg writes, stage_perform_of_other goes (Bool.eq_false_iff.mpr writes)]
        exact ih

/-! ### Writes after any history -/

/-- Writes are exact, framed and atomic. After every history, an insertion is refused exactly where
the stage shows the identifier and an update exactly where it does not; a refused write changes
nothing. What is carried out hands back the given fields, or the earlier record with the changes
laid over it, without system columns; the stage reads this record back, and nothing else changes.
The ends of a stage tell how many writes it has carried out since it was last ended, and something
is pending while one of these numbers is positive. -/
theorem writes_exact (history : List Operation) :
    let store := after {} history
    let writes (s : StageId) : Nat := (writtenTargets s (answers {} history)).length
    (∀ now s table id fields, (Dict.keys fields).Nodup →
      store.WritesExactly s table (store.Shows (some s) table id) (Record.Made now id fields)
        (store.insert now s table id fields) ∧
      store.WritesExactly s table (¬ store.Shows (some s) table id)
        (fun r => ∃ old, store.get? (some s) table id = some old ∧ old.id = id ∧
          Record.Changed now fields old r)
        (store.update now s table id fields)) ∧
    (∀ s, (store.commit s).1 = writes s ∧ (store.rollback s).1 = writes s) ∧
    (store.hasPending = true ↔ ∃ s, 0 < writes s) := by
  intro store writes
  have fresh : ∀ s, ({} : Store).stage s = {} := fun _ => rfl
  have counted : ∀ s, (store.stage s).writes = writes s := writes_after fresh history
  have new : ({} : Store).StagesOnce := List.nodup_nil
  have once : store.StagesOnce := new.after history
  refine ⟨?_, fun s => ⟨counted s, counted s⟩, ?_⟩
  · intro now s table id fields distinct
    have staged : Table.Distinct (store.staged (some s) (Text.lower table)) := by
      rw [staged_after fresh history, ← Table.upsertAll_nil]
      exact Table.distinct_upsertAll Table.distinct_nil _
    exact ⟨insert_exactly staged distinct now id, update_exactly staged distinct now id⟩
  · rw [once.hasPending_iff]
    simp only [counted]

/-- A loaded record, and one that a stage has inserted beside it. -/
def besideLoaded : List Operation :=
  [.load "items" [.create ⟨0, 0, 0⟩ "a" [("n", .ofNat 1)]],
    .openStage,
    .insert ⟨1, 0, 0⟩ ⟨1⟩ "items" "b" []]

theorem writes_exact_besideLoaded :
    let store := after {} besideLoaded
    let fields : Dict Json := [("id", .str "c"), ("n", .ofNat 2)]
    let updated := store.update ⟨2, 0, 0⟩ ⟨1⟩ "Items" "a" fields
    (Dict.keys fields).Nodup ∧
      (∃ failure, (store.insert ⟨2, 0, 0⟩ ⟨1⟩ "ITEMS" "b" fields).1 = .error failure) ∧
      (∃ r, updated.1 = .ok r ∧ r.id = "a" ∧ Dict.get? r.fields "n" = some (.ofNat 2) ∧
        updated.2.get? (some ⟨1⟩) "items" "a" = some r) ∧
      (store.commit ⟨1⟩).1 = 1 ∧ store.hasPending = true := by
  intro store fields updated
  have once : (Dict.keys fields).Nodup := by simp [fields, Dict.keys]
  obtain ⟨exactly, counts, pending⟩ := writes_exact besideLoaded
  obtain ⟨-, updates⟩ := exactly ⟨2, 0, 0⟩ ⟨1⟩ "Items" "a" fields once
  obtain ⟨inserts, -⟩ := exactly ⟨2, 0, 0⟩ ⟨1⟩ "ITEMS" "b" fields once
  have listed : (store.scan (some ⟨1⟩) "ITEMS" none).map Record.id = ["a", "b"] ∧
      (store.scan (some ⟨1⟩) "Items" none).map Record.id = ["a", "b"] := by decide +kernel
  have taken : store.Shows (some ⟨1⟩) "ITEMS" "b" := by
    have member : "b" ∈ (store.scan (some ⟨1⟩) "ITEMS" none).map Record.id := by simp [listed.1]
    simpa [Shows] using member
  have there : store.Shows (some ⟨1⟩) "Items" "a" := by
    have member : "a" ∈ (store.scan (some ⟨1⟩) "Items" none).map Record.id := by simp [listed.2]
    simpa [Shows] using member
  have one : (writtenTargets ⟨1⟩ (answers {} besideLoaded)).length = 1 := by decide +kernel
  refine ⟨once, inserts.refused.mpr taken, ?_, (counts ⟨1⟩).1.trans one,
    pending.mpr ⟨⟨1⟩, Nat.lt_of_lt_of_eq Nat.one_pos one.symm⟩⟩
  cases handed : updated.1 with
  | error failure => exact absurd there (updates.refused.mp ⟨failure, handed⟩)
  | ok r =>
    obtain ⟨⟨old, -, named, changed⟩, wrote⟩ := updates.written r handed
    have same : r.id = "a" := changed.id.trans named
    refine ⟨r, rfl, same, ?_, ?_⟩
    · rw [changed.columns "n"]
      rfl
    · have spelled : Text.lower "items" = Text.lower "Items" := by decide +kernel
      rw [← same]
      exact wrote.found "items" spelled

end Store
end RecordQuery
