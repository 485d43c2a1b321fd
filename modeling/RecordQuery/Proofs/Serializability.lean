import RecordQuery.Proofs.Isolation
import Mathlib.Data.List.Induction
import Mathlib.Tactic.IntervalCases

/-!
Stages that do not conflict are serializable in the order of their commits. A commit puts the latest
versions that its stage has written into the places of the committed ones, and appends the new ones
in the order in which they were first written (`table_after_commit`), so the last commit wins. Where
no other stage commits a record between the first attempt of a stage to write it and the commit of
the stage, the history answers as the one in which each stage makes all its writes right before its
commit, and leaves the same tables, order included (`commits_serializable`). The proof moves the
writes of a stage to its commit: what they find and what they answer depends on the committed
versions of their own records only (`replay`).
-/
namespace RecordQuery

open Calendar (Instant)

/-! ### The versions that writes leave -/

namespace Table

/-- Each record that was written, at the place of its first version and as its last one. -/
def latest (written : List Record) : List Record :=
  (written.map Record.id).eraseDups.filterMap (find? written)

theorem find?_concat (t : Table) (r : Record) (id : String) :
    find? (t ++ [r]) id = if r.id = id then some r else find? t id := by
  rw [find?_append]
  by_cases same : r.id = id <;> simp [find?, same]

theorem latest_concat (written : List Record) (r : Record) :
    latest (written ++ [r]) =
      if (find? written r.id).isSome then
        (latest written).map (fun s => if s.id = r.id then r else s)
      else latest written ++ [r] := by
  have ids : ((written ++ [r]).map Record.id).eraseDups =
      (written.map Record.id).eraseDups ++
        ([r.id].removeAll (written.map Record.id)).eraseDups := by
    rw [List.map_append, List.eraseDups_append]
    rfl
  rw [latest, ids, List.filterMap_append]
  cases found : find? written r.id with
  | some old =>
    obtain ⟨member, sameId⟩ := mem_of_find? found
    have listed : [r.id].removeAll (written.map Record.id) = [] := by
      simpa [List.removeAll] using ⟨old, member, sameId⟩
    rw [listed, List.eraseDups_nil, List.filterMap_nil, List.append_nil, latest, List.map_filterMap]
    rw [if_pos (Option.isSome_some)]
    refine List.filterMap_congr fun id _ => ?_
    rw [find?_concat]
    by_cases same : r.id = id
    · subst same
      simp [found, sameId]
    · rw [if_neg same]
      cases other : find? written id with
      | none => rfl
      | some s =>
        have ne : s.id ≠ r.id := fun equal => same (equal.symm.trans (mem_of_find? other).2)
        simp [ne]
  | none =>
    have new := (find?_eq_none_iff written r.id).mp found
    have missing : [r.id].removeAll (written.map Record.id) = [r.id] := by
      simpa [List.removeAll] using new
    have before : (written.map Record.id).eraseDups.filterMap (find? (written ++ [r])) =
        latest written := by
      refine List.filterMap_congr fun id member => ?_
      obtain ⟨s, listed, rfl⟩ := List.mem_map.mp (List.mem_eraseDups.mp member)
      rw [find?_concat, if_neg (Ne.symm (new s listed))]
    have last : [r.id].eraseDups.filterMap (find? (written ++ [r])) = [r] := by
      simp [List.eraseDups_cons, find?_concat]
    rw [missing, before, last]
    rfl

theorem upsertAll_concat (t records : Table) (r : Record) :
    upsertAll t (records ++ [r]) = (upsertAll t records).upsert r := by
  rw [upsertAll, List.foldl_append]
  rfl

/-- Records that are put into an empty table one after another leave their latest versions. -/
theorem upsertAll_nil (written : List Record) : upsertAll [] written = latest written := by
  induction written using List.reverseRecOn with
  | nil => rfl
  | append_singleton before r ih =>
    have found : find? (upsertAll [] before) r.id = find? before r.id := by
      simp [find?_upsertAll, find?]
    rw [upsertAll_concat, upsert_eq (distinct_upsertAll distinct_nil before), found, ih,
      latest_concat]

theorem find?_latest (written : List Record) (id : String) :
    find? (latest written) id = find? written id := by
  simp [← upsertAll_nil, find?_upsertAll, find?]

end Table

/-! ### Histories in the order of their commits -/

namespace Operation

/-- Whether the use ends a stage. -/
def ends (s : StageId) : Operation → Bool
  | .commit stage => stage == s
  | .rollback stage => stage == s
  | _ => false

/-- Whether the use loads committed records. -/
def loads : Operation → Bool
  | .load .. => true
  | _ => false

/-- The record that a use tries to write, by the name of its table and its identifier. -/
def target? : Operation → Option (String × String)
  | .insert _ _ table id _ => some (Text.lower table, id)
  | .update _ _ table id _ => some (Text.lower table, id)
  | _ => none

section
variable {op : Operation} {s : StageId} (writes : op.writesIn s = true)

include writes

theorem ends_of_writesIn (t : StageId) : op.ends t = false := by
  cases op with
  | insert | update => rfl
  | _ => cases writes

theorem exists_target_of_writesIn : ∃ name id, op.target? = some (name, id) := by
  cases op with
  | insert | update => exact ⟨_, _, rfl⟩
  | _ => cases writes

end

section
variable {α : Type} (use : α → Operation)

/-- The writes of a stage since it was last ended, in a history whose entries are uses with or
without their answers. -/
def pendingWrites (s : StageId) (history : List α) : List α :=
  history.foldl
    (fun writes entry =>
      if (use entry).ends s then []
      else if (use entry).writesIn s then writes ++ [entry] else writes) []

/-- What an entry stands for in the serial history: a commit comes with the writes that it makes
durable. -/
def serialBlock (before : List α) (entry : α) : List α :=
  match use entry with
  | .openStage => [entry]
  | .commit s => pendingWrites use s before ++ [entry]
  | _ => []

/-- The serial history from an entry on. -/
def serialFrom : List α → List α → List α
  | _, [] => []
  | before, entry :: rest => serialBlock use before entry ++ serialFrom (before ++ [entry]) rest

/-- The history that runs the committed stages one after another in the order of their commits, each
with all its writes. Stages are opened where they were; writes that are never committed are left
out. -/
def serial (history : List α) : List α := serialFrom use [] history

theorem pendingWrites_concat (s : StageId) (history : List α) (entry : α) :
    pendingWrites use s (history ++ [entry]) =
      if (use entry).ends s then []
      else if (use entry).writesIn s then pendingWrites use s history ++ [entry]
      else pendingWrites use s history := by
  rw [pendingWrites, List.foldl_append]
  rfl

theorem mem_pendingWrites {s : StageId} {attempt : Operation} (writes : attempt.writesIn s = true)
    (before between : List Operation) (going : ∀ op ∈ between, op.ends s = false) :
    attempt ∈ pendingWrites id s (before ++ attempt :: between) := by
  have lasts := ends_of_writesIn writes s
  induction between using List.reverseRecOn with
  | nil => simp [pendingWrites_concat, lasts, writes]
  | append_singleton earlier op ih =>
    have member := ih fun op member => going op (List.mem_append_left _ member)
    rw [← List.cons_append, ← List.append_assoc, pendingWrites_concat, id_eq,
      if_neg (by simp [going op])]
    split
    · exact List.mem_append_left _ member
    · exact member

theorem serialFrom_concat (rest : List α) (entry : α) :
    ∀ before, serialFrom use before (rest ++ [entry]) =
      serialFrom use before rest ++ serialBlock use (before ++ rest) entry := by
  induction rest with
  | nil => intro before; simp [serialFrom]
  | cons first rest ih => intro before; simp [serialFrom, ih]

theorem serial_concat (history : List α) (entry : α) :
    serial use (history ++ [entry]) = serial use history ++ serialBlock use history entry :=
  serialFrom_concat use history entry []

end

/-- The records that a stage has written in a table since it was last ended, as the store answered
them. -/
def written (s : StageId) (name : String) (answered : List (Operation × Answer)) : List Record :=
  (pendingWrites Prod.fst s answered).filterMap fun
    | (op, .written (.ok r)) => if op.target? = some (name, r.id) then some r else none
    | _ => none

/-- The targets of these records. -/
def writtenTargets (s : StageId) (answered : List (Operation × Answer)) : List (String × String) :=
  (pendingWrites Prod.fst s answered).filterMap fun
    | (op, .written (.ok _)) => op.target?
    | _ => none

theorem target_of_mem_written {s : StageId} {name : String} {answered : List (Operation × Answer)}
    {r : Record} (version : r ∈ written s name answered) :
    (name, r.id) ∈ writtenTargets s answered := by
  obtain ⟨entry, pending, held⟩ := List.mem_filterMap.mp version
  refine List.mem_filterMap.mpr ⟨entry, pending, ?_⟩
  split at held
  · split at held
    · rename_i target
      obtain rfl := Option.some.inj held
      exact target
    · cases held
  · cases held

end Operation

namespace Store

open Operation

/-- Where a stage is committed, another one that will be committed has not tried to write any of its
records. -/
def ConflictFree (store : Store) (history : List Operation) : Prop :=
  ∀ before other rest, history = before ++ .commit other :: rest →
    ∀ s, s ≠ other → rest.find? (·.ends s) = some (.commit s) →
      ∀ attempt ∈ pendingWrites id s before,
        ∀ target ∈ writtenTargets other (store.answers before), attempt.target? ≠ some target

/-! ### Histories step by step -/

theorem after_append (store : Store) (first second : List Operation) :
    store.after (first ++ second) = (store.after first).after second := by
  induction first generalizing store with
  | nil => rfl
  | cons op rest ih => exact ih (store.perform op).2

theorem after_concat (store : Store) (history : List Operation) (op : Operation) :
    store.after (history ++ [op]) = ((store.after history).perform op).2 :=
  after_append store history [op]

theorem answers_append (store : Store) (first second : List Operation) :
    store.answers (first ++ second) =
      store.answers first ++ (store.after first).answers second := by
  induction first generalizing store with
  | nil => rfl
  | cons op rest ih => exact congrArg ((op, (store.perform op).1) :: ·) (ih (store.perform op).2)

theorem answers_concat (store : Store) (history : List Operation) (op : Operation) :
    store.answers (history ++ [op]) =
      store.answers history ++ [(op, ((store.after history).perform op).1)] :=
  answers_append store history [op]

theorem loadsNew_of_unloaded {store : Store} {op : Operation} (unloaded : op.loads = false) :
    LoadsNew store op := by
  cases op with
  | load => cases unloaded
  | _ => trivial

theorem Sound.after {store : Store} (sound : store.Sound) {history : List Operation}
    (unloaded : ∀ op ∈ history, op.loads = false) : (store.after history).Sound := by
  induction history generalizing store with
  | nil => exact sound
  | cons op rest ih =>
    have new : LoadsNew store op := loadsNew_of_unloaded (unloaded op (List.mem_cons_self ..))
    exact ih (sound.perform new) fun later member => unloaded later (List.mem_cons_of_mem _ member)

/-- A write in a stage is refused, or it writes its target. -/
theorem perform_write_cases (store : Store) {s : StageId} {op : Operation}
    (writes : op.writesIn s = true) :
    (∃ failure, store.perform op = (.written (.error failure), store)) ∨
      ∃ name r, op.target? = some (name, r.id) ∧
        store.perform op = (.written (.ok r), store.write s name r) := by
  cases op with
  | insert now stage table id fields =>
    obtain rfl : stage = s := beq_iff_eq.mp writes
    rcases insert_cases store now stage table id fields with ⟨failure, refused⟩ | ⟨-, written⟩
    · left
      exact ⟨failure, by rw [perform, refused]⟩
    · right
      exact ⟨Text.lower table, .create now id fields, rfl, by rw [perform, written]⟩
  | update now stage table id fields =>
    obtain rfl : stage = s := beq_iff_eq.mp writes
    rcases update_cases store now stage table id fields with ⟨failure, refused⟩ | ⟨r, seen, written⟩
    · left
      exact ⟨failure, by rw [perform, refused]⟩
    · right
      have same : r.id = id := id_of_lookup? seen
      refine ⟨Text.lower table, r.apply now fields, ?_, by rw [perform, written]⟩
      exact congrArg (fun id => some (Text.lower table, id)) same.symm
  | _ => simp [writesIn] at writes

/-- What a write in a stage answers and leaves there depends on what the stage holds and on the
committed version of its target. -/
theorem perform_write_congr {a b : Store} {s : StageId} {op : Operation} {name id : String}
    (writes : op.writesIn s = true) (target : op.target? = some (name, id))
    (own : a.stage s = b.stage s)
    (same : Table.find? (a.table name) id = Table.find? (b.table name) id) :
    (a.perform op).1 = (b.perform op).1 ∧ (a.perform op).2.stage s = (b.perform op).2.stage s := by
  have seen : a.lookup? (some s) name id = b.lookup? (some s) name id := by
    rw [lookup?, lookup?, staged, staged, own, same]
  have kept (name : String) (r : Record) :
      (a.write s name r).stage s = (b.write s name r).stage s := by
    rw [stage_write_self, stage_write_self, own]
  cases op with
  | insert now stage table key fields =>
    obtain rfl : stage = s := beq_iff_eq.mp writes
    obtain ⟨rfl, rfl⟩ := Prod.mk.inj (Option.some.inj target)
    simp only [perform, Store.insert, seen]
    cases b.lookup? (some stage) (Text.lower table) key with
    | some r => exact ⟨rfl, own⟩
    | none => exact ⟨rfl, kept _ _⟩
  | update now stage table key fields =>
    obtain rfl : stage = s := beq_iff_eq.mp writes
    obtain ⟨rfl, rfl⟩ := Prod.mk.inj (Option.some.inj target)
    simp only [perform, Store.update, seen]
    cases b.lookup? (some stage) (Text.lower table) key with
    | some r => exact ⟨rfl, kept _ _⟩
    | none => exact ⟨rfl, own⟩
  | _ => simp [writesIn] at writes

/-- A use that neither ends a stage nor writes in it leaves the stage as it is. -/
theorem stage_perform_of_other {s : StageId} {op : Operation} (goes : op.ends s = false)
    (silent : op.writesIn s = false) (store : Store) :
    (store.perform op).2.stage s = store.stage s := by
  have effect := store.effect_perform op
  generalize (store.perform op).2 = later at effect ⊢
  cases effect with
  | write writes name r =>
    refine stage_write_of_ne store name r ?_
    rintro rfl
    rw [writes] at silent
    cases silent
  | commit stage =>
    have ne : stage ≠ s := by simpa [ends] using goes
    exact stage_commit_of_ne store ne.symm
  | rollback stage =>
    have ne : stage ≠ s := by simpa [ends] using goes
    exact stage_dropStage_of_ne store ne.symm
  | nothing | load | openStage => rfl

theorem stage_perform_of_ends {s : StageId} {op : Operation} (ended : op.ends s = true)
    (store : Store) : (store.perform op).2.stage s = {} := by
  cases op with
  | commit stage =>
    obtain rfl : stage = s := beq_iff_eq.mp ended
    exact stage_commit_self store stage
  | rollback stage =>
    obtain rfl : stage = s := beq_iff_eq.mp ended
    exact stage_dropStage_self store stage
  | _ => simp [ends] at ended

/-- Uses other than loads and commits leave the committed records as they are. -/
theorem table_perform {op : Operation} (unloaded : op.loads = false)
    (uncommitted : ∀ s, op ≠ .commit s) (store : Store) (name : String) :
    (store.perform op).2.table name = store.table name := by
  have effect := store.effect_perform op
  generalize (store.perform op).2 = later at effect ⊢
  cases effect with
  | load => cases unloaded
  | commit s => exact absurd rfl (uncommitted s)
  | nothing | write | openStage | rollback => rfl

/-! ### One commit -/

section
variable {store : Store} (fresh : ∀ s, store.stage s = {})

include fresh

/-- A stage holds the latest versions of what it has written since it was last ended. -/
theorem staged_after (history : List Operation) (s : StageId) (name : String) :
    (store.after history).staged (some s) name =
      Table.latest (written s name (store.answers history)) := by
  rw [← Table.upsertAll_nil]
  induction history using List.reverseRecOn with
  | nil =>
    change (store.stage s).table name = []
    rw [fresh s]
    rfl
  | append_singleton before op ih =>
    rw [after_concat, answers_concat, written, pendingWrites_concat]
    by_cases ended : op.ends s = true
    · rw [if_pos ended, staged, stage_perform_of_ends ended]
      rfl
    · rw [if_neg ended]
      have goes : op.ends s = false := Bool.eq_false_iff.mpr ended
      by_cases writes : op.writesIn s = true
      · rw [if_pos writes, List.filterMap_append]
        rcases (store.after before).perform_write_cases writes with
          ⟨failure, refused⟩ | ⟨target, r, aims, stored⟩
        · rw [refused, ih]
          simp [written]
        · rw [stored]
          by_cases here : name = target
          · subst here
            rw [staged_write_self, ih]
            simp [written, aims, Table.upsertAll_concat]
          · rw [staged_write_of_ne _ s r here, ih]
            have ne : target ≠ name := Ne.symm here
            simp [written, aims, ne]
      · rw [if_neg writes, staged,
          stage_perform_of_other goes (Bool.eq_false_iff.mpr writes)]
        exact ih

/-- A commit puts the latest versions that its stage has written into the places of the committed
ones, and appends the new ones in the order in which they were first written. -/
theorem table_after_commit {history : List Operation} (sound : (store.after history).Sound)
    (s : StageId) (name : String) :
    (store.after (history ++ [.commit s])).table name =
      ((store.after history).table name).overlaid
        (Table.latest (written s name (store.answers history))) := by
  rw [after_concat, ← staged_after fresh]
  have upserted := table_commit (sound.names s) name
  rw [Table.upsertAll_eq_overlaid (sound.committed name) (sound.staged _ name)] at upserted
  exact upserted

end

/-! ### Moving the writes of a stage -/

/-- The writes of a stage answer alike in another store, and leave the same in the stage, where each
of them finds the same committed version of its target. -/
theorem replay {store other : Store} {s : StageId} (empty : store.stage s = {})
    (emptyOther : other.stage s = {}) (history : List Operation)
    (same : ∀ before attempt between name id, history = before ++ attempt :: between →
      attempt.writesIn s = true → (∀ op ∈ between, op.ends s = false) →
      attempt.target? = some (name, id) →
      Table.find? ((store.after before).table name) id = Table.find? (other.table name) id) :
    (other.after (pendingWrites id s history)).stage s = (store.after history).stage s ∧
      Agree s (other.after (pendingWrites id s history)) other ∧
      other.answers (pendingWrites id s history) =
        pendingWrites Prod.fst s (store.answers history) := by
  induction history using List.reverseRecOn with
  | nil => exact ⟨emptyOther.trans empty.symm, agree_refl s other, rfl⟩
  | append_singleton before op ih =>
    rw [after_concat, answers_concat, pendingWrites_concat, pendingWrites_concat, id_eq]
    by_cases ended : op.ends s = true
    · rw [if_pos ended, if_pos ended, stage_perform_of_ends ended]
      exact ⟨emptyOther, agree_refl s other, rfl⟩
    · rw [if_neg ended, if_neg ended]
      have goes : op.ends s = false := Bool.eq_false_iff.mpr ended
      obtain ⟨own, apart, alike⟩ := ih fun earlier attempt between name id split writes going => by
        refine same earlier attempt (between ++ [op]) name id (by simp [split]) writes ?_
        intro later member
        rcases List.mem_append.mp member with inside | last
        · exact going later inside
        · exact List.mem_singleton.mp last ▸ goes
      by_cases writes : op.writesIn s = true
      · rw [if_pos writes, if_pos writes, after_concat, answers_concat]
        obtain ⟨name, id, target⟩ := exists_target_of_writesIn writes
        have found := same before op [] name id rfl writes (by simp) target
        rw [← apart.table] at found
        obtain ⟨answered, left⟩ := perform_write_congr writes target own found.symm
        exact ⟨left, (agree_perform_of_writesIn writes _).trans apart, by rw [alike, answered]⟩
      · rw [if_neg writes, if_neg writes,
          stage_perform_of_other goes (Bool.eq_false_iff.mpr writes)]
        exact ⟨own, apart, alike⟩

/-- The committed version of a record stays as it is as long as no commit finds it written. -/
theorem find?_table_after {name id : String} (between : List Operation) :
    ∀ {store : Store}, store.Sound → (∀ op ∈ between, op.loads = false) →
      (∀ earlier other later, between = earlier ++ .commit other :: later →
        Table.find? ((store.after earlier).staged (some other) name) id = none) →
      Table.find? ((store.after between).table name) id = Table.find? (store.table name) id := by
  induction between with
  | nil => intro store _ _ _; rfl
  | cons op rest ih =>
    intro store sound unloaded unwritten
    have first := unloaded op (List.mem_cons_self ..)
    have new : LoadsNew store op := loadsNew_of_unloaded first
    have later := ih (sound.perform new)
      (fun next member => unloaded next (List.mem_cons_of_mem _ member))
      (fun earlier other later split => unwritten (op :: earlier) other later (by simp [split]))
    refine later.trans ?_
    by_cases commits : ∃ s, op = .commit s
    · obtain ⟨s, rfl⟩ := commits
      have absent := unwritten [] s rest rfl
      change Table.find? ((store.commit s).2.table name) id = _
      rw [table_commit (sound.names s), Table.find?_upsertAll]
      change Table.find? (store.staged (some s) name) id = none at absent
      rw [absent, Option.none_or]
    · rw [table_perform first fun s same => commits ⟨s, same⟩]

section
variable {store : Store} {history : List Operation}

theorem ConflictFree.before {op : Operation} (free : store.ConflictFree (history ++ [op])) :
    store.ConflictFree history := by
  intro before other rest split s ne next
  refine free before other (rest ++ [op]) (by simp [split]) s ne ?_
  rw [List.find?_append, next, Option.some_or]

/-- Where a stage is committed without a conflict, its writes found the committed versions that are
there at the commit. -/
theorem ConflictFree.finds {s : StageId} (free : store.ConflictFree (history ++ [.commit s]))
    (fresh : ∀ s, store.stage s = {}) (sound : store.Sound)
    (unloaded : ∀ op ∈ history, op.loads = false) {before between : List Operation}
    {attempt : Operation} {name id : String} (split : history = before ++ attempt :: between)
    (writes : attempt.writesIn s = true) (going : ∀ op ∈ between, op.ends s = false)
    (target : attempt.target? = some (name, id)) :
    Table.find? ((store.after before).table name) id =
      Table.find? ((store.after history).table name) id := by
  subst split
  rw [after_append]
  symm
  refine find?_table_after (attempt :: between) (sound.after fun op member => ?_)
    (fun op member => ?_) fun earlier other later found => ?_
  · exact unloaded op (List.mem_append_left _ member)
  · exact unloaded op (List.mem_append_right _ member)
  · cases earlier with
    | nil =>
      -- The attempt itself is no commit.
      obtain ⟨rfl, -⟩ := List.cons.inj found
      cases writes
    | cons first earlier =>
      obtain ⟨rfl, rfl⟩ := List.cons.inj found
      have ne : s ≠ other := by
        have last := going (.commit other) (by simp)
        rintro rfl
        simp [ends] at last
      have next : (later ++ [Operation.commit s]).find? (·.ends s) = some (.commit s) := by
        have none : later.find? (·.ends s) = none :=
          List.find?_eq_none.mpr fun op member => by simp [going op (by simp [member])]
        rw [List.find?_append, none]
        simp [ends]
      have pending := mem_pendingWrites writes before earlier fun op member =>
        going op (by simp [member])
      have apart := free (before ++ attempt :: earlier) other (later ++ [.commit s]) (by simp) s ne
        next attempt pending
      rw [← after_append, staged_after fresh, Table.find?_eq_none_iff]
      intro r listed same
      obtain ⟨key, -, version⟩ := List.mem_filterMap.mp listed
      have committed := target_of_mem_written (Table.mem_of_find? version).1
      exact apart (name, r.id) committed (same ▸ target)

/-- A history without conflicts and its serial history go through the same committed tables. -/
structure Serialized (a b : Store) : Prop where
  tables : ∀ name, a.table name = b.table name
  opened : a.opened = b.opened
  settled : ∀ s, b.stage s = {}

theorem Serialized.quiet {a b : Store} (serialized : Serialized a b) {op : Operation}
    (unloaded : op.loads = false) (uncommitted : ∀ s, op ≠ .commit s) (stays : op ≠ .openStage) :
    Serialized (a.perform op).2 b where
  tables name := (table_perform unloaded uncommitted a name).trans (serialized.tables name)
  opened := by
    refine Eq.trans ?_ serialized.opened
    have effect := a.effect_perform op
    generalize (a.perform op).2 = later at effect ⊢
    cases effect with
    | openStage => exact absurd rfl stays
    | nothing | write | load | commit | rollback => rfl
  settled := serialized.settled

theorem Serialized.openStage {a b : Store} (serialized : Serialized a b) :
    Serialized a.openStage.2 b.openStage.2 where
  tables := serialized.tables
  opened := congrArg (· + 1) serialized.opened
  settled := serialized.settled

/-- Where the stage holds the same in both stores, its commit goes on from the same tables to the
same tables, and counts the same writes. -/
theorem Serialized.commit {a b moved : Store} (serialized : Serialized a b) (sound : a.Sound)
    {s : StageId} (own : moved.stage s = a.stage s) (apart : Agree s moved b) :
    (a.commit s).1 = (moved.commit s).1 ∧ Serialized (a.commit s).2 (moved.commit s).2 := by
  refine ⟨congrArg Stage.writes own.symm, ⟨fun name => ?_, ?_, fun other => ?_⟩⟩
  · have names := sound.names s
    rw [table_commit names, table_commit (own ▸ names), staged, staged, own, apart.table,
      serialized.tables]
  · exact serialized.opened.trans apart.opened.symm
  · by_cases same : other = s
    · rw [same]; exact stage_commit_self moved s
    · rw [stage_commit_of_ne moved same, apart.stages other same, serialized.settled]

theorem serialized_after (fresh : ∀ s, store.stage s = {}) (sound : store.Sound)
    (history : List Operation) (unloaded : ∀ op ∈ history, op.loads = false)
    (free : store.ConflictFree history) :
    Serialized (store.after history) (store.after (serial id history)) ∧
      store.answers (serial id history) = serial Prod.fst (store.answers history) := by
  induction history using List.reverseRecOn with
  | nil => exact ⟨⟨fun _ => rfl, rfl, fresh⟩, rfl⟩
  | append_singleton before op ih =>
    have first : op.loads = false := unloaded op (by simp)
    have earlier : ∀ op ∈ before, op.loads = false := fun op member =>
      unloaded op (List.mem_append_left _ member)
    obtain ⟨serialized, alike⟩ := ih earlier free.before
    rw [answers_concat, serial_concat, serial_concat, after_concat, after_append, answers_append,
      alike]
    cases op with
    | load => cases first
    | openStage =>
      have opened : (store.after (serial id before)).openStage.1 =
          (store.after before).openStage.1 := by
        rw [Store.openStage, Store.openStage, serialized.opened]
      refine ⟨serialized.openStage, ?_⟩
      simp [serialBlock, answers, perform, opened]
    | commit s =>
      have finds : ∀ prior attempt between name key, before = prior ++ attempt :: between →
          attempt.writesIn s = true → (∀ op ∈ between, op.ends s = false) →
          attempt.target? = some (name, key) →
          Table.find? ((store.after prior).table name) key =
            Table.find? ((store.after (serial id before)).table name) key := by
        intro prior attempt between name key split writes going target
        rw [free.finds fresh sound earlier split writes going target, serialized.tables]
      obtain ⟨own, apart, answered⟩ := replay (fresh s) (serialized.settled s) before finds
      obtain ⟨count, ends⟩ := serialized.commit (sound.after earlier) own apart
      change Serialized _ (((store.after (serial id before)).after
          (pendingWrites id s before ++ [.commit s]))) ∧
        _ ++ (store.after (serial id before)).answers (pendingWrites id s before ++ [.commit s]) =
          _ ++ (pendingWrites Prod.fst s (store.answers before) ++
            [(.commit s, .counted ((store.after before).commit s).1)])
      rw [after_concat, answers_concat, answered, count]
      exact ⟨ends, rfl⟩
    | insert | update | get | scan | rollback | pending | count =>
      refine ⟨serialized.quiet first (by simp) (by simp), ?_⟩
      simp [serialBlock, answers]

end

/-! ### Serializability -/

/-- Each commit puts the latest versions that its stage has written into the places of the committed
ones, and appends those of new records in the order in which they were first written. Where the
stages do not conflict, the history answers the writes of its committed stages as the serial history
does, which runs them one after another in the order of their commits, and leaves the same
tables. -/
theorem commits_serializable {store : Store} (settled : store.stages = [])
    (unique : ∀ name, Table.Distinct (store.table name)) {history : List Operation}
    (unloaded : ∀ op ∈ history, op.loads = false) :
    (∀ before s rest, history = before ++ .commit s :: rest → ∀ name,
      (store.after (before ++ [.commit s])).table name =
        ((store.after before).table name).map (fun r =>
          (Table.find? (written s name (store.answers before)) r.id).getD r) ++
        (Table.latest (written s name (store.answers before))).filter fun r =>
          (Table.find? ((store.after before).table name) r.id).isNone) ∧
    (store.ConflictFree history →
      (∀ name, (store.after history).table name =
        (store.after (serial id history)).table name) ∧
      store.answers (serial id history) = serial Prod.fst (store.answers history)) := by
  have fresh (s : StageId) : store.stage s = {} := stage_of_absent (by simp [settled])
  have sound : store.Sound := by
    refine ⟨fun s => ?_, unique, fun view name => ?_⟩
    · rw [fresh s]
      exact List.nodup_nil
    · cases view with
      | none => exact Table.distinct_nil
      | some s =>
        rw [staged, fresh s]
        exact Table.distinct_nil
  constructor
  · rintro before s rest rfl name
    have reached := sound.after fun op member => unloaded op (List.mem_append_left _ member)
    rw [table_after_commit fresh reached, Table.overlaid]
    simp only [Table.find?_latest]
  · intro free
    obtain ⟨serialized, alike⟩ := serialized_after fresh sound history unloaded free
    exact ⟨serialized.tables, alike⟩

/-- Two items. -/
def pairedItems : Store :=
  { committed := [("items", [.create ⟨0, 0, 0⟩ "a" [], .create ⟨0, 0, 0⟩ "b" []])] }

/-- The second stage is committed while the first one holds writes, and writes again: a record of
its own before the first one is committed, and one that the first one has changed after that. -/
def crossingStages : List Operation :=
  [.openStage,
    .openStage,
    .update ⟨1, 0, 0⟩ ⟨1⟩ "items" "a" [("n", .ofNat 1)],
    .insert ⟨2, 0, 0⟩ ⟨1⟩ "items" "d" [],
    .insert ⟨3, 0, 0⟩ ⟨1⟩ "items" "a" [],
    .insert ⟨4, 0, 0⟩ ⟨2⟩ "Items" "c" [],
    .commit ⟨2⟩,
    .update ⟨5, 0, 0⟩ ⟨2⟩ "items" "b" [("n", .ofNat 2)],
    .commit ⟨1⟩,
    .update ⟨6, 0, 0⟩ ⟨2⟩ "items" "a" [("m", .ofNat 3)],
    .commit ⟨2⟩]

theorem conflictFree_crossingStages : pairedItems.ConflictFree crossingStages := by
  intro before other rest split s ne next attempt pending target written
  have here : crossingStages[before.length]? = some (.commit other) := by simp [split]
  have first : before = crossingStages.take before.length := by simp [split]
  have last : rest = crossingStages.drop (before.length + 1) := by simp [split]
  have bound : before.length < 11 := by
    have length : before.length < crossingStages.length := by simp [split]
    exact length
  rw [first] at pending written
  rw [last] at next
  clear first last split
  generalize before.length = n at *
  interval_cases n <;> simp [crossingStages] at here
  · -- The second stage is committed, and the first one will be.
    subst here
    by_cases first : s = ⟨1⟩
    · subst first
      have apart : ∀ a ∈ pendingWrites id ⟨1⟩ (crossingStages.take 6),
          ∀ t ∈ writtenTargets ⟨2⟩ (pairedItems.answers (crossingStages.take 6)),
            a.target? ≠ some t := by decide +kernel
      exact apart attempt pending target written
    · simp [crossingStages, ends, Ne.symm first, Ne.symm ne] at next
  · -- The first stage is committed, and the second one will be once more.
    subst here
    by_cases second : s = ⟨2⟩
    · subst second
      have apart : ∀ a ∈ pendingWrites id ⟨2⟩ (crossingStages.take 8),
          ∀ t ∈ writtenTargets ⟨1⟩ (pairedItems.answers (crossingStages.take 8)),
            a.target? ≠ some t := by decide +kernel
      exact apart attempt pending target written
    · simp [crossingStages, ends, Ne.symm second] at next
  · simp [crossingStages] at next

theorem commits_serializable_crossingStages :
    (pairedItems.stages = [] ∧ (∀ name, Table.Distinct (pairedItems.table name)) ∧
        (∀ op ∈ crossingStages, op.loads = false) ∧ pairedItems.ConflictFree crossingStages) ∧
      ((pairedItems.after crossingStages).table "items").map Record.id = ["a", "b", "c", "d"] ∧
      pairedItems.answers (serial id crossingStages) =
        serial Prod.fst (pairedItems.answers crossingStages) := by
  have unique (name : String) : Table.Distinct (pairedItems.table name) := by
    by_cases items : name = "items"
    · subst items
      change ["a", "b"].Nodup
      decide
    · have none : pairedItems.table name = [] := by
        simp [Store.table, pairedItems, Dict.get?, Ne.symm items]
      rw [none]
      exact Table.distinct_nil
  have unloaded : ∀ op ∈ crossingStages, op.loads = false := by simp [crossingStages, loads]
  have serializable := commits_serializable rfl unique unloaded
  exact ⟨⟨rfl, unique, unloaded, conflictFree_crossingStages⟩, by decide +kernel,
    (serializable.2 conflictFree_crossingStages).2⟩

end Store
end RecordQuery
