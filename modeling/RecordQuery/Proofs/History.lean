import RecordQuery.Proofs.Observations

/-!
Histories of a store: uses of it by any number of stages in any order. In every state that a history
reaches which loads new identifiers only, every view lists each identifier once and finding a record
is listing it, and the commit of a stage makes durable exactly what the stage saw, order included
(`commit_reads_as_stage`). The invariant behind it is `Store.Sound`. Where stages are
opened before they are written in, only opened ones hold writes (`Store.StagesOpened`).
-/
namespace RecordQuery

open Calendar (Instant)

/-! ### Uses of a store -/

/-- One use of a store. A write comes with the time that the clock shows then. -/
inductive Operation where
  | load (table : String) (records : List Record)
  | openStage
  | insert (now : Instant) (stage : StageId) (table id : String) (fields : Dict Json)
  | update (now : Instant) (stage : StageId) (table id : String) (fields : Dict Json)
  | get (view : Option StageId) (table id : String)
  | scan (view : Option StageId) (table : String) (limit : Option Nat)
  | commit (stage : StageId)
  | rollback (stage : StageId)
  | pending
  | count (table : String)

/-- Whether the use writes in a stage. -/
def Operation.writesIn (s : StageId) : Operation → Bool
  | .insert _ stage _ _ _ => stage == s
  | .update _ stage _ _ _ => stage == s
  | _ => false

/-- What a use of a store is answered with. -/
inductive Answer where
  | done
  | opened (stage : StageId)
  | written (reply : Except Failure Record)
  | found (r : Option Record)
  | listed (records : List Record)
  | counted (n : Nat)
  | told (b : Bool)

namespace Store

/-- The answer to a use of a store, and the store after it. -/
def perform (store : Store) : Operation → Answer × Store
  | .load table records => (.done, store.load table records)
  | .openStage => (.opened store.openStage.1, store.openStage.2)
  | .insert now stage table id fields =>
    (.written (store.insert now stage table id fields).1,
      (store.insert now stage table id fields).2)
  | .update now stage table id fields =>
    (.written (store.update now stage table id fields).1,
      (store.update now stage table id fields).2)
  | .get view table id => (.found (store.get? view table id), store)
  | .scan view table limit => (.listed (store.scan view table limit), store)
  | .commit stage => (.counted (store.commit stage).1, (store.commit stage).2)
  | .rollback stage => (.counted (store.rollback stage).1, (store.rollback stage).2)
  | .pending => (.told store.hasPending, store)
  | .count table => (.counted (store.committedCount table), store)

/-- What a use can make of a store. -/
inductive Effect (store : Store) : Operation → Store → Prop where
  | nothing (op : Operation) : Effect store op store
  | write {op : Operation} {s : StageId} (writes : op.writesIn s = true) (name : String)
      (r : Record) : Effect store op (store.write s name r)
  | load (table : String) (records : List Record) :
      Effect store (.load table records) (store.load table records)
  | openStage : Effect store .openStage store.openStage.2
  | commit (s : StageId) : Effect store (.commit s) (store.commit s).2
  | rollback (s : StageId) : Effect store (.rollback s) (store.rollback s).2

theorem effect_perform (store : Store) (op : Operation) : Effect store op (store.perform op).2 := by
  cases op with
  | load table records => exact .load table records
  | openStage => exact .openStage
  | insert now stage table id fields =>
    have writes : (Operation.insert now stage table id fields).writesIn stage = true :=
      beq_self_eq_true stage
    rcases insert_cases store now stage table id fields with ⟨failure, refused⟩ | ⟨-, written⟩
    · rw [perform, refused]; exact .nothing _
    · rw [perform, written]; exact .write writes _ _
  | update now stage table id fields =>
    have writes : (Operation.update now stage table id fields).writesIn stage = true :=
      beq_self_eq_true stage
    rcases update_cases store now stage table id fields with ⟨failure, refused⟩ | ⟨r, -, written⟩
    · rw [perform, refused]; exact .nothing _
    · rw [perform, written]; exact .write writes _ _
  | commit stage => exact .commit stage
  | rollback stage => exact .rollback stage
  | get | scan | pending | count => exact .nothing _

/-- The store after a history. -/
def after (store : Store) : List Operation → Store
  | [] => store
  | op :: rest => (store.perform op).2.after rest

/-- The uses of a history, each with its answer. -/
def answers (store : Store) : List Operation → List (Operation × Answer)
  | [] => []
  | op :: rest => (op, (store.perform op).1) :: (store.perform op).2.answers rest

/-- The stores that a new store can become by uses which are admitted where they happen. -/
inductive Reached (admits : Store → Operation → Prop) : Store → Prop where
  | new : Reached admits {}
  | perform {store : Store} {op : Operation} (before : Reached admits store)
      (admitted : admits store op) : Reached admits (store.perform op).2

/-- Loaded records have identifiers that the committed table does not list. -/
def LoadsNew (store : Store) : Operation → Prop
  | .load table records =>
    Table.Distinct records ∧ ∀ r ∈ records, store.get? none table r.id = none
  | _ => True

/-! ### The invariant -/

/-- Each table lists each identifier once, and each stage has one table of each name. -/
structure Sound (store : Store) : Prop where
  names : ∀ id, (Dict.keys (store.stage id).tables).Nodup
  committed : ∀ name, Table.Distinct (store.table name)
  staged : ∀ view name, Table.Distinct (store.staged view name)

theorem sound_new : Sound {} where
  names _ := List.nodup_nil
  committed _ := Table.distinct_nil
  staged view _ := by cases view <;> exact Table.distinct_nil

theorem Sound.write {store : Store} (sound : store.Sound) (id : StageId) (name : String)
    (r : Record) : (store.write id name r).Sound where
  names other := nodup_names_write (sound.names other) id name r
  committed := sound.committed
  staged view other := by
    cases view with
    | none => exact Table.distinct_nil
    | some stage =>
      by_cases same : stage = id
      · subst same
        by_cases here : other = name
        · subst here
          rw [staged_write_self]
          exact Table.distinct_upsert (sound.staged _ _) r
        · rw [staged_write_of_ne store stage r here]
          exact sound.staged _ _
      · rw [Store.staged, stage_write_of_ne store name r same]
        exact sound.staged (some stage) other

theorem Sound.load {store : Store} (sound : store.Sound) {table : String} {records : List Record}
    (new : LoadsNew store (.load table records)) : (store.load table records).Sound where
  names := sound.names
  staged := sound.staged
  committed name := by
    obtain ⟨distinct, absent⟩ := new
    by_cases same : name = Text.lower table
    · subst same
      rw [table_load_self]
      exact (Table.distinct_append (sound.committed _)).mpr ⟨distinct, absent⟩
    · rw [table_load_of_ne store records same]
      exact sound.committed name

/-- Ending a stage leaves the other stages as they are and its own without writes. -/
theorem Sound.drop {store after : Store} (sound : store.Sound) {id : StageId}
    (self : after.stage id = {})
    (others : ∀ other, other ≠ id → after.stage other = store.stage other)
    (committed : ∀ name, Table.Distinct (after.table name)) : after.Sound where
  names other := by
    rcases stage_of_ended self others other with empty | same
    · rw [empty]; exact List.nodup_nil
    · rw [same]; exact sound.names other
  committed := committed
  staged view name := by
    cases view with
    | none => exact Table.distinct_nil
    | some other =>
      rcases stage_of_ended self others other with empty | same
      · rw [Store.staged, empty]; exact Table.distinct_nil
      · rw [Store.staged, same]; exact sound.staged (some other) name

theorem Sound.rollback {store : Store} (sound : store.Sound) (id : StageId) :
    (store.rollback id).2.Sound :=
  sound.drop (stage_dropStage_self store id) (fun _ ne => stage_dropStage_of_ne store ne)
    sound.committed

theorem Sound.commit {store : Store} (sound : store.Sound) (id : StageId) :
    (store.commit id).2.Sound :=
  sound.drop (stage_commit_self store id) (fun _ ne => stage_commit_of_ne store ne) fun name => by
    rw [table_commit (sound.names id)]
    exact Table.distinct_upsertAll (sound.committed name) _

/-- Every admitted use keeps the invariant. -/
theorem Sound.perform {store : Store} (sound : store.Sound) {op : Operation}
    (new : LoadsNew store op) : (store.perform op).2.Sound := by
  have effect := store.effect_perform op
  generalize (store.perform op).2 = later at effect ⊢
  cases effect with
  | nothing => exact sound
  | write writes name r => exact sound.write _ name r
  | load table records => exact sound.load new
  | openStage => exact ⟨sound.names, sound.committed, sound.staged⟩
  | commit s => exact sound.commit s
  | rollback s => exact sound.rollback s

theorem Reached.sound {admits : Store → Operation → Prop}
    (news : ∀ store op, admits store op → LoadsNew store op) {store : Store}
    (reached : Reached admits store) : store.Sound := by
  induction reached with
  | new => exact sound_new
  | perform _ admitted ih => exact ih.perform (news _ _ admitted)

/-! ### Stages that have been opened -/

/-- A write goes to a stage that has been opened: who writes has got the stage by opening it. -/
def WritesOpened (store : Store) (op : Operation) : Prop :=
  ∀ s, op.writesIn s = true → s.number ≤ store.opened

/-- Only stages that have been opened hold writes. -/
def StagesOpened (store : Store) : Prop := ∀ entry ∈ store.stages, entry.1.number ≤ store.opened

/-- Nothing is known of a stage that has not been opened. -/
theorem StagesOpened.absent {store : Store} (opened : store.StagesOpened) {id : StageId}
    (later : store.opened < id.number) : ∀ entry ∈ store.stages, entry.1 ≠ id := by
  rintro entry member rfl
  have := opened entry member
  omega

section
variable {store : Store} {id : StageId} (absent : ∀ entry ∈ store.stages, entry.1 ≠ id)

include absent

theorem stage_of_absent : store.stage id = {} := by
  have missing : store.stages.lookup id = none := by
    rw [List.lookup_eq_none_iff]
    intro entry member
    exact bne_iff_ne.mpr (absent entry member).symm
  rw [Store.stage, missing, Option.getD_none]

theorem rollback_of_absent : (store.rollback id).2 = store := by
  have kept : store.stages.filter (·.1 != id) = store.stages :=
    List.filter_eq_self.mpr fun entry member => bne_iff_ne.mpr (absent entry member)
  rw [rollback, dropStage, kept]

theorem commit_of_absent : (store.commit id).2 = store := by
  have settled := committed_commit_of_empty (stage_of_absent absent)
  calc (store.commit id).2
      = { (store.rollback id).2 with committed := (store.commit id).2.committed } := rfl
    _ = store := by rw [rollback_of_absent absent, settled]

end

theorem StagesOpened.write {store : Store} (opened : store.StagesOpened) {id : StageId}
    (known : id.number ≤ store.opened) (name : String) (r : Record) :
    (store.write id name r).StagesOpened := by
  intro entry member
  rcases List.mem_cons.mp member with rfl | kept
  · exact known
  · exact opened entry (List.mem_filter.mp kept).1

theorem StagesOpened.dropStage {store : Store} (opened : store.StagesOpened) (id : StageId) :
    (store.dropStage id).StagesOpened := fun entry member =>
  opened entry (List.mem_filter.mp member).1

theorem StagesOpened.openStage {store : Store} (opened : store.StagesOpened) :
    store.openStage.2.StagesOpened := fun entry member => Nat.le_succ_of_le (opened entry member)

theorem StagesOpened.perform {store : Store} (opened : store.StagesOpened) {op : Operation}
    (known : WritesOpened store op) : (store.perform op).2.StagesOpened := by
  have effect := store.effect_perform op
  generalize (store.perform op).2 = later at effect ⊢
  cases effect with
  | write writes name r => exact opened.write (known _ writes) name r
  | openStage => exact opened.openStage
  | commit s => exact opened.dropStage s
  | rollback s => exact opened.dropStage s
  | nothing | load => exact opened

theorem Reached.stagesOpened {admits : Store → Operation → Prop}
    (known : ∀ store op, admits store op → WritesOpened store op) {store : Store}
    (reached : Reached admits store) : store.StagesOpened := by
  induction reached with
  | new => intro entry member; simp at member
  | perform _ admitted ih => exact ih.perform (known _ _ admitted)

/-! ### What views show -/

theorem Sound.distinct_records {store : Store} (sound : store.Sound) (view : Option StageId)
    (name : String) : Table.Distinct (store.records view name) :=
  Table.distinct_overlaid (sound.committed name) (sound.staged view name)

/-- Looking a record up is finding it among the records of the view. -/
theorem Sound.lookup?_eq {store : Store} (sound : store.Sound) (view : Option StageId)
    (name id : String) : store.lookup? view name id = Table.find? (store.records view name) id := by
  rw [records, Table.find?_overlaid (sound.committed name) (sound.staged view name), lookup?]
  cases Table.find? (store.staged view name) id <;> rfl

/-- The committed records after a commit are those that the stage saw before it. -/
theorem Sound.records_commit {store : Store} (sound : store.Sound) (id : StageId) (name : String) :
    (store.commit id).2.records none name = store.records (some id) name := by
  rw [records_none, table_commit (sound.names id), records,
    Table.upsertAll_eq_overlaid (sound.committed name) (sound.staged _ name)]

theorem Sound.scan_commit {store : Store} (sound : store.Sound) (id : StageId) (table : String)
    (limit : Option Nat) :
    (store.commit id).2.scan none table limit = store.scan (some id) table limit := by
  simp only [scan, sound.records_commit]

theorem Sound.get?_commit {store : Store} (sound : store.Sound) (stage : StageId)
    (table id : String) :
    (store.commit stage).2.get? none table id = store.get? (some stage) table id := by
  rw [get?, get?, (sound.commit stage).lookup?_eq, sound.lookup?_eq, sound.records_commit]

/-- The commit of a stage makes durable what the stage saw: committed records are then found and
listed as the stage found and listed them before. Every view lists each identifier once, finds the
records that it lists, and cuts its list where a limit says. The store may have any past in which
loaded identifiers were new. -/
theorem commit_reads_as_stage {store : Store} (reached : Reached LoadsNew store) :
    (∀ stage table id limit,
      (store.commit stage).2.get? none table id = store.get? (some stage) table id ∧
      (store.commit stage).2.scan none table limit = store.scan (some stage) table limit) ∧
    ∀ view table,
      ((store.scan view table none).map Record.id).Nodup ∧
      (∀ id r, store.get? view table id = some r ↔
        r ∈ store.scan view table none ∧ r.id = id) ∧
      ∀ n, store.scan view table (some n) = (store.scan view table none).take n := by
  have sound := reached.sound fun _ _ new => new
  refine ⟨fun stage table id limit =>
    ⟨sound.get?_commit stage table id, sound.scan_commit stage table limit⟩, ?_⟩
  intro view table
  have distinct := sound.distinct_records view (Text.lower table)
  refine ⟨distinct, ?_, fun n => rfl⟩
  intro id r
  rw [get?, sound.lookup?_eq, Table.find?_eq_some_iff distinct]
  rfl

/-- Two loaded records, of which a stage changes the first after it has inserted a third. -/
def overlaidItems : Store :=
  after {}
    [.load "items" [.create ⟨0, 0, 0⟩ "a" [], .create ⟨0, 0, 0⟩ "b" []],
      .openStage,
      .insert ⟨1, 0, 0⟩ ⟨1⟩ "Items" "c" [],
      .update ⟨2, 0, 0⟩ ⟨1⟩ "ITEMS" "a" [("n", .ofNat 1)]]

theorem commit_reads_as_stage_overlaidItems :
    Reached LoadsNew overlaidItems ∧
      (overlaidItems.commit ⟨1⟩).2.scan none "items" none =
        overlaidItems.scan (some ⟨1⟩) "items" none := by
  have loaded : LoadsNew {} (.load "items" [.create ⟨0, 0, 0⟩ "a" [], .create ⟨0, 0, 0⟩ "b" []]) :=
    ⟨by simp [Table.Distinct, Record.create], fun _ _ => rfl⟩
  have reached : Reached LoadsNew overlaidItems :=
    .perform (.perform (.perform (.perform .new loaded) trivial) trivial) trivial
  exact ⟨reached, ((commit_reads_as_stage reached).1 ⟨1⟩ "items" "a" none).2⟩

end Store
end RecordQuery
