import RecordQuery.Proofs.History

/-!
Stages are isolated from each other. Until a stage is committed, what it writes shows in no answer
outside of it; and where every write of a stage is rolled back before the stage is committed, the
history without these writes has the same answers outside the stage and leaves the same committed
records (`stages_isolated`). Two stores that agree outside a stage answer alike and go on agreeing
(`Agree.perform`); the proofs run two histories side by side on this.
-/
namespace RecordQuery

open Calendar (Instant)

namespace Operation

/-- Whether the use lies outside a stage: it belongs to the committed records or to another stage.
Asking whether any stage holds writes asks about all of them. -/
def outside (s : StageId) : Operation → Bool
  | .insert _ stage _ _ _ => stage != s
  | .update _ stage _ _ _ => stage != s
  | .get view _ _ => view != some s
  | .scan view _ _ => view != some s
  | .commit stage => stage != s
  | .rollback stage => stage != s
  | .pending => false
  | .load .. | .openStage | .count _ => true

/-- A history without the writes of a stage. -/
def without (s : StageId) (history : List Operation) : List Operation :=
  history.filter fun op => !op.writesIn s

/-- A stage is rolled back before its next commit, if there is one. -/
def Undone (s : StageId) (history : List Operation) : Prop :=
  ∀ between rest, history = between ++ .commit s :: rest → .rollback s ∈ between

/-- Between a write of a stage and a later commit of it, the stage is rolled back. So it is where
the stage ends by a rollback, and where it is never committed. -/
def Discarded (s : StageId) (history : List Operation) : Prop :=
  ∀ before op rest, history = before ++ op :: rest → op.writesIn s = true → Undone s rest

/-- The answers outside a stage, each with its use. -/
def outsideAnswers (s : StageId) (answers : List (Operation × Answer)) :
    List (Operation × Answer) :=
  answers.filter (·.1.outside s)

/-- The stages that were opened, in order. -/
def openedStages (answers : List (Operation × Answer)) : List StageId :=
  answers.filterMap fun
    | (_, .opened stage) => some stage
    | _ => none

theorem undone_of_not_mem {s : StageId} {history : List Operation}
    (never : .commit s ∉ history) : Undone s history := by
  rintro between rest rfl
  exact absurd (List.mem_append_right _ (List.mem_cons_self ..)) never

theorem discarded_of_not_mem {s : StageId} {history : List Operation}
    (never : .commit s ∉ history) : Discarded s history := by
  rintro before op rest rfl -
  exact undone_of_not_mem fun member =>
    never (List.mem_append_right _ (List.mem_cons_of_mem _ member))

theorem Undone.tail {s : StageId} {op : Operation} {rest : List Operation}
    (undone : Undone s (op :: rest)) (other : op ≠ .rollback s) : Undone s rest := by
  rintro between later rfl
  have member := undone (op :: between) later rfl
  rcases List.mem_cons.mp member with same | below
  · exact absurd same.symm other
  · exact below

theorem not_undone_commit (s : StageId) (rest : List Operation) :
    ¬ Undone s (.commit s :: rest) := by
  intro undone
  have member := undone [] rest rfl
  simp at member

theorem Discarded.tail {s : StageId} {op : Operation} {rest : List Operation}
    (discarded : Discarded s (op :: rest)) : Discarded s rest := by
  rintro before write later rfl writes
  exact discarded (op :: before) write later rfl writes

end Operation

namespace Store

open Operation

/-! ### Stores that agree outside a stage -/

/-- The stores differ at most in the writes of one stage. -/
structure Agree (s : StageId) (a b : Store) : Prop where
  committed : a.committed = b.committed
  opened : a.opened = b.opened
  stages : ∀ id, id ≠ s → a.stage id = b.stage id

theorem agree_refl (s : StageId) (store : Store) : Agree s store store :=
  ⟨rfl, rfl, fun _ _ => rfl⟩

theorem Agree.trans {s : StageId} {a b c : Store} (first : Agree s a b) (second : Agree s b c) :
    Agree s a c :=
  ⟨first.committed.trans second.committed, first.opened.trans second.opened,
    fun id ne => (first.stages id ne).trans (second.stages id ne)⟩

theorem agree_write (store : Store) (s : StageId) (name : String) (r : Record) :
    Agree s (store.write s name r) store :=
  ⟨rfl, rfl, fun _ ne => stage_write_of_ne store name r ne⟩

/-- Writes go to one stage. -/
theorem writesIn_unique {op : Operation} {s t : StageId} (first : op.writesIn s = true)
    (second : op.writesIn t = true) : s = t := by
  cases op <;> simp_all [writesIn]

/-- A write in a stage changes nothing outside of it. -/
theorem agree_perform_of_writesIn {s : StageId} {op : Operation} (writes : op.writesIn s = true)
    (store : Store) : Agree s (store.perform op).2 store := by
  have effect := store.effect_perform op
  generalize (store.perform op).2 = later at effect ⊢
  cases effect with
  | nothing => exact agree_refl s store
  | write own name r => exact writesIn_unique own writes ▸ agree_write store _ name r
  | _ => simp [writesIn] at writes

section
variable {s : StageId} {a b : Store}

theorem Agree.table (agree : Agree s a b) (name : String) : a.table name = b.table name := by
  rw [Store.table, Store.table, agree.committed]

theorem Agree.staged (agree : Agree s a b) {view : Option StageId} (ne : view ≠ some s)
    (name : String) : a.staged view name = b.staged view name := by
  cases view with
  | none => rfl
  | some id => rw [Store.staged, Store.staged, agree.stages id fun same => ne (same ▸ rfl)]

theorem Agree.lookup? (agree : Agree s a b) {view : Option StageId} (ne : view ≠ some s)
    (name id : String) : a.lookup? view name id = b.lookup? view name id := by
  rw [Store.lookup?, Store.lookup?, agree.staged ne, agree.table]

theorem Agree.scan (agree : Agree s a b) {view : Option StageId} (ne : view ≠ some s)
    (table : String) (limit : Option Nat) : a.scan view table limit = b.scan view table limit := by
  simp only [Store.scan, records, agree.staged ne, agree.table]

theorem Agree.write (agree : Agree s a b) {id : StageId} (ne : id ≠ s) (name : String)
    (r : Record) : Agree s (a.write id name r) (b.write id name r) where
  committed := agree.committed
  opened := agree.opened
  stages other apart := by
    by_cases same : other = id
    · subst same
      rw [stage_write_self, stage_write_self, agree.stages other apart]
    · rw [stage_write_of_ne a name r same, stage_write_of_ne b name r same]
      exact agree.stages other apart

theorem Agree.dropStage (agree : Agree s a b) (id : StageId) :
    Agree s (a.dropStage id) (b.dropStage id) where
  committed := agree.committed
  opened := agree.opened
  stages other apart := by
    by_cases same : other = id
    · rw [same, stage_dropStage_self, stage_dropStage_self]
    · rw [stage_dropStage_of_ne a same, stage_dropStage_of_ne b same]
      exact agree.stages other apart

theorem Agree.commit (agree : Agree s a b) {id : StageId} (ne : id ≠ s) :
    (a.commit id).1 = (b.commit id).1 ∧ Agree s (a.commit id).2 (b.commit id).2 := by
  have dropped := agree.dropStage id
  simp only [Store.commit, agree.stages id ne, agree.committed]
  exact ⟨trivial, rfl, dropped.opened, dropped.stages⟩

/-- Stores that agree outside a stage answer every use outside it alike, and go on agreeing. -/
theorem Agree.perform (agree : Agree s a b) {op : Operation} (apart : op.outside s = true) :
    (a.perform op).1 = (b.perform op).1 ∧ Agree s (a.perform op).2 (b.perform op).2 := by
  cases op with
  | load table records =>
    refine ⟨rfl, ?_, agree.opened, agree.stages⟩
    simp only [Store.perform, Store.load, agree.table, agree.committed]
  | openStage =>
    simp only [Store.perform, Store.openStage, agree.opened]
    exact ⟨trivial, agree.committed, rfl, agree.stages⟩
  | insert now stage table id fields =>
    have ne : stage ≠ s := by simpa [outside] using apart
    simp only [Store.perform, Store.insert, agree.lookup? (mt Option.some.inj ne)]
    cases b.lookup? (some stage) (Text.lower table) id with
    | some r => exact ⟨rfl, agree⟩
    | none => exact ⟨rfl, agree.write ne _ _⟩
  | update now stage table id fields =>
    have ne : stage ≠ s := by simpa [outside] using apart
    simp only [Store.perform, Store.update, agree.lookup? (mt Option.some.inj ne)]
    cases b.lookup? (some stage) (Text.lower table) id with
    | some r => exact ⟨rfl, agree.write ne _ _⟩
    | none => exact ⟨rfl, agree⟩
  | get view table id =>
    have ne : view ≠ some s := by simpa [outside] using apart
    exact ⟨by simp only [Store.perform, get?, agree.lookup? ne], agree⟩
  | scan view table limit =>
    have ne : view ≠ some s := by simpa [outside] using apart
    exact ⟨by simp only [Store.perform, agree.scan ne], agree⟩
  | commit stage =>
    have ne : stage ≠ s := by simpa [outside] using apart
    obtain ⟨counts, stores⟩ := agree.commit ne
    exact ⟨by simp only [Store.perform, counts], stores⟩
  | rollback stage =>
    have ne : stage ≠ s := by simpa [outside] using apart
    exact ⟨by simp only [Store.perform, rollback, agree.stages stage ne], agree.dropStage stage⟩
  | pending => simp [outside] at apart
  | count table => exact ⟨by simp only [Store.perform, committedCount, agree.table], agree⟩

end

/-- A use outside a stage leaves the writes of the stage as they are. -/
theorem stage_perform_of_outside {s : StageId} {op : Operation} (apart : op.outside s = true)
    (store : Store) : (store.perform op).2.stage s = store.stage s := by
  have effect := store.effect_perform op
  generalize (store.perform op).2 = later at effect ⊢
  cases effect with
  | write writes name r =>
    refine stage_write_of_ne store name r ?_
    rintro rfl
    cases op <;> simp_all [writesIn, outside]
  | commit stage =>
    have ne : stage ≠ s := by simpa [outside] using apart
    exact stage_commit_of_ne store ne.symm
  | rollback stage =>
    have ne : stage ≠ s := by simpa [outside] using apart
    exact stage_dropStage_of_ne store ne.symm
  | nothing | load | openStage => rfl

/-! ### Histories side by side -/

/-- The stage holds no writes in either store, or its rollback comes before its commit. -/
def Clean (s : StageId) (a b : Store) (history : List Operation) : Prop :=
  (a.stage s = {} ∧ b.stage s = {}) ∨ Undone s history

/-- Stores that agree outside a stage go on agreeing when only the first one gets the writes of the
stage, as long as no commit of the stage finds them. -/
theorem Agree.history {s : StageId} (history : List Operation) :
    ∀ {a b : Store}, Agree s a b → Discarded s history → Clean s a b history →
      outsideAnswers s (a.answers history) = outsideAnswers s (b.answers (without s history)) ∧
        Agree s (a.after history) (b.after (without s history)) := by
  induction history with
  | nil => intro a b agree _ _; exact ⟨rfl, agree⟩
  | cons op rest ih =>
    intro a b agree discarded clean
    have later := discarded.tail
    by_cases writes : op.writesIn s = true
    · -- Only the first store gets the write.
      have inside : op.outside s = false := by
        cases op <;> simp_all [writesIn, outside]
      have undone := discarded [] op rest rfl writes
      have own := agree_perform_of_writesIn writes a
      have dropped : without s (op :: rest) = without s rest := by simp [without, writes]
      rw [dropped]
      simpa [answers, after, outsideAnswers, inside] using ih (own.trans agree) later (.inr undone)
    · have kept : without s (op :: rest) = op :: without s rest := by simp [without, writes]
      rw [kept]
      by_cases apart : op.outside s = true
      · obtain ⟨same, agrees⟩ := agree.perform apart
        have stays : Clean s (a.perform op).2 (b.perform op).2 rest := by
          rcases clean with empty | undone
          · left
            rwa [stage_perform_of_outside apart, stage_perform_of_outside apart]
          · exact .inr (undone.tail (by rintro rfl; simp [outside] at apart))
        obtain ⟨answered, ends⟩ := ih agrees later stays
        refine ⟨?_, ends⟩
        simp only [outsideAnswers] at answered
        simp [answers, outsideAnswers, apart, same, answered]
      · -- A read in the stage, its end, or a question about all stages.
        suffices next : Agree s (a.perform op).2 (b.perform op).2 ∧
            Clean s (a.perform op).2 (b.perform op).2 rest by
          simpa [answers, after, outsideAnswers, apart] using ih next.1 later next.2
        cases op with
        | load | openStage | count => simp [outside] at apart
        | insert | update => simp_all [writesIn, outside]
        | get | scan | pending =>
          refine ⟨agree, clean.imp_right fun undone => undone.tail ?_⟩
          simp
        | rollback stage =>
          obtain rfl : stage = s := by simpa [outside] using apart
          exact ⟨agree.dropStage stage, .inl ⟨stage_dropStage_self a stage,
            stage_dropStage_self b stage⟩⟩
        | commit stage =>
          obtain rfl : stage = s := by simpa [outside] using apart
          rcases clean with ⟨emptyA, emptyB⟩ | undone
          · have dropped := agree.dropStage stage
            refine ⟨⟨?_, dropped.opened, dropped.stages⟩, .inl ⟨stage_commit_self a stage,
              stage_commit_self b stage⟩⟩
            rw [Store.perform, Store.perform, committed_commit_of_empty emptyA,
              committed_commit_of_empty emptyB, agree.committed]
          · exact absurd undone (not_undone_commit stage rest)

/-! ### Opening stages -/

theorem opened_perform (store : Store) (op : Operation) :
    store.opened ≤ (store.perform op).2.opened := by
  have effect := store.effect_perform op
  generalize (store.perform op).2 = later at effect ⊢
  cases effect with
  | openStage => exact Nat.le_succ _
  | nothing | write | load | commit | rollback => exact Nat.le_refl _

theorem opened_of_openStage {store : Store} {op : Operation} {id : StageId}
    (opens : (store.perform op).1 = .opened id) :
    id.number = store.opened + 1 ∧ (store.perform op).2.opened = store.opened + 1 := by
  cases op <;> simp [perform, openStage] at opens
  subst opens
  exact ⟨rfl, rfl⟩

/-- Stages that are opened one after another have rising numbers. -/
theorem openedStages_rising (history : List Operation) :
    ∀ store : Store, (∀ id ∈ openedStages (store.answers history), store.opened < id.number) ∧
      (openedStages (store.answers history)).Pairwise fun a b => a.number < b.number := by
  induction history with
  | nil => intro store; simp [answers, openedStages]
  | cons op rest ih =>
    intro store
    obtain ⟨above, rising⟩ := ih (store.perform op).2
    have grows := opened_perform store op
    by_cases opens : ∃ id, (store.perform op).1 = .opened id
    · obtain ⟨id, opens⟩ := opens
      obtain ⟨number, count⟩ := opened_of_openStage opens
      have first : openedStages (store.answers (op :: rest)) =
          id :: openedStages ((store.perform op).2.answers rest) := by
        simp [answers, openedStages, opens]
      rw [first]
      constructor
      · intro other member
        rcases List.mem_cons.mp member with rfl | below
        · omega
        · have := above other below; omega
      · refine List.pairwise_cons.mpr ⟨fun other member => ?_, rising⟩
        have := above other member
        omega
    · have skipped : openedStages (store.answers (op :: rest)) =
          openedStages ((store.perform op).2.answers rest) := by
        rw [answers, openedStages, List.filterMap_cons]
        split
        · rfl
        · rename_i id found
          exfalso
          split at found
          · rename_i stage same
            exact opens ⟨stage, (Prod.mk.inj same).2⟩
          · simp at found
      rw [skipped]
      exact ⟨fun id member => Nat.lt_of_le_of_lt grows (above id member), rising⟩

/-! ### Isolation -/

/-- Stages are isolated. Until the commit of a stage, histories that differ in its writes only have
the same answers outside of it. Where the stage is rolled back after its writes, or never committed,
the history without the writes has the same answers outside the stage and leaves the same committed
records. No stage is opened twice. -/
theorem stages_isolated (s : StageId) :
    (∀ (store : Store) (history other : List Operation), without s history = without s other →
      .commit s ∉ history → .commit s ∉ other →
      outsideAnswers s (store.answers history) = outsideAnswers s (store.answers other)) ∧
    (∀ history, Discarded s history →
      outsideAnswers s (answers {} history) = outsideAnswers s (answers {} (without s history)) ∧
      (after {} history).committed = (after {} (without s history)).committed) ∧
    ∀ store history, (openedStages (answers store history)).Nodup := by
  refine ⟨?_, ?_, ?_⟩
  · intro store history other same never neverOther
    have first := (agree_refl s store).history history (discarded_of_not_mem never)
      (.inr (undone_of_not_mem never))
    have second := (agree_refl s store).history other (discarded_of_not_mem neverOther)
      (.inr (undone_of_not_mem neverOther))
    rw [first.1, same, second.1]
  · intro history discarded
    have both := (agree_refl s {}).history history discarded (.inl ⟨rfl, rfl⟩)
    exact ⟨both.1, both.2.committed⟩
  · intro store history
    refine (openedStages_rising history store).2.imp ?_
    rintro a b less rfl
    exact Nat.lt_irrefl _ less

/-- A stage that inserts and is committed beside one that changes the loaded record, inserts under
the same identifier and is rolled back. -/
def rejectedBeside : List Operation :=
  [.load "items" [.create ⟨0, 0, 0⟩ "a" []],
    .openStage,
    .openStage,
    .insert ⟨1, 0, 0⟩ ⟨1⟩ "items" "b" [],
    .update ⟨2, 0, 0⟩ ⟨2⟩ "items" "a" [("n", .ofNat 1)],
    .insert ⟨3, 0, 0⟩ ⟨2⟩ "items" "b" [],
    .scan (some ⟨1⟩) "items" none,
    .rollback ⟨2⟩,
    .commit ⟨1⟩,
    .scan none "items" none]

theorem stages_isolated_rejectedBeside :
    (.commit ⟨2⟩ ∉ rejectedBeside ∧
      outsideAnswers ⟨2⟩ (answers {} rejectedBeside) =
        outsideAnswers ⟨2⟩ (answers {} (without ⟨2⟩ rejectedBeside))) ∧
    (Discarded ⟨2⟩ rejectedBeside ∧
      (after {} rejectedBeside).committed = (after {} (without ⟨2⟩ rejectedBeside)).committed) := by
  have never : .commit ⟨2⟩ ∉ rejectedBeside := by simp [rejectedBeside]
  have neverWithout : .commit ⟨2⟩ ∉ without ⟨2⟩ rejectedBeside := fun member =>
    never (List.mem_filter.mp member).1
  have discarded := discarded_of_not_mem never
  have twice : without ⟨2⟩ rejectedBeside = without ⟨2⟩ (without ⟨2⟩ rejectedBeside) := by
    simp [without]
  exact ⟨⟨never, (stages_isolated ⟨2⟩).1 {} _ _ twice never neverWithout⟩,
    discarded, ((stages_isolated ⟨2⟩).2.1 _ discarded).2⟩

end Store
end RecordQuery
