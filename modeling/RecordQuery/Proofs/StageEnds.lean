import RecordQuery.Proofs.Atomicity

/-!
How the stage of a statement ends. Until then the store has no other stages than before
(`Store.Alongside`), so a stage that is dropped, by a commit or a rollback, leaves them exactly as
they were (`Engine.stages_conclude`). The one way out that drops nothing is a commit which the store
fails to carry out (`Engine.CommitRefused`): what the statement has staged is then left behind, and
it is seen as pending for good (`Engine.execute_ends_stage`).
-/
namespace RecordQuery

/-! ### Stages beside others -/

namespace Store

/-- A store holds certain stages and besides them at most one more, which comes first. -/
def Alongside (others : List (StageId × Stage)) (id : StageId) (store : Store) : Prop :=
  store.stages = others ∨ ∃ stage, store.stages = (id, stage) :: others

section
variable {store : Store} {id : StageId} {others : List (StageId × Stage)}
  (absent : ∀ entry ∈ others, entry.1 ≠ id) (alongside : store.Alongside others id)

include absent alongside

theorem Alongside.filter : store.stages.filter (·.1 != id) = others := by
  have kept : others.filter (·.1 != id) = others :=
    List.filter_eq_self.mpr fun entry member => bne_iff_ne.mpr (absent entry member)
  rcases alongside with same | ⟨stage, added⟩
  · rw [same, kept]
  · rw [added, List.filter_cons_of_neg (by simp), kept]

theorem Alongside.write (name : String) (r : Record) :
    (store.write id name r).Alongside others id :=
  .inr ⟨_, congrArg _ (alongside.filter absent)⟩

theorem Alongside.dropStage : (store.dropStage id).stages = others := alongside.filter absent

/-- What is pending is pending in another stage, or it has been staged in the additional one. -/
theorem Alongside.hasPending :
    store.hasPending =
      (others.any (fun entry => 0 < entry.2.writes) || decide (0 < (store.stage id).writes)) := by
  rcases alongside with same | ⟨stage, added⟩
  · have empty : store.stage id = {} := stage_of_absent (by rwa [same])
    rw [Store.hasPending, same, empty]
    exact (Bool.or_false _).symm
  · have own : store.stage id = stage := by simp [Store.stage, added]
    rw [Store.hasPending, added, own, List.any_cons]
    exact Bool.or_comm _ _

end

end Store

/-! ### Calls that fail -/

namespace World

section
variable {α : Type} {m : Method} {w : World} (act : Store → Except Failure α × Store)

theorem attempt_of_mem (fault : m ∈ w.faults) : w.attempt m act = (.error (outage m), w) :=
  if_pos (List.contains_iff_mem.mpr fault)

theorem attempt_of_not_mem (fine : m ∉ w.faults) :
    w.attempt m act = ((act w.store).1, { w with store := (act w.store).2 }) :=
  if_neg (mt List.contains_iff_mem.mp fine)

theorem faults_attempt : (w.attempt m act).2.faults = w.faults := by
  rcases w.attempt_cases m act with out | out <;> rw [out]

end

section
variable {w : World} (stage : StageId)

theorem answer_commit_of_mem (fault : .commit ∈ w.faults) :
    w.answer (.commit stage) = (.error (outage .commit), w) :=
  attempt_of_mem (fun s => (.ok (s.commit stage).1, (s.commit stage).2)) fault

theorem answer_commit_of_not_mem (fine : .commit ∉ w.faults) :
    w.answer (.commit stage) =
      (.ok (w.store.commit stage).1, { w with store := (w.store.commit stage).2 }) :=
  attempt_of_not_mem (fun s => (.ok (s.commit stage).1, (s.commit stage).2)) fine

theorem answer_rollback_of_not_mem (fine : .rollback ∉ w.faults) :
    w.answer (.rollback stage) =
      (.ok (w.store.rollback stage).1, { w with store := (w.store.rollback stage).2 }) :=
  attempt_of_not_mem (fun s => (.ok (s.rollback stage).1, (s.rollback stage).2)) fine

end

theorem faults_answer (w : World) (c : Call) : (w.answer c).2.faults = w.faults := by
  cases c with
  | openStage | newId => rfl
  | insert | update | get | scan | commit | rollback => exact faults_attempt _

theorem faults_run {α : Type} (s : Script α) : ∀ w : World, (w.run s).2.faults = w.faults := by
  induction s with
  | done a => intro w; rfl
  | call c next ih =>
    intro w
    rw [World.run, ih, faults_answer]

end World

/-! ### The end of a statement -/

namespace Engine

/-- A statement comes to its commit, and the store fails to carry that out. -/
def CommitRefused (engine : Engine) (s : Statement) (w : World) : Prop :=
  .commit ∈ w.faults ∧ (engine.yielded s w).1.toOption.any (·.canCommit) = true

instance (engine : Engine) (s : Statement) (w : World) : Decidable (engine.CommitRefused s w) :=
  inferInstanceAs (Decidable (_ ∧ _))

section
variable {w : World} (stage : StageId) (out : Except Failure Result × List ValidationError)

theorem stages_conclude (undoes : .rollback ∉ w.faults)
    (served : ¬ (.commit ∈ w.faults ∧ out.1.toOption.any (·.canCommit) = true)) :
    (w.run (conclude stage out)).2.store.stages = (w.store.dropStage stage).stages := by
  -- There are three ways out left: a failure and a result with errors are rolled back, and a
  -- result without is committed.
  have undone := World.answer_rollback_of_not_mem stage undoes
  obtain ⟨reply, errors⟩ := out
  cases reply with
  | error failure =>
    rw [conclude, World.run_bind, World.run_ask, undone]
    rfl
  | ok result =>
    by_cases may : result.canCommit = true
    · have fine : .commit ∉ w.faults := fun fault => served ⟨fault, may⟩
      rw [conclude, if_pos may, World.run_bind, World.run_ask,
        World.answer_commit_of_not_mem stage fine]
      rfl
    · rw [conclude, if_neg may, World.run_bind, World.run_ask, undone]
      rfl

/-- A refused commit is the answer to the statement, and nothing is done about its stage. -/
theorem run_conclude_of_refused (fault : .commit ∈ w.faults)
    (may : out.1.toOption.any (·.canCommit) = true) :
    w.run (conclude stage out) = (.error (World.outage .commit), w) := by
  obtain ⟨reply, errors⟩ := out
  cases reply with
  | error failure => cases may
  | ok result =>
    rw [conclude, if_pos (show result.canCommit = true from may), World.run_bind, World.run_ask,
      World.answer_commit_of_mem stage fault]
    rfl

end

theorem faults_finished (engine : Engine) (s : Statement) (w : World) :
    (engine.finished s w).faults = w.faults := World.faults_run _ (begun w)

/-- Before its stage ends, a statement has added at most that stage. -/
theorem finished_alongside (engine : Engine) (s : Statement) {w : World}
    (absent : ∀ entry ∈ w.store.stages, entry.1 ≠ w.store.openStage.1) :
    (engine.finished s w).store.Alongside w.store.stages w.store.openStage.1 := by
  refine (engine.execute_serves s _).run_invariant
    (fun v => v.store.Alongside w.store.stages w.store.openStage.1) ?_ (.inl rfl)
  intro v c serves alongside
  rcases v.answer_cases serves with ⟨same, -⟩ | ⟨r, written, -⟩
  · rw [same]; exact alongside
  · rw [written]; exact alongside.write absent _ r

/-- Where the store carries out its rollbacks, a statement leaves no stage behind unless its commit
is refused: all stages are as before, its own holds nothing, and the same is pending. A refused
commit fails the statement and leaves what it has staged, so that anything written is pending from
then on. The store may have any past in which writes went to stages that had been opened. -/
theorem execute_ends_stage {w after : World} {reply : Except Failure Outcome} {engine : Engine}
    {s : Statement} (reached : Store.Reached Store.WritesOpened w.store)
    (ran : w.run (engine.execute s) = (reply, after)) (undoes : .rollback ∉ w.faults) :
    (¬ engine.CommitRefused s w → after.store.stages = w.store.stages ∧
      after.store.stage w.store.openStage.1 = {} ∧
      after.store.hasPending = w.store.hasPending) ∧
    (engine.CommitRefused s w → reply = .error (World.outage .commit) ∧
      after = engine.finished s w ∧
      (after.store.stage w.store.openStage.1).writes = w.writeCount (engine.execute s) ∧
      after.store.hasPending =
        (w.store.hasPending || decide (0 < w.writeCount (engine.execute s)))) := by
  -- The stage of the statement is new, so the others are what is left without it.
  have opened := reached.stagesOpened fun _ _ admitted => admitted
  have absent : ∀ entry ∈ w.store.stages, entry.1 ≠ w.store.openStage.1 :=
    opened.absent (Nat.lt_succ_self w.store.opened)
  have alongside := engine.finished_alongside s absent
  rw [run_execute] at ran
  constructor
  · intro served
    rw [← engine.faults_finished s w] at undoes
    have ends := stages_conclude w.store.openStage.1 (engine.yielded s w) undoes
      (by rwa [faults_finished])
    rw [ran] at ends
    have same : after.store.stages = w.store.stages := ends.trans (alongside.dropStage absent)
    refine ⟨same, Store.stage_of_absent ?_, ?_⟩
    · rwa [same]
    · rw [Store.hasPending, same, Store.hasPending]
  · rintro ⟨fault, may⟩
    rw [← engine.faults_finished s w] at fault
    have refused := run_conclude_of_refused w.store.openStage.1 (engine.yielded s w) fault may
    obtain ⟨rfl, rfl⟩ := Prod.mk.inj (refused.symm.trans ran)
    have written := engine.finished_writes s (Store.stage_of_absent absent)
    refine ⟨rfl, rfl, written, ?_⟩
    rw [alongside.hasPending absent, written, Store.hasPending]

/-- A world with no records, in which commits fail. -/
def uncommittingWorld : World :=
  { now := ⟨1, 0, 0⟩, ids := fun n => "item" ++ toString n, faults := [.commit] }

/-- An insertion that is rejected although it has staged its items. -/
def rejectedInsertion : Statement :=
  .insert (.into "items" ["n"] (.values [[.literal (.ofNat 1)], [.literal (.str "one")]]))

theorem execute_ends_stage_rejectedInsertion :
    Store.Reached Store.WritesOpened uncommittingWorld.store ∧
      .rollback ∉ uncommittingWorld.faults ∧
      ¬ itemEngine.CommitRefused rejectedInsertion uncommittingWorld ∧
      uncommittingWorld.writeCount (itemEngine.execute rejectedInsertion) = 2 ∧
      (uncommittingWorld.run (itemEngine.execute rejectedInsertion)).2.store.hasPending = false ∧
      itemEngine.CommitRefused itemInsertion uncommittingWorld ∧
      (uncommittingWorld.run (itemEngine.execute itemInsertion)).1 =
        .error (World.outage .commit) := by
  have reached : Store.Reached Store.WritesOpened uncommittingWorld.store := .new
  have undoes : .rollback ∉ uncommittingWorld.faults := by decide
  have served : ¬ itemEngine.CommitRefused rejectedInsertion uncommittingWorld := by
    decide +kernel
  have refused : itemEngine.CommitRefused itemInsertion uncommittingWorld := by decide +kernel
  have count : uncommittingWorld.writeCount (itemEngine.execute rejectedInsertion) = 2 := by
    decide +kernel
  cases ran : uncommittingWorld.run (itemEngine.execute rejectedInsertion) with
  | mk reply after =>
    have ended := (execute_ends_stage reached ran undoes).1 served
    cases failed : uncommittingWorld.run (itemEngine.execute itemInsertion) with
    | mk answer left =>
      have stopped := (execute_ends_stage reached failed undoes).2 refused
      exact ⟨reached, undoes, served, count, ended.2.2, refused, stopped.1⟩

/-- An insertion whose commit fails leaves its items pending, in a stage that nothing ends. -/
theorem refused_commit_pending :
    uncommittingWorld.store.hasPending = false ∧ .rollback ∉ uncommittingWorld.faults ∧
      (uncommittingWorld.run (itemEngine.execute itemInsertion)).2.store.hasPending = true ∧
      ((uncommittingWorld.run (itemEngine.execute itemInsertion)).2.store.stage ⟨1⟩).writes =
        2 := by
  decide +kernel

end Engine
end RecordQuery
