import RecordQuery.Proofs.Isolation
import RecordQuery.Proofs.Footprint

/-!
A statement takes effect as a whole or not at all (`Engine.execute_atomic`). Its calls change one
table in one stage (`Framed`), which is new and so holds nothing before; the commit makes durable
what that stage saw, and where the statement is not committed, nothing of it is left in the
committed records.
-/
namespace RecordQuery

/-! ### Counting writes -/

namespace World

/-- How many insertions and updates succeed when a script is run to its end. -/
def writeCount {α : Type} (w : World) : Script α → Nat
  | .done _ => 0
  | .call c next =>
    (c.wrote (w.answer c).1).toNat + (w.answer c).2.writeCount (next (w.answer c).1)

theorem writeCount_bind {α β : Type} (w : World) (s : Script α) (f : α → Script β) :
    w.writeCount (s >>= f) = w.writeCount s + (w.run s).2.writeCount (f (w.run s).1) := by
  induction s generalizing w with
  | done a => exact (Nat.zero_add _).symm
  | call c next ih =>
    have rest := ih (w.answer c).1 (w.answer c).2
    change (c.wrote (w.answer c).1).toNat +
      (w.answer c).2.writeCount (next (w.answer c).1 >>= f) = _
    rw [rest, ← Nat.add_assoc]
    rfl

end World

/-- The second store differs from the first in one table of one stage only. -/
structure Framed (stage : StageId) (name : String) (before after : Store) : Prop where
  agree : Store.Agree stage after before
  staged : ∀ other, other ≠ name →
    after.staged (some stage) other = before.staged (some stage) other

section
variable {stage : StageId} {name : String}

theorem framed_refl (store : Store) : Framed stage name store store :=
  ⟨Store.agree_refl stage store, fun _ _ => rfl⟩

theorem Framed.answer {store : Store} {w : World} (framed : Framed stage name store w.store)
    {c : Call} (serves : c.Serves stage name) : Framed stage name store (w.answer c).2.store := by
  rcases w.answer_cases serves with ⟨same, -⟩ | ⟨r, written, -⟩
  · rw [same]; exact framed
  · rw [written]
    refine ⟨(Store.agree_write w.store stage name r).trans framed.agree, fun other ne => ?_⟩
    rw [Store.staged_write_of_ne w.store stage r ne, framed.staged other ne]

theorem sound_answer {w : World} (sound : w.store.Sound) {c : Call} (serves : c.Serves stage name) :
    (w.answer c).2.store.Sound := by
  rcases w.answer_cases serves with ⟨same, -⟩ | ⟨r, written, -⟩
  · rw [same]; exact sound
  · rw [written]; exact sound.write stage name r

theorem writes_answer {c : Call} (serves : c.Serves stage name) (w : World) :
    ((w.answer c).2.store.stage stage).writes =
      (w.store.stage stage).writes + (c.wrote (w.answer c).1).toNat := by
  rcases w.answer_cases serves with ⟨same, silent⟩ | ⟨r, written, counted⟩
  · rw [same, silent]; rfl
  · rw [written, counted, Store.stage_write_self]; rfl

/-- A stage counts the writes that its statement makes. -/
theorem writes_run {α : Type} {post : α → Prop} {s : Script α}
    (ensures : s.Ensures (Call.Serves stage name) post) (w : World) :
    ((w.run s).2.store.stage stage).writes = (w.store.stage stage).writes + w.writeCount s := by
  induction s generalizing w with
  | done a => rfl
  | call c next ih =>
    have rest := ih (w.answer c).1 (ensures.2 _) (w.answer c).2
    rw [writes_answer ensures.1] at rest
    rw [World.run, World.writeCount, rest]
    omega

end

/-- In a table that a statement does not write to, its stage sees the committed records. -/
theorem Framed.scan {stage : StageId} {name : String} {before after : Store}
    (framed : Framed stage name before after) (empty : before.stage stage = {}) {table : String}
    (other : Text.lower table ≠ name) (limit : Option Nat) :
    after.scan (some stage) table limit = before.scan none table limit := by
  have staged : after.staged (some stage) (Text.lower table) = [] := by
    rw [framed.staged _ other, Store.staged, empty]
    rfl
  have shown : after.records (some stage) (Text.lower table) =
      before.records none (Text.lower table) := by
    rw [Store.records, staged, framed.agree.table, Store.records, Store.staged]
  simp only [Store.scan, shown]

/-! ### Executing a statement -/

namespace Engine

/-- The world in which a statement begins: its stage has been opened. -/
def begun (w : World) : World := { w with store := w.store.openStage.2 }

/-- What a statement yields in its stage. -/
def yielded (engine : Engine) (s : Statement) (w : World) :
    Except Failure Result × List ValidationError :=
  ((begun w).run ((s.execute (engine.context w.store.openStage.1)).run [])).1

/-- The world in which a statement has finished: its stage is about to end. -/
def finished (engine : Engine) (s : Statement) (w : World) : World :=
  ((begun w).run ((s.execute (engine.context w.store.openStage.1)).run [])).2

/-- How the stage of a statement ends. -/
def conclude (stage : StageId) :
    Except Failure Result × List ValidationError → Script (Except Failure Outcome)
  | (.error failure, _) => do
    let _ ← Script.ask (.rollback stage)
    return .error failure
  | (.ok result, errors) =>
    if result.canCommit then do
      match ← Script.ask (.commit stage) with
      | .ok count => return .ok ⟨result, errors, count⟩
      | .error failure => return .error failure
    else do
      match ← Script.ask (.rollback stage) with
      | .ok _ => return .ok ⟨result, errors, 0⟩
      | .error failure => return .error failure

theorem execute_eq (engine : Engine) (s : Statement) :
    engine.execute s = Script.ask .openStage >>= fun stage =>
      (s.execute (engine.context stage)).run [] >>= conclude stage := rfl

theorem run_execute (engine : Engine) (s : Statement) (w : World) :
    w.run (engine.execute s) = (engine.finished s w).run
      (conclude w.store.openStage.1 (engine.yielded s w)) := by
  rw [execute_eq, World.run_bind, World.run_bind]
  rfl

theorem writeCount_conclude (w : World) (stage : StageId)
    (out : Except Failure Result × List ValidationError) :
    w.writeCount (conclude stage out) = 0 := by
  obtain ⟨reply, errors⟩ := out
  cases reply with
  | error failure => rfl
  | ok result =>
    rw [conclude]
    split
    · rw [World.writeCount_bind]
      cases (w.run (Script.ask (.commit stage))).1 <;> rfl
    · rw [World.writeCount_bind]
      cases (w.run (Script.ask (.rollback stage))).1 <;> rfl

/-- A statement fails; or it is committed; or it is rolled back. -/
theorem conclude_cases (w : World) (stage : StageId)
    (out : Except Failure Result × List ValidationError) :
    (∃ failure, (w.run (conclude stage out)).1 = .error failure ∧
      ((w.run (conclude stage out)).2.store = w.store ∨
        (w.run (conclude stage out)).2.store = (w.store.rollback stage).2)) ∨
    (∃ result errors, out = (.ok result, errors) ∧ result.canCommit = true ∧
      (w.run (conclude stage out)).1 = .ok ⟨result, errors, (w.store.commit stage).1⟩ ∧
      (w.run (conclude stage out)).2.store = (w.store.commit stage).2) ∨
    ∃ result errors, out = (.ok result, errors) ∧ result.canCommit = false ∧
      (w.run (conclude stage out)).1 = .ok ⟨result, errors, 0⟩ ∧
      (w.run (conclude stage out)).2.store = (w.store.rollback stage).2 := by
  obtain ⟨reply, errors⟩ := out
  cases reply with
  | error failure =>
    have ran : w.run (conclude stage (.error failure, errors)) =
        (.error failure, (w.answer (.rollback stage)).2) := rfl
    left
    rw [ran]
    rcases w.answer_rollback stage with out | out
    · rw [out]; exact ⟨failure, rfl, .inl rfl⟩
    · rw [out]; exact ⟨failure, rfl, .inr rfl⟩
  | ok result =>
    by_cases may : result.canCommit = true
    · rw [conclude, if_pos may, World.run_bind, World.run_ask]
      rcases w.answer_commit stage with out | out
      · rw [out]; exact .inl ⟨_, rfl, .inl rfl⟩
      · rw [out]; exact .inr (.inl ⟨result, errors, rfl, may, rfl, rfl⟩)
    · rw [conclude, if_neg may, World.run_bind, World.run_ask]
      rcases w.answer_rollback stage with out | out
      · rw [out]; exact .inl ⟨_, rfl, .inl rfl⟩
      · rw [out]
        exact .inr (.inr ⟨result, errors, rfl, Bool.eq_false_iff.mpr may, rfl, rfl⟩)

theorem writeCount_execute (engine : Engine) (s : Statement) (w : World) :
    w.writeCount (engine.execute s) =
      (begun w).writeCount ((s.execute (engine.context w.store.openStage.1)).run []) := by
  rw [execute_eq, World.writeCount_bind, World.writeCount_bind, writeCount_conclude]
  exact Nat.zero_add _

section
variable (engine : Engine) (s : Statement)

/-- What a statement does in its stage, and when its result may be committed. -/
theorem execute_serves (stage : StageId) :
    ((s.execute (engine.context stage)).run []).Ensures (Call.Serves stage (Text.lower s.table))
      fun out => ∀ result, out.1 = .ok result → (result.canCommit = true ↔ out.2 = []) :=
  Script.Ensures.mono (s.execute_serves (engine.context stage) []) (fun _ serves => serves)
    fun _ found => found.2

theorem finished_framed (w : World) :
    Framed w.store.openStage.1 (Text.lower s.table) (begun w).store (engine.finished s w).store :=
  (engine.execute_serves s _).run_invariant (fun v => Framed _ _ (begun w).store v.store)
    (fun _ _ serves framed => framed.answer serves) (framed_refl _)

theorem finished_sound {w : World} (sound : w.store.Sound) : (engine.finished s w).store.Sound := by
  have start : (begun w).store.Sound := ⟨sound.names, sound.committed, sound.staged⟩
  exact (engine.execute_serves s _).run_invariant (fun v => v.store.Sound)
    (fun _ _ serves sound => sound_answer sound serves) start

theorem finished_writes {w : World} (empty : w.store.stage w.store.openStage.1 = {}) :
    ((engine.finished s w).store.stage w.store.openStage.1).writes =
      w.writeCount (engine.execute s) := by
  have start : ((begun w).store.stage w.store.openStage.1).writes = 0 := congrArg Stage.writes empty
  have counted := writes_run (engine.execute_serves s w.store.openStage.1) (begun w)
  rw [start, Nat.zero_add] at counted
  rw [writeCount_execute]
  exact counted

/-- A finished statement may be committed exactly if it has reported no error. -/
theorem canCommit_iff {w : World} {result : Result} {errors : List ValidationError}
    (yields : engine.yielded s w = (.ok result, errors)) :
    result.canCommit = true ↔ errors = [] := by
  have found := (engine.execute_serves s w.store.openStage.1).run (begun w)
  rw [← yielded, yields] at found
  exact found result rfl

/-- A query leaves the store as its stage found it. -/
theorem finished_select (q : Select) (w : World) :
    (engine.finished (.select q) w).store = (begun w).store := by
  have reads := q.execute_reads (engine.context w.store.openStage.1) []
  refine reads.run_invariant (fun v => v.store = (begun w).store) ?_ rfl
  intro v c read same
  rw [World.store_answer_of_reads read, same]

end

section
variable {w after : World} {reply : Except Failure Outcome} {engine : Engine} {s : Statement}
  (ran : w.run (engine.execute s) = (reply, after))

include ran

/-- Either the committed records stay, or the statement is committed. -/
theorem execute_committed : after.store.committed = w.store.committed ∨
    (∃ outcome, reply = .ok outcome ∧ outcome.result.canCommit = true) ∧
      after.store = ((engine.finished s w).store.commit w.store.openStage.1).2 := by
  have framed := engine.finished_framed s w
  have settled : (engine.finished s w).store.committed = w.store.committed := framed.agree.committed
  have ends := conclude_cases (engine.finished s w) w.store.openStage.1 (engine.yielded s w)
  rw [← run_execute, ran] at ends
  rcases ends with ⟨failure, -, same | same⟩ | ⟨result, errors, -, may, replied, done⟩ |
    ⟨result, errors, -, -, -, done⟩
  · rw [same]; exact .inl settled
  · rw [same]; exact .inl settled
  · exact .inr ⟨⟨_, replied, may⟩, done⟩
  · rw [done]; exact .inl settled

/-- What the outcome of a statement says. -/
theorem execute_outcome (fresh : w.store.stage w.store.openStage.1 = {}) {outcome : Outcome}
    (replied : reply = .ok outcome) :
    (outcome.result.canCommit = true ↔ outcome.errors = []) ∧
      (outcome.result.canCommit = true → outcome.committed = w.writeCount (engine.execute s) ∧
        after.store = ((engine.finished s w).store.commit w.store.openStage.1).2) ∧
      (outcome.result.canCommit = false → outcome.committed = 0) := by
  have ends := conclude_cases (engine.finished s w) w.store.openStage.1 (engine.yielded s w)
  rw [← run_execute, ran, replied] at ends
  rcases ends with ⟨failure, failed, -⟩ | ⟨result, errors, yields, may, same, done⟩ |
    ⟨result, errors, yields, mayNot, same, -⟩
  · cases failed
  · cases same
    refine ⟨engine.canCommit_iff s yields, fun _ => ⟨engine.finished_writes s fresh, done⟩, ?_⟩
    intro mayNot
    rw [may] at mayNot
    cases mayNot
  · cases same
    refine ⟨engine.canCommit_iff s yields, fun may => ?_, fun _ => rfl⟩
    rw [mayNot] at may
    cases may

end

/-- A query leaves no stage and no change behind. -/
theorem execute_select {w : World} (opened : w.store.StagesOpened) (engine : Engine) (q : Select) :
    (w.run (engine.execute (.select q))).2.store =
      { w.store with opened := w.store.opened + 1 } := by
  have absent : ∀ entry ∈ (begun w).store.stages, entry.1 ≠ w.store.openStage.1 :=
    opened.absent (Nat.lt_succ_self w.store.opened)
  have ends := conclude_cases (engine.finished (.select q) w) w.store.openStage.1
    (engine.yielded (.select q) w)
  rw [← run_execute, finished_select] at ends
  rcases ends with ⟨failure, -, same | same⟩ | ⟨result, errors, -, -, -, done⟩ |
    ⟨result, errors, -, -, -, done⟩
  · rw [same]; rfl
  · rw [same, Store.rollback_of_absent absent]; rfl
  · rw [done, Store.commit_of_absent absent]; rfl
  · rw [done, Store.rollback_of_absent absent]; rfl

/-- A statement takes effect as a whole or not at all. Where it may be committed, which is where it
reports no error, the committed records are those that its stage saw when it had finished, and the
writes are counted; otherwise they are as before, and no write is counted. Only the table that it
names ever changes, and a query changes nothing. The store may have any past in which writes went to
stages that had been opened and loaded identifiers were new. -/
theorem execute_atomic {w after : World} {reply : Except Failure Outcome} {engine : Engine}
    {s : Statement}
    (reached : Store.Reached (fun store op => store.LoadsNew op ∧ store.WritesOpened op) w.store)
    (ran : w.run (engine.execute s) = (reply, after)) :
    (∀ outcome, reply = .ok outcome →
      (outcome.result.canCommit = true ↔ outcome.errors = []) ∧
      (outcome.result.canCommit = true → outcome.committed = w.writeCount (engine.execute s) ∧
        ∀ table limit, after.store.scan none table limit =
          (engine.finished s w).store.scan (some w.store.openStage.1) table limit) ∧
      (outcome.result.canCommit = false → outcome.committed = 0)) ∧
    ((∀ outcome, reply = .ok outcome → outcome.result.canCommit = false) →
      after.store.committed = w.store.committed) ∧
    (∀ table limit, Text.lower table ≠ Text.lower s.table →
      after.store.scan none table limit = w.store.scan none table limit) ∧
    ∀ q, s = .select q → after.store = { w.store with opened := w.store.opened + 1 } := by
  have opened := reached.stagesOpened fun _ _ admitted => admitted.2
  have sound := engine.finished_sound s (reached.sound fun _ _ admitted => admitted.1)
  have fresh := Store.stage_of_absent (opened.absent (Nat.lt_succ_self w.store.opened))
  refine ⟨?_, ?_, ?_, ?_⟩
  · intro outcome replied
    obtain ⟨clean, committed, rejected⟩ := execute_outcome ran fresh replied
    refine ⟨clean, fun may => ⟨(committed may).1, fun table limit => ?_⟩, rejected⟩
    rw [(committed may).2, sound.scan_commit]
  · intro given
    rcases execute_committed ran with same | ⟨⟨outcome, replied, may⟩, -⟩
    · exact same
    · rw [given outcome replied] at may
      cases may
  · intro table limit other
    rcases execute_committed ran with same | ⟨-, done⟩
    · exact Store.scan_congr same table limit
    · rw [done, sound.scan_commit, (engine.finished_framed s w).scan fresh other]
      exact Store.scan_congr rfl table limit
  · rintro q rfl
    have left := execute_select opened engine q
    rwa [ran] at left

/-- A world with one item, in which scans fail. -/
def itemWorld : World :=
  { store := (Store.perform {} (.load "items" [.create ⟨0, 0, 0⟩ "a" []])).2
    now := ⟨1, 0, 0⟩
    ids := fun n => "item" ++ toString n
    faults := [.scan] }

/-- An engine that knows items with a number. -/
def itemEngine : Engine :=
  { schema := .ofTypes [.ofFields "items" [.ofType "n" .number]], now := ⟨1, 0, 0⟩ }

/-- The insertion of two items. -/
def itemInsertion : Statement :=
  .insert (.into "Items" ["N"] (.values [[.literal (.ofNat 1)], [.literal (.ofNat 2)]]))

theorem execute_atomic_itemInsertion :
    Store.Reached (fun store op => store.LoadsNew op ∧ store.WritesOpened op) itemWorld.store ∧
      ∃ outcome, (itemWorld.run (itemEngine.execute itemInsertion)).1 = .ok outcome ∧
        outcome.errors = [] ∧ outcome.committed = 2 ∧
        ∀ table limit,
          (itemWorld.run (itemEngine.execute itemInsertion)).2.store.scan none table limit =
            (itemEngine.finished itemInsertion itemWorld).store.scan (some ⟨1⟩) table limit := by
  have reached : Store.Reached (fun store op => store.LoadsNew op ∧ store.WritesOpened op)
      itemWorld.store := by
    refine .perform .new ⟨⟨?_, fun _ _ => rfl⟩, fun s writes => ?_⟩
    · simp [Table.Distinct]
    · simp [Operation.writesIn] at writes
  have may : (itemWorld.run (itemEngine.execute itemInsertion)).1.toOption.map
      (·.result.canCommit) = some true := by decide +kernel
  have count : itemWorld.writeCount (itemEngine.execute itemInsertion) = 2 := by decide +kernel
  cases ran : itemWorld.run (itemEngine.execute itemInsertion) with
  | mk reply after =>
    have atomic := execute_atomic reached ran
    rw [ran] at may
    cases reply with
    | error failure => cases may
    | ok outcome =>
      have clean : outcome.result.canCommit = true := Option.some.inj may
      obtain ⟨errors, kept, -⟩ := atomic.1 outcome rfl
      obtain ⟨committed, shown⟩ := kept clean
      exact ⟨reached, outcome, rfl, errors.mp clean, committed.trans count, shown⟩

end Engine
end RecordQuery
