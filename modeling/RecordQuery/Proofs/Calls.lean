import RecordQuery.Proofs.Observations

/-!
What the calls of a statement do. A reading call leaves the store as it is; any call of a statement
leaves it so or writes one record in the statement's stage and table (`World.answer_cases`).
-/
namespace RecordQuery

namespace Call

/-- The call reads the store as a stage sees it. -/
def Reads (stage : StageId) : Call → Prop
  | .get view _ _ => view = some stage
  | .scan view _ _ => view = some stage
  | _ => False

/-- The call belongs to a statement that writes to a table, named in lower case, in a stage. -/
def Serves (stage : StageId) (name : String) : Call → Prop
  | .newId => True
  | .insert other table _ _ => other = stage ∧ Text.lower table = name
  | .update other table _ _ => other = stage ∧ Text.lower table = name
  | c => c.Reads stage

theorem Reads.serves {stage : StageId} {c : Call} (reads : c.Reads stage) (name : String) :
    c.Serves stage name := by
  cases c with
  | get | scan => exact reads
  | _ => exact reads.elim

/-- Whether a call is an insertion or an update that succeeded. -/
def wrote : (c : Call) → c.Reply → Bool
  | .insert .., reply => reply.isOk
  | .update .., reply => reply.isOk
  | _, _ => false

end Call

namespace World

/-- A call fails and changes nothing, or the store carries it out. -/
theorem attempt_cases {α : Type} (w : World) (m : Method) (act : Store → Except Failure α × Store) :
    w.attempt m act = (.error (outage m), w) ∨
      w.attempt m act = ((act w.store).1, { w with store := (act w.store).2 }) := by
  rw [attempt]
  split
  · exact .inl rfl
  · exact .inr rfl

theorem answer_commit (w : World) (stage : StageId) :
    w.answer (.commit stage) = (.error (outage .commit), w) ∨
      w.answer (.commit stage) =
        (.ok (w.store.commit stage).1, { w with store := (w.store.commit stage).2 }) :=
  w.attempt_cases .commit fun s => (.ok (s.commit stage).1, (s.commit stage).2)

theorem answer_rollback (w : World) (stage : StageId) :
    w.answer (.rollback stage) = (.error (outage .rollback), w) ∨
      w.answer (.rollback stage) =
        (.ok (w.store.rollback stage).1, { w with store := (w.store.rollback stage).2 }) :=
  w.attempt_cases .rollback fun s => (.ok (s.rollback stage).1, (s.rollback stage).2)

theorem answer_get (w : World) (view : Option StageId) (table id : String) :
    w.answer (.get view table id) = (.error (outage .get), w) ∨
      w.answer (.get view table id) = (.ok (w.store.get? view table id), w) :=
  w.attempt_cases .get fun s => (.ok (s.get? view table id), s)

theorem answer_scan (w : World) (view : Option StageId) (table : String) (limit : Option Nat) :
    w.answer (.scan view table limit) = (.error (outage .scan), w) ∨
      w.answer (.scan view table limit) = (.ok (w.store.scan view table limit), w) :=
  w.attempt_cases .scan fun s => (.ok (s.scan view table limit), s)

/-- A call that reads changes nothing. -/
theorem answer_of_reads {stage : StageId} {c : Call} (reads : c.Reads stage) (w : World) :
    (w.answer c).2 = w := by
  cases c with
  | get view table id => rcases w.answer_get view table id with out | out <;> rw [out]
  | scan view table limit => rcases w.answer_scan view table limit with out | out <;> rw [out]
  | _ => exact reads.elim

theorem store_answer_of_reads {stage : StageId} {c : Call} (reads : c.Reads stage) (w : World) :
    (w.answer c).2.store = w.store := by rw [answer_of_reads reads]

/-- A call of a statement leaves the store as it is, or it writes one record in the statement's
stage and table. -/
theorem answer_cases {stage : StageId} {name : String} {c : Call} (serves : c.Serves stage name)
    (w : World) :
    ((w.answer c).2.store = w.store ∧ c.wrote (w.answer c).1 = false) ∨
      ∃ r, (w.answer c).2.store = w.store.write stage name r ∧ c.wrote (w.answer c).1 = true := by
  cases c with
  | newId => exact .inl ⟨rfl, rfl⟩
  | insert other table id fields =>
    obtain ⟨rfl, rfl⟩ := serves
    rcases w.attempt_cases .insert fun s => s.insert w.now other table id fields with out | out
    · left; rw [answer, out]; exact ⟨rfl, rfl⟩
    · rcases w.store.insert_cases w.now other table id fields with ⟨failure, refused⟩ | ⟨-, written⟩
      · left; rw [answer, out, refused]; exact ⟨rfl, rfl⟩
      · right; rw [answer, out, written]; exact ⟨_, rfl, rfl⟩
  | update other table id fields =>
    obtain ⟨rfl, rfl⟩ := serves
    rcases w.attempt_cases .update fun s => s.update w.now other table id fields with out | out
    · left; rw [answer, out]; exact ⟨rfl, rfl⟩
    · rcases w.store.update_cases w.now other table id fields with
        ⟨failure, refused⟩ | ⟨r, -, written⟩
      · left; rw [answer, out, refused]; exact ⟨rfl, rfl⟩
      · right; rw [answer, out, written]; exact ⟨_, rfl, rfl⟩
  | get view table id =>
    have reads : (Call.get view table id).Reads stage := serves
    exact .inl ⟨store_answer_of_reads reads w, rfl⟩
  | scan view table limit =>
    have reads : (Call.scan view table limit).Reads stage := serves
    exact .inl ⟨store_answer_of_reads reads w, rfl⟩
  | openStage | commit | rollback => exact serves.elim

end World

end RecordQuery
