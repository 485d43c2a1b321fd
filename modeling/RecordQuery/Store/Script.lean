import RecordQuery.Store.Basic

/-!
# Scripts

What a statement does is a script: a tree of calls to the store, each followed by what is done with
its reply. A script can be run at once, or call by call between the calls of other scripts.
-/
namespace RecordQuery

open Calendar (Instant)

/-- One call to the store, or to the source of new identifiers. -/
inductive Call where
  | openStage
  | newId
  | insert (stage : StageId) (table id : String) (fields : Dict Json)
  | update (stage : StageId) (table id : String) (fields : Dict Json)
  | get (view : Option StageId) (table id : String)
  | scan (view : Option StageId) (table : String) (limit : Option Nat)
  | commit (stage : StageId)
  | rollback (stage : StageId)

/-- What a call is answered with. -/
abbrev Call.Reply : Call → Type
  | .openStage => StageId
  | .newId => String
  | .insert .. => Except Failure Record
  | .update .. => Except Failure Record
  | .get .. => Except Failure (Option Record)
  | .scan .. => Except Failure (List Record)
  | .commit _ => Except Failure Nat
  | .rollback _ => Except Failure Nat

/-- A computation that calls the store. -/
inductive Script (α : Type) where
  | done (result : α)
  | call (c : Call) (next : c.Reply → Script α)

namespace Script
variable {α β : Type}

/-- Continues a script with what is done with its result. -/
def bind : Script α → (α → Script β) → Script β
  | done a, f => f a
  | call c next, f => call c fun reply => (next reply).bind f

instance : Monad Script where
  pure := done
  bind := bind

/-- The script of one call. -/
def ask (c : Call) : Script c.Reply := call c done

theorem bind_assoc {γ : Type} (s : Script α) (f : α → Script β) (g : β → Script γ) :
    (s.bind f).bind g = s.bind fun a => (f a).bind g := by
  induction s with
  | done a => rfl
  | call c next ih => simp only [bind, ih]

theorem bind_done (s : Script α) : s.bind done = s := by
  induction s with
  | done a => rfl
  | call c next ih => simp only [bind, ih]

instance : LawfulMonad Script :=
  LawfulMonad.mk' Script (fun s => bind_done s) (fun _ _ => rfl) (fun s f g => bind_assoc s f g)

end Script

/-! ## Running scripts -/

/-- The calls that a store may fail to carry out. -/
inductive Method where
  | insert | update | get | scan | commit | rollback
  deriving DecidableEq, Repr

namespace Method

/-- All such calls. -/
def all : List Method := [insert, update, get, scan, commit, rollback]

/-- The name of a call in messages. -/
def name : Method → String
  | insert => "add_insert"
  | update => "add_update"
  | get => "get"
  | scan => "scan"
  | commit => "commit"
  | rollback => "rollback"

/-- The call of a name. -/
def ofName? (s : String) : Option Method := all.find? (·.name == s)

end Method

/-- What scripts run in: a store, the time, the identifiers still to come, and the calls that
fail. -/
structure World where
  store : Store := {}
  now : Instant
  /-- The identifiers that new records get, in order. -/
  ids : Nat → String
  /-- How many identifiers have been given out. -/
  issued : Nat := 0
  faults : List Method := []

namespace World

/-- The failure of a call that the store does not carry out. -/
def outage (m : Method) : Failure := .storage (m.name ++ " failed")

/-- The reply to a call that may fail, and the world after it: one that fails changes nothing. -/
def attempt {α : Type} (w : World) (m : Method) (act : Store → Except Failure α × Store) :
    Except Failure α × World :=
  if w.faults.contains m then (.error (outage m), w)
  else
    let (reply, store) := act w.store
    (reply, { w with store })

/-- The reply to a call, and the world after it. -/
def answer (w : World) : (c : Call) → c.Reply × World
  | .openStage =>
    let (stage, store) := w.store.openStage
    (stage, { w with store })
  | .newId => (w.ids w.issued, { w with issued := w.issued + 1 })
  | .insert stage table id fields => w.attempt .insert fun s => s.insert w.now stage table id fields
  | .update stage table id fields => w.attempt .update fun s => s.update w.now stage table id fields
  | .get view table id => w.attempt .get fun s => (.ok (s.get? view table id), s)
  | .scan view table limit => w.attempt .scan fun s => (.ok (s.scan view table limit), s)
  | .commit stage => w.attempt .commit fun s => let (count, s) := s.commit stage; (.ok count, s)
  | .rollback stage =>
    w.attempt .rollback fun s => let (count, s) := s.rollback stage; (.ok count, s)

/-- Runs a script to its end. -/
def run {α : Type} (w : World) : Script α → α × World
  | .done a => (a, w)
  | .call c next =>
    let (reply, w) := w.answer c
    w.run (next reply)

theorem run_ask (w : World) (c : Call) : w.run (Script.ask c) = w.answer c := rfl

theorem run_bind {α β : Type} (w : World) (s : Script α) (f : α → Script β) :
    w.run (s >>= f) = (w.run s).2.run (f (w.run s).1) := by
  induction s generalizing w with
  | done a => rfl
  | call c next ih => exact ih (w.answer c).1 (w.answer c).2

end World
end RecordQuery
