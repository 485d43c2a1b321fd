import RecordQuery.Proofs.Loading

/-!
The errors that a computation adds. A log adds its errors behind those that it finds, whatever these
are, and each of them has a property (`Log.Adds`); so does an execution in a world, also where a
failure stops it (`Exec.Adds`). What moves errors into a clause changes their paths and nothing else
(`scopeErrors_append`). A computation that adds errors of no kind adds none.
-/
namespace RecordQuery

/-! ### Moving errors -/

theorem reportOnce_append (errors : List ValidationError) (e : ValidationError) :
    ∃ added, reportOnce errors e = errors ++ added ∧ ∀ other ∈ added, other = e := by
  rw [reportOnce]
  split
  · exact ⟨[], (List.append_nil errors).symm, List.forall_mem_nil _⟩
  · exact ⟨[e], rfl, fun other listed => List.mem_singleton.mp listed⟩

/-- What is moved into a clause are the errors behind the mark; some may be dropped. -/
theorem scopeErrors_append (clause : String) (errors found : List ValidationError) :
    ∃ added, scopeErrors errors.length clause (errors ++ found) = errors ++ added ∧
      ∀ e ∈ added, ∃ inner ∈ found, e = inner.within clause := by
  have moved (rest : List ValidationError) : ∀ kept, ∃ added,
      rest.foldl (fun kept e => reportOnce kept (e.within clause)) kept = kept ++ added ∧
        ∀ e ∈ added, ∃ inner ∈ rest, e = inner.within clause := by
    induction rest with
    | nil => exact fun kept => ⟨[], (List.append_nil kept).symm, List.forall_mem_nil _⟩
    | cons first rest ih =>
      intro kept
      obtain ⟨one, once, same⟩ := reportOnce_append kept (first.within clause)
      obtain ⟨more, all, origin⟩ := ih (kept ++ one)
      refine ⟨one ++ more, ?_, fun e listed => ?_⟩
      · rw [List.foldl_cons, once, all, List.append_assoc]
      · rcases List.mem_append.mp listed with here | later
        · exact ⟨first, List.mem_cons_self, same e here⟩
        · obtain ⟨inner, member, rfl⟩ := origin e later
          exact ⟨inner, List.mem_cons_of_mem first member, rfl⟩
  rw [scopeErrors, List.drop_left, List.take_left]
  exact moved found errors

/-! ### Logs -/

namespace Log
variable {α β : Type} {P : ValidationError → Prop}

/-- Whatever errors the computation finds, it adds errors with a property behind them. -/
def Adds (P : ValidationError → Prop) (x : Log α) : Prop :=
  ∀ errors, ∃ added, (x.run errors).2 = errors ++ added ∧ ∀ e ∈ added, P e

theorem Adds.mono {Q : ValidationError → Prop} {x : Log α} (adds : x.Adds P)
    (implies : ∀ e, P e → Q e) : x.Adds Q := by
  intro errors
  obtain ⟨added, same, each⟩ := adds errors
  exact ⟨added, same, fun e listed => implies e (each e listed)⟩

theorem adds_pure (a : α) : Adds P (pure a) :=
  fun errors => ⟨[], (List.append_nil errors).symm, List.forall_mem_nil P⟩

theorem Adds.bind {x : Log α} {f : α → Log β} (first : x.Adds P) (second : ∀ a, (f a).Adds P) :
    Adds P (x >>= f) := by
  intro errors
  obtain ⟨one, once, each⟩ := first errors
  obtain ⟨more, all, later⟩ := second (x.run errors).1 (x.run errors).2
  refine ⟨one ++ more, ?_, fun e listed => (List.mem_append.mp listed).elim (each e) (later e)⟩
  rw [← List.append_assoc, ← once]
  exact all

theorem Adds.map {x : Log α} (f : α → β) (adds : x.Adds P) : Adds P (f <$> x) := adds

theorem adds_report {e : ValidationError} (holds : P e) : (report e).Adds P :=
  fun _ => ⟨[e], rfl, fun _ listed => List.mem_singleton.mp listed ▸ holds⟩

theorem adds_once {e : ValidationError} (holds : P e) : (once e).Adds P := by
  intro errors
  obtain ⟨added, same, each⟩ := reportOnce_append errors e
  exact ⟨added, same, fun other listed => each other listed ▸ holds⟩

/-- The faults of an evaluation are added inside the clause. -/
theorem adds_within {clause : String} {x : Reported α}
    (each : ∀ f ∈ x.faults, P (f.error.within clause)) : (within clause x).Adds P := by
  intro errors
  obtain ⟨added, same, moved⟩ := scopeErrors_append clause errors (x.faults.map Fault.error)
  refine ⟨added, same, fun e listed => ?_⟩
  obtain ⟨inner, member, rfl⟩ := moved e listed
  obtain ⟨f, fault, rfl⟩ := List.mem_map.mp member
  exact each f fault

theorem Adds.mapM {f : α → Log β} {items : List α} (each : ∀ a ∈ items, (f a).Adds P) :
    Adds P (items.mapM f) := by
  induction items with
  | nil => rw [List.mapM_nil]; exact adds_pure _
  | cons a rest ih =>
    rw [List.mapM_cons]
    refine (each a List.mem_cons_self).bind fun b => ?_
    exact (ih fun c later => each c (List.mem_cons_of_mem a later)).bind fun bs => adds_pure _

theorem adds_forM_report {es : List ValidationError} (each : ∀ e ∈ es, P e) :
    Adds P (es.forM report) := by
  intro errors
  exact ⟨es, by rw [run_forM_report], each⟩

theorem Adds.foldlM {f : β → α → Log β} (each : ∀ b a, (f b a).Adds P) (items : List α) :
    ∀ b, Adds P (items.foldlM f b) := by
  induction items with
  | nil => intro b; exact adds_pure b
  | cons a rest ih =>
    intro b
    rw [List.foldlM_cons]
    exact (each b a).bind ih

theorem Adds.filterM {p : α → Log Bool} {items : List α} (each : ∀ a ∈ items, (p a).Adds P) :
    Adds P (items.filterM p) := by
  have kept : ∀ found, Adds P (items.filterAuxM p found) := by
    induction items with
    | nil => intro found; exact adds_pure found
    | cons a rest ih =>
      intro found
      exact (each a List.mem_cons_self).bind fun keep =>
        ih (fun b later => each b (List.mem_cons_of_mem a later)) _
  exact (kept []).bind fun _ => adds_pure _

/-- A computation that adds errors of no kind leaves the errors as they are. -/
theorem Adds.errors_eq {x : Log α} (adds : x.Adds fun _ => False) (errors : List ValidationError) :
    (x.run errors).2 = errors := by
  obtain ⟨added, same, none⟩ := adds errors
  rw [same, List.eq_nil_iff_forall_not_mem.mpr none, List.append_nil]

end Log

/-! ### Executions -/

namespace Exec
variable {α β : Type} {P : ValidationError → Prop} {w : World} {errors : List ValidationError}

/-- In a world, and started with some errors, the computation adds errors with a property behind
those, also where it is stopped. -/
def Adds (P : ValidationError → Prop) (x : Exec α) (w : World) (errors : List ValidationError) :
    Prop :=
  ∃ added, (w.run (x errors)).1.2 = errors ++ added ∧ ∀ e ∈ added, P e

theorem adds_pure (a : α) : Adds P (pure a) w errors :=
  ⟨[], (List.append_nil errors).symm, List.forall_mem_nil _⟩

theorem Adds.bind {x : Exec α} {f : α → Exec β} (first : x.Adds P w errors)
    (second : ∀ a later after, w.run (x errors) = ((.ok a, later), after) →
      (f a).Adds P after later) : Adds P (x >>= f) w errors := by
  obtain ⟨one, once, each⟩ := first
  rcases ran : w.run (x errors) with ⟨⟨reply, later⟩, after⟩
  rw [ran] at once
  cases reply with
  | error failure => exact ⟨one, by rw [run_bind_error ran]; exact once, each⟩
  | ok a =>
    obtain ⟨more, all, rest⟩ := second a later after ran
    refine ⟨one ++ more, ?_, fun e listed => (List.mem_append.mp listed).elim (each e) (rest e)⟩
    rw [run_bind ran, all, ← List.append_assoc]
    exact congrArg (· ++ more) once

theorem adds_log {x : Log α} (adds : x.Adds P) : (log x).Adds P w errors := adds errors

theorem adds_script (s : Script α) : (script s).Adds P w errors := by
  have ran : w.run (script s errors) = ((.ok (w.run s).1, errors), (w.run s).2) := w.run_bind s _
  exact ⟨[], by rw [ran, List.append_nil], List.forall_mem_nil _⟩

theorem adds_attempt (s : Script (Except Failure α)) : (attempt s).Adds P w errors :=
  ⟨[], by rw [run_attempt, List.append_nil], List.forall_mem_nil _⟩

/-- What is added inside a clause is moved there, unless the computation is stopped. -/
theorem Adds.within {Q : ValidationError → Prop} {x : Exec α} {clause : String}
    (adds : x.Adds Q w errors) (moved : ∀ e, Q e → P (e.within clause))
    (stopped : ∀ failure later after,
      w.run (x errors) = ((.error failure, later), after) → later = errors) :
    (Exec.within clause x).Adds P w errors := by
  rcases ran : w.run (x errors) with ⟨⟨reply, later⟩, after⟩
  cases reply with
  | error failure =>
    have failed : w.run (Exec.within clause x errors) = ((.error failure, later), after) :=
      run_bind_error ran fun a => do modify (scopeErrors errors.length clause); return a
    refine ⟨[], ?_, List.forall_mem_nil _⟩
    rw [failed, List.append_nil]
    exact stopped failure later after ran
  | ok a =>
    obtain ⟨found, same, each⟩ := adds
    rw [ran] at same
    obtain ⟨added, all, inside⟩ := scopeErrors_append clause errors found
    refine ⟨added, ?_, fun e listed => ?_⟩
    · rw [run_within ran]
      exact (congrArg (scopeErrors errors.length clause) same).trans all
    · obtain ⟨inner, member, rfl⟩ := inside e listed
      exact moved inner (each inner member)

end Exec
end RecordQuery
