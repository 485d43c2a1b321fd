import RecordQuery.Statement.Execution

/-!
Two kinds of contracts. A log only adds errors behind those that it finds (`Log.Extends`). A script
or an execution makes only certain calls, whatever the replies are, and ends with certain results
(`Script.Ensures`, `Exec.Ensures`). Both are closed under the combinators that statements are built
with.
-/
namespace RecordQuery

/-! ### Lists of errors -/

/-- Where no error has been found in the end, there was none before. -/
theorem clean_of_later {errors later : List ValidationError} (grown : errors <+: later)
    (clean : later = []) : errors = [] := List.prefix_nil.mp (clean ▸ grown)

theorem prefix_reportOnce (errors : List ValidationError) (e : ValidationError) :
    errors <+: reportOnce errors e := by
  rw [reportOnce]
  split
  · exact List.prefix_refl errors
  · exact List.prefix_append errors [e]

/-- Moving later errors into a clause leaves the earlier ones as they are. -/
theorem prefix_scopeErrors {errors later : List ValidationError} (clause : String)
    (before : errors <+: later) : errors <+: scopeErrors errors.length clause later := by
  have kept (more : List ValidationError) : ∀ found, errors <+: found →
      errors <+: more.foldl (fun kept e => reportOnce kept (e.within clause)) found := by
    induction more with
    | nil => intro found start; exact start
    | cons e rest ih =>
      intro found start
      exact ih _ (start.trans (prefix_reportOnce found _))
  rw [scopeErrors]
  have first : later.take errors.length = errors := (List.prefix_iff_eq_take.mp before).symm
  exact kept _ _ ⟨[], by rw [List.append_nil, first]⟩

namespace Log
variable {α β : Type}

/-- The computation adds errors behind those that it finds. -/
def Extends (x : Log α) : Prop := ∀ errors, errors <+: (x.run errors).2

theorem extends_pure (a : α) : Extends (pure a) := fun errors => List.prefix_refl errors

theorem Extends.bind {x : Log α} {f : α → Log β} (first : x.Extends) (second : ∀ a, (f a).Extends) :
    Extends (x >>= f) := fun errors =>
  (first errors).trans (second (x.run errors).1 (x.run errors).2)

theorem Extends.map {x : Log α} (f : α → β) (grows : x.Extends) : Extends (f <$> x) := grows

theorem extends_report (e : ValidationError) : (report e).Extends :=
  fun errors => List.prefix_append errors [e]

theorem run_forM_report (es errors : List ValidationError) :
    (es.forM report).run errors = ((), errors ++ es) := by
  induction es generalizing errors with
  | nil => rw [List.append_nil]; rfl
  | cons e rest ih =>
    have later := ih (errors ++ [e])
    rw [List.append_assoc, List.singleton_append] at later
    exact later

theorem extends_once (e : ValidationError) : (once e).Extends :=
  fun errors => prefix_reportOnce errors e

theorem extends_within (clause : String) (x : Reported α) : (within clause x).Extends :=
  fun errors => prefix_scopeErrors clause (List.prefix_append errors _)

theorem Extends.mapM {f : α → Log β} (each : ∀ a, (f a).Extends) (items : List α) :
    Extends (items.mapM f) := by
  induction items with
  | nil => rw [List.mapM_nil]; exact extends_pure _
  | cons a rest ih =>
    rw [List.mapM_cons]
    exact (each a).bind fun b => ih.bind fun bs => extends_pure _

theorem Extends.forM {f : α → Log PUnit} (each : ∀ a, (f a).Extends) (items : List α) :
    Extends (items.forM f) := by
  induction items with
  | nil => exact extends_pure _
  | cons a rest ih => exact (each a).bind fun _ => ih

theorem Extends.foldlM {f : β → α → Log β} (each : ∀ b a, (f b a).Extends) (items : List α) :
    ∀ b, Extends (items.foldlM f b) := by
  induction items with
  | nil => intro b; exact extends_pure b
  | cons a rest ih =>
    intro b
    rw [List.foldlM_cons]
    exact (each b a).bind ih

theorem Extends.filterM {p : α → Log Bool} (each : ∀ a, (p a).Extends) (items : List α) :
    Extends (items.filterM p) := by
  have kept : ∀ found, Extends (items.filterAuxM p found) := by
    induction items with
    | nil => intro found; exact extends_pure found
    | cons a rest ih => intro found; exact (each a).bind fun keep => ih _
  exact (kept []).bind fun _ => extends_pure _

end Log

/-! ### Scripts -/

namespace Script
variable {α β : Type} {calls : Call → Prop}

/-- Whatever the replies are, the script makes only certain calls and ends with certain results. -/
def Ensures (calls : Call → Prop) (post : α → Prop) : Script α → Prop
  | done a => post a
  | call c next => calls c ∧ ∀ reply, (next reply).Ensures calls post

theorem Ensures.mono {more : Call → Prop} {post weaker : α → Prop} {s : Script α}
    (ensures : s.Ensures calls post) (allowed : ∀ c, calls c → more c)
    (implies : ∀ a, post a → weaker a) : s.Ensures more weaker := by
  induction s with
  | done a => exact implies a ensures
  | call c next ih => exact ⟨allowed c ensures.1, fun reply => ih reply (ensures.2 reply)⟩

theorem Ensures.bind {mid : α → Prop} {post : β → Prop} {s : Script α} {f : α → Script β}
    (first : s.Ensures calls mid) (second : ∀ a, mid a → (f a).Ensures calls post) :
    (s.bind f).Ensures calls post := by
  induction s with
  | done a => exact second a first
  | call c next ih => exact ⟨first.1, fun reply => ih reply (first.2 reply)⟩

theorem ensures_ask {c : Call} (allowed : calls c) : (ask c).Ensures calls fun _ => True :=
  ⟨allowed, fun _ => trivial⟩

theorem Ensures.run {post : α → Prop} {s : Script α} (ensures : s.Ensures calls post) (w : World) :
    post (w.run s).1 := by
  induction s generalizing w with
  | done a => exact ensures
  | call c next ih => exact ih (w.answer c).1 (ensures.2 _) (w.answer c).2

/-- What every admitted call keeps is kept by the run. -/
theorem Ensures.run_invariant {post : α → Prop} (Holds : World → Prop) {s : Script α}
    (ensures : s.Ensures calls post) (step : ∀ w c, calls c → Holds w → Holds (w.answer c).2)
    {w : World} (start : Holds w) : Holds (w.run s).2 := by
  induction s generalizing w with
  | done a => exact start
  | call c next ih =>
    exact ih (w.answer c).1 (ensures.2 _) (step w c ensures.1 start)

end Script

/-! ### Executions -/

namespace Exec
variable {α β : Type} {calls : Call → Prop}

/-- What comes after a computation goes on with its result and the errors, unless it was stopped. -/
theorem bind_apply (x : Exec α) (f : α → Exec β) (errors : List ValidationError) :
    (x >>= f) errors = Script.bind (x errors) fun
      | (.ok a, errors) => f a errors
      | (.error failure, errors) => .done (.error failure, errors) := by
  change Script.bind (x errors) _ = _
  congr 1
  funext out
  obtain ⟨reply, errors⟩ := out
  cases reply <;> rfl

/-- Started with some errors, the computation makes only certain calls and adds errors behind
those. What it yields, unless a failure stops it, has a property together with the errors. -/
def Ensures (calls : Call → Prop) (post : α → List ValidationError → Prop) (x : Exec α)
    (errors : List ValidationError) : Prop :=
  Script.Ensures calls (fun out => errors <+: out.2 ∧ ∀ a, out.1 = .ok a → post a out.2) (x errors)

theorem Ensures.mono {more : Call → Prop} {post weaker : α → List ValidationError → Prop}
    {x : Exec α} {errors : List ValidationError} (ensures : x.Ensures calls post errors)
    (allowed : ∀ c, calls c → more c) (implies : ∀ a errors, post a errors → weaker a errors) :
    x.Ensures more weaker errors :=
  Script.Ensures.mono ensures allowed fun out found =>
    ⟨found.1, fun a yields => implies a out.2 (found.2 a yields)⟩

theorem ensures_pure {post : α → List ValidationError → Prop} {a : α}
    {errors : List ValidationError} (holds : post a errors) :
    Ensures calls post (pure a) errors := by
  refine ⟨List.prefix_refl errors, ?_⟩
  rintro b ⟨⟩
  exact holds

theorem Ensures.bind {mid : α → List ValidationError → Prop}
    {post : β → List ValidationError → Prop} {x : Exec α} {f : α → Exec β}
    {errors : List ValidationError} (first : x.Ensures calls mid errors)
    (second : ∀ a later, errors <+: later → mid a later → (f a).Ensures calls post later) :
    Ensures calls post (x >>= f) errors := by
  rw [Ensures, bind_apply]
  refine Script.Ensures.bind first ?_
  rintro ⟨reply, later⟩ ⟨grown, holds⟩
  cases reply with
  | error failure => exact ⟨grown, by simp⟩
  | ok a =>
    refine Script.Ensures.mono (second a later grown (holds a rfl)) (fun _ allowed => allowed) ?_
    exact fun out found => ⟨grown.trans found.1, found.2⟩

theorem ensures_log {x : Log α} (grows : x.Extends) (errors : List ValidationError) :
    (log x).Ensures calls (fun a later => x.run errors = (a, later)) errors := by
  refine ⟨grows errors, ?_⟩
  rintro a ⟨⟩
  rfl

theorem ensures_script {post : α → Prop} {s : Script α} (ensures : s.Ensures calls post)
    (errors : List ValidationError) : (script s).Ensures calls (fun a _ => post a) errors := by
  refine Script.Ensures.bind ensures fun a holds => ⟨List.prefix_refl errors, ?_⟩
  rintro b ⟨⟩
  exact holds

theorem ensures_attempt {s : Script (Except Failure α)} (ensures : s.Ensures calls fun _ => True)
    (errors : List ValidationError) : (attempt s).Ensures calls (fun _ _ => True) errors :=
  Script.Ensures.bind ensures fun _ _ => ⟨List.prefix_refl errors, fun _ _ => trivial⟩

theorem Ensures.within {post : α → List ValidationError → Prop} {x : Exec α} {clause : String}
    {errors : List ValidationError} (ensures : x.Ensures calls post errors) :
    (within clause x).Ensures calls (fun _ _ => True) errors := by
  have moved : (Exec.within clause x) errors =
      (x >>= fun a => do modify (scopeErrors errors.length clause); return a) errors := rfl
  rw [Ensures, moved, bind_apply]
  refine Script.Ensures.bind ensures ?_
  rintro ⟨reply, later⟩ ⟨grown, -⟩
  cases reply with
  | error failure => exact ⟨grown, by simp⟩
  | ok a => exact ⟨prefix_scopeErrors clause grown, fun _ _ => trivial⟩

end Exec

end RecordQuery
