import RecordQuery.Proofs.Calls
import RecordQuery.Proofs.Contracts
import RecordQuery.Proofs.LowerCase
import RecordQuery.Statement.Select

/-!
Running the parts of a query in a world. A part that only adds errors leaves the world as it is
(`Exec.run_log`); a table is read as the stage sees it, up to the limit (`run_scanTable`).
-/
namespace RecordQuery

namespace Exec
variable {α β : Type} {w after : World} {errors later : List ValidationError}

/-- What only adds errors makes no call. -/
theorem log_bind (x : Log α) (f : α → Exec β) (errors : List ValidationError) :
    (log x >>= f) errors = f (x.run errors).1 (x.run errors).2 := rfl

theorem run_log (w : World) (x : Log α) (errors : List ValidationError) :
    w.run (log x errors) = ((.ok (x.run errors).1, (x.run errors).2), w) := rfl

theorem run_log_inv {x : Log α} {a : α} (ran : w.run (log x errors) = ((.ok a, later), after)) :
    x.run errors = (a, later) ∧ after = w := by
  rw [run_log] at ran
  cases ran
  exact ⟨rfl, rfl⟩

theorem run_attempt (w : World) (s : Script (Except Failure α)) (errors : List ValidationError) :
    w.run (attempt s errors) = (((w.run s).1, errors), (w.run s).2) :=
  w.run_bind s fun reply => .done (reply, errors)

theorem run_bind {x : Exec α} {a : α} (ran : w.run (x errors) = ((.ok a, later), after))
    (f : α → Exec β) : w.run ((x >>= f) errors) = after.run (f a later) := by
  rw [bind_apply]
  refine (w.run_bind (x errors) _).trans ?_
  rw [ran]

/-- A failure ends the computation. -/
theorem run_bind_error {x : Exec α} {failure : Failure}
    (ran : w.run (x errors) = ((.error failure, later), after)) (f : α → Exec β) :
    w.run ((x >>= f) errors) = ((.error failure, later), after) := by
  rw [bind_apply]
  refine (w.run_bind (x errors) _).trans ?_
  rw [ran]
  rfl

/-- A computation that comes to its end has come through its first part. -/
theorem run_bind_inv {x : Exec α} {f : α → Exec β} {b : β}
    (ran : w.run ((x >>= f) errors) = ((.ok b, later), after)) :
    ∃ a mid between, w.run (x errors) = ((.ok a, mid), between) ∧
      between.run (f a mid) = ((.ok b, later), after) := by
  rcases first : w.run (x errors) with ⟨⟨reply, mid⟩, between⟩
  cases reply with
  | error failure =>
    rw [run_bind_error first] at ran
    cases ran
  | ok a =>
    rw [run_bind first] at ran
    exact ⟨a, mid, between, rfl, ran⟩

/-- Moving errors into a clause does not change what a computation yields. -/
theorem run_within {x : Exec α} {a : α} (ran : w.run (x errors) = ((.ok a, later), after))
    (clause : String) :
    w.run (within clause x errors) = ((.ok a, scopeErrors errors.length clause later), after) := by
  have moved : within clause x errors =
      (x >>= fun a => do modify (scopeErrors errors.length clause); return a) errors := rfl
  rw [moved, run_bind ran]
  rfl

theorem run_within_inv {x : Exec α} {a : α} {clause : String}
    (ran : w.run (within clause x errors) = ((.ok a, later), after)) :
    ∃ found, w.run (x errors) = ((.ok a, found), after) := by
  have moved : within clause x errors =
      (x >>= fun a => do modify (scopeErrors errors.length clause); return a) errors := rfl
  rw [moved] at ran
  obtain ⟨b, found, between, yielded, rest⟩ := run_bind_inv ran
  cases rest
  exact ⟨found, yielded⟩

theorem run_bind_congr {x y : Exec α} (same : w.run (x errors) = w.run (y errors))
    (f : α → Exec β) : w.run ((x >>= f) errors) = w.run ((y >>= f) errors) := by
  rcases ran : w.run (y errors) with ⟨⟨reply, later⟩, after⟩
  rw [ran] at same
  cases reply with
  | error failure => rw [run_bind_error same, run_bind_error ran]
  | ok a => rw [run_bind same, run_bind ran]

theorem run_map (w : World) (f : α → β) (x : Exec α) (errors : List ValidationError) :
    w.run ((f <$> x) errors) =
      (((w.run (x errors)).1.1.map f, (w.run (x errors)).1.2), (w.run (x errors)).2) := by
  rw [map_eq_pure_bind]
  rcases ran : w.run (x errors) with ⟨⟨reply, later⟩, after⟩
  cases reply with
  | error failure => exact run_bind_error ran _
  | ok a => exact run_bind ran _

end Exec

/-! ### Reading tables -/

theorem Store.scan_some (store : Store) (view : Option StageId) (table : String) (limit : Nat) :
    store.scan view table (some limit) = (store.scan view table none).take limit := rfl

theorem Store.scan_lower (store : Store) (view : Option StageId) (table : String)
    (limit : Option Nat) :
    store.scan view (Text.lower table) limit = store.scan view table limit := by
  simp only [Store.scan, Text.lower_lower]

theorem World.answer_scan_eq (w : World) (view : Option StageId) (table : String)
    (limit : Option Nat) :
    w.answer (.scan view table limit) =
      if w.faults.contains .scan then (.error (World.outage .scan), w)
      else (.ok (w.store.scan view table limit), w) := rfl

/-- Reading a table fails as a whole, or it yields the first records and tells if there are more. -/
theorem run_scanTable (w : World) (ctx : Context) (table path : String)
    (errors : List ValidationError) :
    w.run (scanTable ctx table path errors) =
      if w.faults.contains .scan then ((.error (World.outage .scan), errors), w)
      else
        ((.ok ((w.store.scan (some ctx.stage) table none).take ctx.limits.maxScanRows),
          if ctx.limits.maxScanRows < (w.store.scan (some ctx.stage) table none).length then
            errors ++ [scanLimitError table ctx.limits.maxScanRows path]
          else errors), w) := by
  have asked := Exec.run_attempt w
    (Script.ask (.scan (some ctx.stage) table (some (ctx.limits.maxScanRows + 1)))) errors
  rw [World.run_ask, World.answer_scan_eq] at asked
  rw [scanTable]
  split
  · rename_i fails
    rw [if_pos fails] at asked
    exact Exec.run_bind_error asked _
  · rename_i works
    rw [if_neg works] at asked
    rw [Exec.run_bind asked, Store.scan_some, List.length_take]
    by_cases more : ctx.limits.maxScanRows < (w.store.scan (some ctx.stage) table none).length
    · rw [if_pos (by omega), if_pos more, Exec.run_bind (Exec.run_log w _ errors), List.take_take,
        Nat.min_eq_left (Nat.le_succ _)]
      rfl
    · rw [if_neg (by omega), if_neg more, List.take_of_length_le (by omega),
        List.take_of_length_le (by omega)]
      rfl

/-- A table within the limit is read as a whole. -/
theorem run_scanTable_of_fits {w : World} {ctx : Context}
    (readable : w.faults.contains .scan = false) {table : String}
    (fits : (w.store.scan (some ctx.stage) table none).length ≤ ctx.limits.maxScanRows)
    (path : String) (errors : List ValidationError) :
    w.run (scanTable ctx table path errors) =
      ((.ok (w.store.scan (some ctx.stage) table none), errors), w) := by
  rw [run_scanTable, if_neg (by rw [readable]; decide), List.take_of_length_le fits,
    if_neg (Nat.not_lt.mpr fits)]

/-! ### Joining rows -/

/-- Where every member is mapped to something, nothing is left out. -/
theorem forall₂_filterMap {α β : Type} {f : α → Option β} {as : List α}
    (defined : ∀ a ∈ as, (f a).isSome) :
    List.Forall₂ (fun a b => f a = some b) as (as.filterMap f) := by
  induction as with
  | nil => exact .nil
  | cons a rest ih =>
    obtain ⟨b, found⟩ := Option.isSome_iff_exists.mp (defined a List.mem_cons_self)
    rw [List.filterMap_cons_some found]
    exact .cons found (ih fun other member => defined other (List.mem_cons_of_mem a member))

theorem filterMap_of_forall₂ {α β : Type} {f : α → Option β} {as : List α} {bs : List β}
    (each : List.Forall₂ (fun a b => f a = some b) as bs) : as.filterMap f = bs := by
  induction each with
  | nil => rfl
  | cons found _ ih => rw [List.filterMap_cons_some found, ih]

namespace Select

theorem joinTypes_value (schema : Schema) (joins : List Join) :
    ∀ index errors, ((joinTypes schema index joins).run errors).1 =
      joins.filterMap fun j => schema.get? j.source.table := by
  induction joins with
  | nil => intro index errors; rfl
  | cons j rest ih =>
    intro index errors
    rw [joinTypes, List.filterMap_cons]
    cases schema.get? j.source.table with
    | none => exact ih (index + 1) _
    | some d => exact congrArg (d :: ·) (ih (index + 1) errors)

section
variable (scope : Scope) (j : Join) (path : String)

theorem matchRows_cons (row candidate : Record) (rest : List Record)
    (errors : List ValidationError) :
    ((matchRows scope j path row (candidate :: rest)).run errors).1 =
      let joined := addEntry row j.source.name (.obj candidate.toRow)
      let verdict := j.on.passes scope (some joined) none
      let more := ((matchRows scope j path row rest).run
        ((Log.within path verdict).run errors).2).1
      if verdict.value then joined :: more else more := rfl

theorem joinRows_cons (right : List Record) (row : Record) (rest : List Record)
    (errors : List ValidationError) :
    ((joinRows scope j path right (row :: rest)).run errors).1 =
      let found := (matchRows scope j path row right).run errors
      (if found.1.isEmpty ∧ j.kind = .left then [addEntry row j.source.name .null] else found.1) ++
        ((joinRows scope j path right rest).run found.2).1 := rfl

end

end Select
end RecordQuery
