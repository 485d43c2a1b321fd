import RecordQuery.Proofs.Locations
import RecordQuery.Proofs.NameFaults

/-!
Errors that are reported once. An error that is in the list already is not added again, and for the
errors of this project to say the same is to be equal (`ValidationError.eq_of_same_of_plain`). So
reporting errors one after another is dropping repetitions from all of them at once
(`reportAll_eq`), it may be done piece by piece (`reportAll_append`), and nothing is lost by it
(`mem_reportAll_iff`). A computation that evaluates in clauses reports the problems of all its
evaluations, in their order (`Log.Reports`).
-/
namespace RecordQuery

/-! ### Errors that say the same -/

/-- The metadata of an error, if it has any, names one text. -/
def ValidationError.Plain (e : ValidationError) : Prop :=
  ∀ tree ∈ e.metadata, ∃ name text, tree = Json.obj [(name, .str text)]

theorem Json.same_named_iff {name text : String} {tree : Json} :
    (Json.obj [(name, .str text)]).same tree = true ↔ tree = .obj [(name, .str text)] := by
  constructor
  · intro same
    cases tree with
    | obj members =>
      rw [Json.same, Bool.and_eq_true, beq_iff_eq] at same
      obtain ⟨⟨key, value⟩, rfl⟩ := List.length_eq_one_iff.mp same.1.symm
      have found := same.2
      rw [sameMembers, sameMembers, Bool.and_true] at found
      by_cases named : key = name
      · subst named
        simp only [Dict.get?] at found
        cases value with
        | str other =>
          obtain rfl := beq_iff_eq.mp found
          rfl
        | _ => cases found
      · simp [Dict.get?, named] at found
    | _ => cases same
  · rintro rfl
    simp [Json.same, sameMembers, Dict.get?]

namespace ValidationError

theorem same_self {e : ValidationError} (plain : e.Plain) : (e == e) = true := by
  obtain ⟨path, message, expected, actual, suggestion, metadata⟩ := e
  change same _ _ = true
  cases metadata with
  | none => simp [same]
  | some tree =>
    obtain ⟨name, text, rfl⟩ := plain tree rfl
    simp [same, Json.same_named_iff]

/-- A plain error says the same as another one only if it is that one. -/
theorem eq_of_same_of_plain {a b : ValidationError} (plain : a.Plain) (equal : (a == b) = true) :
    a = b := by
  cases kept : a.metadata with
  | none => exact eq_of_same kept equal
  | some tree =>
    obtain ⟨name, text, rfl⟩ := plain tree kept
    have said : a.same b = true := equal
    obtain ⟨path, message, expected, actual, suggestion, metadata⟩ := a
    obtain ⟨path', message', expected', actual', suggestion', metadata'⟩ := b
    obtain rfl : metadata = some _ := kept
    cases metadata' with
    | none => simp [same] at said
    | some other => simpa [same, and_assoc, Json.same_named_iff, @eq_comm _ other] using said

end ValidationError

/-! ### Reporting errors once -/

section
variable {e : ValidationError} (plain : e.Plain) (errors : List ValidationError)

include plain

theorem mem_reportOnce_iff (other : ValidationError) :
    other ∈ reportOnce errors e ↔ other ∈ errors ∨ other = e := by
  rw [reportOnce]
  split
  · rename_i reported
    obtain ⟨twin, member, same⟩ := List.contains_iff_exists_mem_beq.mp reported
    obtain rfl := ValidationError.eq_of_same_of_plain plain same
    constructor
    · exact .inl
    · rintro (member | rfl) <;> assumption
  · rw [List.mem_append, List.mem_singleton]

theorem nodup_reportOnce {errors : List ValidationError} (distinct : errors.Nodup) :
    (reportOnce errors e).Nodup := by
  rw [reportOnce]
  split
  · exact distinct
  · rename_i new
    refine List.nodup_append.mpr ⟨distinct, List.nodup_singleton e, ?_⟩
    rintro other member twin listed rfl
    obtain rfl := List.mem_singleton.mp listed
    exact new (List.contains_iff_exists_mem_beq.mpr ⟨_, member, ValidationError.same_self plain⟩)

end

/-- Adds errors one after another, each of them unless the same one is there. -/
def reportAll (errors problems : List ValidationError) : List ValidationError :=
  problems.foldl reportOnce errors

/-- Errors may be reported piece by piece. -/
theorem reportAll_append (errors first second : List ValidationError) :
    reportAll errors (first ++ second) = reportAll (reportAll errors first) second :=
  List.foldl_append

/-- Reporting errors one after another drops those that have been there before and repetitions. -/
theorem reportAll_eq (problems : List ValidationError) : ∀ errors, reportAll errors problems =
    errors ++ (problems.filter fun e => !errors.contains e).eraseDups := by
  induction problems with
  | nil => intro errors; exact (List.append_nil errors).symm
  | cons e rest ih =>
    intro errors
    have step : reportAll errors (e :: rest) = reportAll (reportOnce errors e) rest := rfl
    rw [step, reportOnce]
    by_cases reported : errors.contains e = true
    · rw [if_pos reported, ih, List.filter_cons_of_neg (by simpa using reported)]
    · rw [if_neg reported, ih, List.filter_cons_of_pos (by simpa using reported),
        List.eraseDups_cons, List.filter_filter, List.append_assoc]
      have later : (fun other => !(errors ++ [e]).contains other) =
          fun other : ValidationError => (!other == e) && !errors.contains other := by
        funext other
        rw [List.contains_eq_any_beq, List.contains_eq_any_beq, List.any_append, List.any_cons,
          List.any_nil, Bool.or_false, Bool.not_or, Bool.and_comm]
      rw [later]
      rfl

/-- Without earlier errors, what is reported are the problems without repetitions. -/
theorem reportAll_nil (problems : List ValidationError) :
    reportAll [] problems = problems.eraseDups := by
  rw [reportAll_eq, List.nil_append]
  exact congrArg List.eraseDups (List.filter_eq_self.mpr fun _ _ => rfl)

theorem mem_of_mem_reportAll {e : ValidationError} {problems : List ValidationError} :
    ∀ {errors : List ValidationError},
      e ∈ reportAll errors problems → e ∈ errors ∨ e ∈ problems := by
  induction problems with
  | nil => exact .inl
  | cons first rest ih =>
    intro errors listed
    obtain ⟨added, once, same⟩ := reportOnce_append errors first
    rcases @ih (reportOnce errors first) listed with here | later
    · rw [once, List.mem_append] at here
      exact here.imp_right fun new => List.mem_cons.mpr (.inl (same e new))
    · exact .inr (List.mem_cons_of_mem first later)

/-- An error at a place where none has been reported is new. -/
theorem reportAll_of_new {e : ValidationError} {errors : List ValidationError}
    (new : ∀ other ∈ errors, other.path ≠ e.path) : reportAll errors [e] = errors ++ [e] := by
  refine if_neg fun reported => ?_
  obtain ⟨other, member, same⟩ := List.contains_iff_exists_mem_beq.mp reported
  have said : e.same other = true := same
  simp only [ValidationError.same, Bool.and_eq_true, beq_iff_eq] at said
  exact new other member said.1.1.1.1.1.symm

section
variable {problems : List ValidationError} (plain : ∀ e ∈ problems, e.Plain)

include plain

/-- No plain problem is lost. -/
theorem mem_reportAll_iff (e : ValidationError) : ∀ errors,
    e ∈ reportAll errors problems ↔ e ∈ errors ∨ e ∈ problems := by
  induction problems with
  | nil => intro errors; simp [reportAll]
  | cons first rest ih =>
    intro errors
    have later := ih (fun e member => plain e (List.mem_cons_of_mem first member))
      (reportOnce errors first)
    rw [mem_reportOnce_iff (plain first List.mem_cons_self)] at later
    rw [List.mem_cons, ← or_assoc]
    exact later

theorem nodup_reportAll : ∀ {errors : List ValidationError}, errors.Nodup →
    (reportAll errors problems).Nodup := by
  induction problems with
  | nil => exact id
  | cons first rest ih =>
    intro errors distinct
    exact ih (fun e member => plain e (List.mem_cons_of_mem first member))
      (nodup_reportOnce (plain first List.mem_cons_self) distinct)

end

/-! ### Computations that report problems once -/

/-- The problems of an evaluation in a clause: its faults, located there. -/
def Reported.problems {α : Type} (clause : String) (x : Reported α) : List ValidationError :=
  x.faults.map fun f => f.error.within clause

theorem Fault.plain_error (f : Fault) (clause : String) : (f.error.within clause).Plain := by
  cases f with
  | refusedCall func error =>
    rintro tree ⟨⟩
    exact ⟨"function", func, rfl⟩
  | _ => exact fun _ none => by cases none

theorem Reported.inside_of_mem_problems {α : Type} {clause : String} {x : Reported α}
    {e : ValidationError} (listed : e ∈ x.problems clause) : Inside clause e.path := by
  obtain ⟨f, -, rfl⟩ := List.mem_map.mp listed
  exact ⟨f.error.path, f.error_path_ne_empty,
    ValidationError.inside_within clause f.error_path_ne_empty⟩

namespace Log
variable {α β : Type}

/-- Whatever errors the computation finds, it reports certain problems, each of them once. -/
def Reports (problems : List ValidationError) (x : Log α) : Prop :=
  ∀ errors, (x.run errors).2 = reportAll errors problems

theorem reports_pure (a : α) : Reports [] (pure a) := fun _ => rfl

theorem reports_pure_of_eq_nil {problems : List ValidationError} (none : problems = []) (a : α) :
    Reports problems (pure a) := none ▸ reports_pure a

theorem reports_within (clause : String) (x : Reported α) :
    (within clause x).Reports (x.problems clause) := by
  intro errors
  refine (scopeErrors_eq_foldl clause errors (x.faults.map Fault.error)).trans ?_
  rw [reportAll, Reported.problems, List.foldl_map, List.foldl_map]

/-- What comes next may depend on what the computation yields. -/
theorem Reports.bind {x : Log α} {f : α → Log β} {first second : List ValidationError}
    (reports : x.Reports first) (later : ∀ errors, (f (x.run errors).1).Reports second) :
    (x >>= f).Reports (first ++ second) := by
  intro errors
  rw [reportAll_append, ← reports errors]
  exact later errors (x.run errors).2

theorem Reports.bind_of_yields {x : Log α} {a : α} {f : α → Log β}
    {first second : List ValidationError} (reports : x.Reports first) (yields : x.Yields a)
    (later : (f a).Reports second) : (x >>= f).Reports (first ++ second) :=
  reports.bind fun errors => by rwa [yields errors]

/-- A last step that puts a result together reports nothing more. -/
theorem Reports.bind_pure {x : Log α} {problems : List ValidationError}
    (reports : x.Reports problems) (f : α → β) : (x >>= fun a => pure (f a)).Reports problems :=
  reports

theorem Reports.mapM {f : α → Log β} {g : α → List ValidationError}
    (each : ∀ a, (f a).Reports (g a)) (items : List α) :
    (items.mapM f).Reports (items.flatMap g) := by
  induction items with
  | nil => rw [List.mapM_nil]; exact reports_pure []
  | cons a rest ih =>
    rw [List.mapM_cons, List.flatMap_cons]
    exact (each a).bind fun _ => ih.bind_pure _

theorem Reports.foldlM {f : β → α → Log β} {g : α → List ValidationError}
    (each : ∀ b a, (f b a).Reports (g a)) (items : List α) :
    ∀ b, (items.foldlM f b).Reports (items.flatMap g) := by
  induction items with
  | nil => intro b; exact reports_pure b
  | cons a rest ih =>
    intro b
    rw [List.foldlM_cons, List.flatMap_cons]
    exact (each b a).bind fun _ => ih _

theorem Reports.filterM {p : α → Log Bool} {g : α → List ValidationError}
    (each : ∀ a, (p a).Reports (g a)) (items : List α) :
    (items.filterM p).Reports (items.flatMap g) := by
  have kept : ∀ found, (items.filterAuxM p found).Reports (items.flatMap g) := by
    induction items with
    | nil => intro found; exact reports_pure found
    | cons a rest ih => intro found; exact (each a).bind fun keep => ih _
  exact (kept []).bind_pure _

end Log

end RecordQuery
