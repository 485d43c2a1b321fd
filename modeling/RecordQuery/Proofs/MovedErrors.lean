import Mathlib.Data.List.Induction
import RecordQuery.Proofs.ReportedOnce

/-!
Moving errors into clauses loses and disturbs nothing. What is moved are the errors behind the
mark, in their order, without those that say what an error in front of them says
(`scopeErrors_eq_unsaid`); each of them is still said (`said_by_scopeErrors`). To say the same is
transitive (`ValidationError.same_trans`), so it does not matter whether an error is compared with
those that have been kept or with all that have been moved.

A statement reports errors and moves them into clauses that lie within each other. Each clause
begins at a mark and ends by moving the errors behind it (`Ledger`). The errors in front of an open
mark stay as they are, whatever happens behind it (`Ledger.Sound.run`), and a list with an error is
never empty again (`Ledger.run_ne_nil`).
-/
namespace RecordQuery

/-! ### Saying the same -/

/-- Doubles that compare as equal are the same, or they are two zeros. -/
theorem unpacked_eq_of_compare {x y : Float.Model.UnpackedFloat} (equal : x.compare y = some .eq) :
    x = y ∨ ∃ s t, x = .zero s ∧ y = .zero t := by
  cases x with
  | notANumber => cases equal
  | infinity s =>
    cases y with
    | infinity t => cases s <;> cases t <;> first | exact .inl rfl | cases equal
    | _ => cases s <;> cases equal
  | zero s =>
    cases y with
    | zero t => exact .inr ⟨s, t, rfl, rfl⟩
    | notANumber => cases equal
    | infinity t => cases t <;> cases equal
    | finite t => cases t <;> cases equal
  | finite s m e pos =>
    cases y with
    | notANumber => cases s <;> cases equal
    | infinity t => cases s <;> cases t <;> cases equal
    | zero t => cases s <;> cases equal
    | finite t n f also =>
      have parts (same : (compare e f).then (compare m n) = .eq) : m = n ∧ e = f := by
        rw [Ordering.then_eq_eq, Std.LawfulEqCmp.compare_eq_iff_eq,
          Std.LawfulEqCmp.compare_eq_iff_eq] at same
        exact same.symm
      left
      cases s with
      | positive =>
        cases t with
        | positive =>
          obtain ⟨rfl, rfl⟩ := parts (Option.some.inj equal)
          rfl
        | negative => cases equal
      | negative =>
        cases t with
        | positive => cases equal
        | negative =>
          obtain ⟨rfl, rfl⟩ := parts (Ordering.swap_eq_eq.mp (Option.some.inj equal))
          rfl

theorem float_beq_trans {x y z : Float} (first : (x == y) = true) (second : (y == z) = true) :
    (x == z) = true := by
  have compared (u v : Float) :
      (u == v) = true ↔ u.toModel.unpack.compare v.toModel.unpack = some .eq := by
    change (u.toModel.unpack.compare v.toModel.unpack == some .eq) = true ↔ _
    exact beq_iff_eq
  rw [compared] at first second ⊢
  rcases unpacked_eq_of_compare first with same | ⟨s, t, left, middle⟩
  · rwa [same]
  · rcases unpacked_eq_of_compare second with same | ⟨-, u, -, right⟩
    · rwa [← same]
    · rw [left, right]
      rfl

theorem Number.same_trans {l m n : Number} (first : l.same m = true) (second : m.same n = true) :
    l.same n = true := by
  cases l with
  | int i =>
    cases m with
    | int j => rwa [beq_iff_eq.mp (first : (i == j) = true)]
    | float y => cases first
  | float x =>
    cases m with
    | int j => cases first
    | float y =>
      cases n with
      | int k => cases second
      | float z => exact float_beq_trans first second

namespace Json

theorem exists_of_sameMembers {key : String} {value : Json} : ∀ {ms ns : List (String × Json)},
    sameMembers ms ns = true → Dict.get? ms key = some value →
      ∃ other, Dict.get? ns key = some other ∧ value.same other = true := by
  intro ms ns same held
  induction ms with
  | nil => cases held
  | cons entry rest ih =>
    obtain ⟨name, first⟩ := entry
    rw [sameMembers, Bool.and_eq_true] at same
    by_cases here : name = key
    · rw [Dict.get?, if_pos here] at held
      obtain rfl := Option.some.inj held
      have found := same.1
      rw [here] at found
      cases there : Dict.get? ns key with
      | none => rw [there] at found; cases found
      | some other => rw [there] at found; exact ⟨other, rfl, found⟩
    · rw [Dict.get?, if_neg here] at held
      exact ih same.2 held

mutual

theorem same_trans : ∀ {a b c : Json}, a.same b = true → b.same c = true → a.same c = true
  | null, null, _, _, second => second
  | bool a, bool b, _, first, second => by
    rwa [beq_iff_eq.mp (first : (a == b) = true)]
  | num l, num m, num n, first, second => Number.same_trans first second
  | str s, str t, _, first, second => by
    rwa [beq_iff_eq.mp (first : (s == t) = true)]
  | arr xs, arr ys, arr zs, first, second => sameItems_trans first second
  | obj ms, obj ns, obj os, first, second => by
    rw [same, Bool.and_eq_true, beq_iff_eq] at first second ⊢
    exact ⟨first.1.trans second.1, sameMembers_trans first.2 second.2⟩

theorem sameItems_trans : ∀ {xs ys zs : List Json},
    sameItems xs ys = true → sameItems ys zs = true → sameItems xs zs = true
  | [], [], _, _, second => second
  | x :: xs, y :: ys, z :: zs, first, second => by
    rw [sameItems, Bool.and_eq_true] at first second ⊢
    exact ⟨same_trans first.1 second.1, sameItems_trans first.2 second.2⟩

theorem sameMembers_trans : ∀ {ms ns os : List (String × Json)},
    sameMembers ms ns = true → sameMembers ns os = true → sameMembers ms os = true
  | [], _, _, _, _ => rfl
  | (key, value) :: rest, ns, os, first, second => by
    rw [sameMembers, Bool.and_eq_true] at first ⊢
    cases held : Dict.get? ns key with
    | none => rw [held] at first; cases first.1
    | some middle =>
      rw [held] at first
      obtain ⟨last, found, same⟩ := exists_of_sameMembers second held
      rw [found]
      exact ⟨same_trans first.1 same, sameMembers_trans first.2 second⟩

end

end Json

theorem ValidationError.same_trans {d e f : ValidationError} (first : (d == e) = true)
    (second : (e == f) = true) : (d == f) = true := by
  have left : d.same e = true := first
  have right : e.same f = true := second
  change d.same f = true
  simp only [same, Bool.and_eq_true, beq_iff_eq] at left right ⊢
  obtain ⟨⟨⟨⟨⟨path, message⟩, expected⟩, actual⟩, suggestion⟩, metadata⟩ := left
  rw [path, message, expected, actual, suggestion]
  refine ⟨right.1, ?_⟩
  cases held : d.metadata with
  | none =>
    cases middle : e.metadata with
    | none => rw [← middle]; exact right.2
    | some y => rw [held, middle] at metadata; cases metadata
  | some x =>
    cases middle : e.metadata with
    | none => rw [held, middle] at metadata; cases metadata
    | some y =>
      cases last : f.metadata with
      | none => rw [middle, last] at right; cases right.2
      | some z =>
        rw [held, middle] at metadata
        rw [middle, last] at right
        exact Json.same_trans metadata right.2

/-! ### Moving errors -/

theorem ValidationError.within_eq (clause : String) (e : ValidationError) :
    e.within clause =
      { e with path := if e.path = "" then clause else clause ++ "." ++ e.path } := by
  rw [within, atPath]
  simp only [String.isEmpty_iff]

/-- Those of the errors that say nothing that has been said before, neither by an earlier one of
them nor by the errors in front. -/
def unsaid (front errors : List ValidationError) : List ValidationError :=
  (errors.zipIdx.filter fun entry => !(front ++ errors.take entry.2).contains entry.1).map (·.1)

theorem unsaid_concat (front errors : List ValidationError) (e : ValidationError) :
    unsaid front (errors ++ [e]) =
      if (front ++ errors).contains e then unsaid front errors else unsaid front errors ++ [e] := by
  have earlier : errors.zipIdx.filter (fun entry =>
        !(front ++ (errors ++ [e]).take entry.2).contains entry.1) =
      errors.zipIdx.filter fun entry => !(front ++ errors.take entry.2).contains entry.1 := by
    refine List.filter_congr fun entry listed => ?_
    have inside := (List.mem_zipIdx listed).2.1
    rw [List.take_append_of_le_length (by omega)]
  have last : ([e].zipIdx errors.length).filter (fun entry =>
        !(front ++ (errors ++ [e]).take entry.2).contains entry.1) =
      if (front ++ errors).contains e then [] else [(e, errors.length)] := by
    rw [List.zipIdx_singleton, List.filter_singleton, List.take_left]
    cases (front ++ errors).contains e <;> rfl
  rw [unsaid, List.zipIdx_append, List.filter_append, earlier, Nat.zero_add, last, List.map_append]
  split
  · exact List.append_nil _
  · rfl

/-- An error that is reported once is said afterwards. -/
theorem said_by_reportOnce (errors : List ValidationError) (e : ValidationError) :
    ∃ kept ∈ reportOnce errors e, e = kept ∨ (e == kept) = true := by
  rw [reportOnce]
  split
  · rename_i reported
    obtain ⟨kept, member, same⟩ := List.contains_iff_exists_mem_beq.mp reported
    exact ⟨kept, member, .inr same⟩
  · exact ⟨e, List.mem_append_right errors (List.mem_singleton.mpr rfl), .inl rfl⟩

theorem reportAll_concat (front errors : List ValidationError) (e : ValidationError) :
    reportAll front (errors ++ [e]) = reportOnce (reportAll front errors) e :=
  reportAll_append front errors [e]

/-- Each of the errors that are reported, and each in front of them, is said afterwards. -/
theorem said_by_reportAll {e : ValidationError} {front errors : List ValidationError}
    (listed : e ∈ front ++ errors) :
    ∃ kept ∈ reportAll front errors, e = kept ∨ (e == kept) = true := by
  induction errors using List.reverseRecOn with
  | nil => exact ⟨e, List.append_nil front ▸ listed, .inl rfl⟩
  | append_singleton errors last ih =>
    rw [reportAll_concat]
    rw [← List.append_assoc, List.mem_append, List.mem_singleton] at listed
    rcases listed with before | rfl
    · obtain ⟨kept, member, said⟩ := ih before
      exact ⟨kept, (prefix_reportOnce _ last).subset member, said⟩
    · exact said_by_reportOnce _ e

/-- Whether something has been said can be seen from what has been kept. -/
theorem contains_reportAll (front errors : List ValidationError) (e : ValidationError) :
    (reportAll front errors).contains e = (front ++ errors).contains e := by
  rw [Bool.eq_iff_iff, List.contains_iff_exists_mem_beq, List.contains_iff_exists_mem_beq]
  constructor
  · rintro ⟨other, kept, same⟩
    exact ⟨other, List.mem_append.mpr (mem_of_mem_reportAll kept), same⟩
  · rintro ⟨other, listed, same⟩
    obtain ⟨kept, member, said⟩ := said_by_reportAll listed
    rcases said with rfl | also
    · exact ⟨other, member, same⟩
    · exact ⟨kept, member, ValidationError.same_trans same also⟩

theorem reportAll_eq_unsaid (front errors : List ValidationError) :
    reportAll front errors = front ++ unsaid front errors := by
  induction errors using List.reverseRecOn with
  | nil => exact (List.append_nil front).symm
  | append_singleton errors e ih =>
    rw [reportAll_concat, reportOnce, contains_reportAll, unsaid_concat, ih]
    split
    · rfl
    · rw [List.append_assoc]

variable (mark : Nat) (clause : String) (errors : List ValidationError)

/-- The errors behind the mark are moved, in their order, without those that say what an error in
front of them says. -/
theorem scopeErrors_eq_unsaid :
    scopeErrors mark clause errors =
      errors.take mark ++ unsaid (errors.take mark) ((errors.drop mark).map (·.within clause)) := by
  rw [← reportAll_eq_unsaid, reportAll, List.foldl_map]
  rfl

example : (scopeErrors 1 "select.where"
      [{ path := "select.from", message := "long" }, { path := "users.age", message := "missing" },
        { path := "", message := "bare" }, { path := "users.age", message := "missing" }]).map
        (·.path) = ["select.from", "select.where.users.age", "select.where"] := by
  decide +kernel

/-- Each of the errors behind the mark is still said, inside the clause. -/
theorem said_by_scopeErrors {e : ValidationError} (listed : e ∈ errors.drop mark) :
    ∃ kept ∈ scopeErrors mark clause errors,
      e.within clause = kept ∨ (e.within clause == kept) = true := by
  rw [scopeErrors_eq_unsaid, ← reportAll_eq_unsaid]
  exact said_by_reportAll (List.mem_append_right _ (List.mem_map_of_mem listed))

theorem take_prefix_scopeErrors : errors.take mark <+: scopeErrors mark clause errors := by
  rw [scopeErrors_eq_unsaid]
  exact List.prefix_append _ _

theorem scopeErrors_ne_nil {errors : List ValidationError} (found : errors ≠ []) :
    scopeErrors mark clause errors ≠ [] := by
  obtain ⟨e, listed⟩ := List.exists_mem_of_ne_nil errors found
  rw [← List.take_append_drop mark errors, List.mem_append] at listed
  rcases listed with front | behind
  · exact List.ne_nil_of_mem ((take_prefix_scopeErrors mark clause errors).subset front)
  · obtain ⟨kept, member, -⟩ := said_by_scopeErrors mark clause errors behind
    exact List.ne_nil_of_mem member

/-! ### Clauses that lie within each other -/

/-- What happens to the errors of a statement: one is reported, or reported unless it has been, a
clause begins, or the clause that began last ends. -/
inductive ErrorEvent where
  | report (e : ValidationError)
  | once (e : ValidationError)
  | enter
  | leave (clause : String)

/-- The errors of a statement while it runs. -/
structure Ledger where
  errors : List ValidationError
  /-- The errors as they stood when the clauses began that have not ended yet, the innermost first.
  Their number is the mark of the clause. -/
  marks : List (List ValidationError) := []

namespace Ledger

/-- One event. -/
def step (l : Ledger) : ErrorEvent → Ledger
  | .report e => { l with errors := l.errors ++ [e] }
  | .once e => { l with errors := reportOnce l.errors e }
  | .enter => { l with marks := l.errors :: l.marks }
  | .leave clause =>
    match l.marks with
    | [] => l
    | start :: outer => ⟨scopeErrors start.length clause l.errors, outer⟩

/-- Events one after another. -/
def run (l : Ledger) (events : List ErrorEvent) : Ledger := events.foldl step l

theorem run_append (l : Ledger) (first second : List ErrorEvent) :
    l.run (first ++ second) = (l.run first).run second := List.foldl_append

theorem run_concat (l : Ledger) (events : List ErrorEvent) (event : ErrorEvent) :
    l.run (events ++ [event]) = (l.run events).step event := l.run_append events [event]

/-- The errors with which a statement began, and those in front of each open mark, are as they
stood. -/
structure Sound (first : List ValidationError) (l : Ledger) : Prop where
  kept : ∀ start ∈ l.marks ++ [first], start <+: l.errors
  nested : (l.marks ++ [first]).Pairwise fun inner outer => outer <+: inner

variable {first : List ValidationError} {l : Ledger}

theorem sound_start (first : List ValidationError) : Sound first ⟨first, []⟩ :=
  ⟨fun _ listed => List.mem_singleton.mp listed ▸ List.prefix_refl _, List.pairwise_singleton _ _⟩

/-- What grows behind the marks does not touch what is in front of them. -/
theorem Sound.grow {later : List ValidationError} (sound : Sound first l)
    (grown : l.errors <+: later) : Sound first { l with errors := later } :=
  ⟨fun start listed => (sound.kept start listed).trans grown, sound.nested⟩

theorem Sound.step (sound : Sound first l) (event : ErrorEvent) : Sound first (l.step event) := by
  cases event with
  | report e => exact sound.grow (List.prefix_append _ _)
  | once e => exact sound.grow (prefix_reportOnce _ e)
  | enter =>
    refine ⟨fun start listed => ?_, List.pairwise_cons.mpr ⟨sound.kept, sound.nested⟩⟩
    rcases List.mem_cons.mp listed with rfl | outer
    · exact List.prefix_refl _
    · exact sound.kept start outer
  | leave clause =>
    obtain ⟨errors, marks⟩ := l
    cases marks with
    | nil => exact sound
    | cons start outer =>
      obtain ⟨around, nested⟩ := List.pairwise_cons.mp sound.nested
      have moved := prefix_scopeErrors clause (sound.kept start List.mem_cons_self)
      exact ⟨fun other listed => (around other listed).trans moved, nested⟩

theorem Sound.run (sound : Sound first l) (events : List ErrorEvent) :
    Sound first (l.run events) := by
  induction events generalizing l with
  | nil => exact sound
  | cons event rest ih => exact ih (sound.step event)

/-- The end of a clause leaves what is in front of its mark as it stood at its beginning. -/
theorem Sound.take_leave (sound : Sound first l) {start : List ValidationError}
    {outer : List (List ValidationError)} (opened : l.marks = start :: outer) (clause : String) :
    l.errors.take start.length = start ∧
      (l.step (.leave clause)).errors.take start.length = start := by
  have before : start <+: l.errors := sound.kept start (by rw [opened]; exact List.mem_cons_self)
  have ended : (l.step (.leave clause)).errors = scopeErrors start.length clause l.errors := by
    rw [Ledger.step, opened]
  rw [ended]
  have after := prefix_scopeErrors clause before
  exact ⟨(List.prefix_iff_eq_take.mp before).symm, (List.prefix_iff_eq_take.mp after).symm⟩

theorem step_ne_nil (event : ErrorEvent) (found : l.errors ≠ []) : (l.step event).errors ≠ [] := by
  cases event with
  | report e => exact List.append_ne_nil_of_left_ne_nil found [e]
  | once e => exact fun clean => found (clean_of_later (prefix_reportOnce _ e) clean)
  | enter => exact found
  | leave clause =>
    obtain ⟨errors, marks⟩ := l
    cases marks with
    | nil => exact found
    | cons start outer => exact scopeErrors_ne_nil _ clause found

/-- Where an error has been found, there is an error at every later time. -/
theorem run_ne_nil (events : List ErrorEvent) (found : l.errors ≠ []) :
    (l.run events).errors ≠ [] := by
  induction events generalizing l with
  | nil => exact found
  | cons event rest ih => exact ih (step_ne_nil event found)

end Ledger

end RecordQuery
