import RecordQuery.Proofs.ConformingStores
import RecordQuery.Proofs.InsertedRows

/-!
What is reported of a row that is inserted. Each value is given for a column, in any case of
letters. It fits if the column is declared, is not maintained by the store and takes the value
(`Insert.Fits`); otherwise one error says why not (`Insert.Misfit`), and a refused value has one
reason (`Field.Refuses`). A row is checked exactly: its new record has the last fitting value of
each column, and the errors are those of the values that do not fit, in their order, followed by
those of the required fields that are not among the columns (`Insert.stageRow_exact`).
-/
namespace RecordQuery

/-! ### Why a value is refused -/

/-- The types of values that may be written into a column of a declared type. -/
def FieldType.kinds : FieldType → List Kind
  | .string => [.string]
  | .number => [.number]
  | .boolean => [.boolean]
  | .date => [.number, .string]
  | .reference => [.string, .number]
  | .enum | .json => [.null, .number, .string, .boolean, .array, .object]

/-- The records that a stage is found to see: none if the store fails to look them up. -/
def World.shown (w : World) (stage : StageId) : Presence := fun table id =>
  .get ∉ w.faults ∧ w.store.presence (some stage) table id

namespace Field

/-- The reason for which a column refuses a value. -/
inductive Refuses (w : World) (stage : StageId) (field : Field) : Json → Refusal → Prop
  | required (required : field.nullable = false) : Refuses w stage field .null .required
  | notAllowed {value : Json} (given : value.isNull = false) (type : field.type = .enum)
      (other : value.toText ∉ field.enumValues.getD []) :
      Refuses w stage field value (.notAllowed value.toText (field.enumValues.getD []))
  | wrongKind {value : Json} (given : value.isNull = false)
      (other : value.kind ∉ field.type.kinds) :
      Refuses w stage field value (.wrongKind value.kind)
  | invalidDate {s : String} (type : field.type = .date) (unreadable : Calendar.read? s = none) :
      Refuses w stage field (.str s) (.invalidDate s)
  | noTarget {value : Json} (type : field.type = .reference)
      (kind : value.kind ∈ field.type.kinds) (untargeted : field.referencedType = none) :
      Refuses w stage field value .noTarget
  | missingRecord {value : Json} {target : String} (type : field.type = .reference)
      (kind : value.kind ∈ field.type.kinds) (leads : field.referencedType = some target)
      (works : .get ∉ w.faults)
      (absent : ¬ w.store.presence (some stage) target value.toText) :
      Refuses w stage field value (.missingRecord target value.toText)
  | unverified {value : Json} {target : String} (type : field.type = .reference)
      (kind : value.kind ∈ field.type.kinds) (leads : field.referencedType = some target)
      (fails : .get ∈ w.faults) :
      Refuses w stage field value (.unverified target value.toText (World.outage .get))

section
variable {w : World} {stage : StageId} {field : Field} {value : Json}

/-- What is found out about a reference: that it is there, that it is not, or nothing. -/
theorem run_lookup (w : World) (stage : StageId) (target id : String) :
    (w.run (Script.ask (.get (some stage) target id))).1 =
      if .get ∈ w.faults then .error (World.outage .get)
      else .ok (w.store.get? (some stage) target id) := by
  rw [World.run_ask, World.answer, World.attempt]
  by_cases fails : .get ∈ w.faults
  · simp [fails]
  · simp [fails]

theorem run_refusal?_of_refersTo {target id : String}
    (verdict : field.check value = .refersTo target id) :
    (w.run (field.refusal? stage value)).1 =
      if .get ∈ w.faults then some (.unverified target id (World.outage .get))
      else if (w.store.get? (some stage) target id).isSome then none
      else some (.missingRecord target id) := by
  have looked := run_lookup w stage target id
  rw [refusal?, verdict]
  dsimp only
  rw [World.run_bind, looked]
  by_cases fails : .get ∈ w.faults
  · rw [if_pos fails, if_pos fails]
    rfl
  · rw [if_neg fails, if_neg fails]
    cases w.store.get? (some stage) target id <;> rfl

/-- A value is accepted just when the column takes it, with the records that are shown. -/
theorem run_refusal?_eq_none_iff :
    (w.run (field.refusal? stage value)).1 = none ↔ field.Takes (w.shown stage) value := by
  rw [takes_iff]
  cases verdict : field.check value with
  | accepted =>
    rw [refusal?, verdict]
    exact ⟨fun _ => trivial, fun _ => rfl⟩
  | refused reason =>
    rw [refusal?, verdict]
    exact ⟨fun accepted => (Option.some_ne_none reason accepted).elim, fun holds => holds.elim⟩
  | refersTo target id =>
    rw [run_refusal?_of_refersTo verdict, Verdict.Holds, World.shown, Store.presence]
    by_cases fails : .get ∈ w.faults
    · simp [fails]
    · cases w.store.get? (some stage) target id <;> simp [fails]

/-- Null is refused by required columns only. -/
theorem check_null : field.check .null =
    if field.nullable then .accepted else .refused .required := rfl

/-- A date is a number or a text that can be read as one. -/
theorem check_date (type : field.type = .date) (given : value.isNull = false) :
    (field.check value = .accepted ∧ value.kind ∈ field.type.kinds) ∨
      (∃ s, value = .str s ∧ Calendar.read? s = none ∧
        field.check value = .refused (.invalidDate s)) ∨
      (value.kind ∉ field.type.kinds ∧ field.check value = .refused (.wrongKind value.kind)) := by
  cases value with
  | null => cases given
  | num n => left; simp [check, type, FieldType.kinds, Json.isNull, Json.kind]
  | str s =>
    cases read : Calendar.read? s with
    | some date => left; simp [check, type, FieldType.kinds, Json.isNull, Json.kind, read]
    | none => right; left; exact ⟨s, rfl, read, by simp [check, type, Json.isNull, read]⟩
  | bool | arr | obj =>
    right; right
    simp [check, type, FieldType.kinds, Json.isNull, Json.kind]

/-- A reference of the right type is looked up in the target, if there is one. -/
theorem check_reference (type : field.type = .reference) (given : value.isNull = false) :
    field.check value =
      if value.kind ∈ field.type.kinds then
        match field.referencedType with
        | none => .refused .noTarget
        | some target => .refersTo target value.toText
      else .refused (.wrongKind value.kind) := by
  have kinds : field.type.kinds = [.string, .number] := by rw [type]; rfl
  by_cases listed : value.kind ∈ field.type.kinds
  · have contained : [Kind.string, Kind.number].contains value.kind = true := by
      simpa [kinds] using listed
    simp only [check, given, type, contained, Bool.false_eq_true, ↓reduceIte]
    exact (if_pos (type ▸ listed)).symm
  · have excluded : [Kind.string, Kind.number].contains value.kind = false := by
      simpa [kinds] using listed
    simp only [check, given, type, excluded, Bool.false_eq_true, ↓reduceIte]
    exact (if_neg (type ▸ listed)).symm

/-- A column of a simple type compares types. -/
theorem check_simple (checked : field.check value = .ofKind field.type.kinds value) :
    field.check value = .accepted ∨
      (value.kind ∉ field.type.kinds ∧ field.check value = .refused (.wrongKind value.kind)) := by
  rw [checked, Verdict.ofKind]
  by_cases listed : value.kind ∈ field.type.kinds <;> simp [listed]

/-- A value that is not accepted is refused for the reason that applies. -/
theorem refuses_of_run {reason : Refusal}
    (refused : (w.run (field.refusal? stage value)).1 = some reason) :
    field.Refuses w stage value reason := by
  have accepted (verdict : field.check value = .accepted) : field.Refuses w stage value reason := by
    rw [refusal?, verdict] at refused
    cases refused
  have told {other : Refusal} (verdict : field.check value = .refused other)
      (refuses : field.Refuses w stage value other) : field.Refuses w stage value reason := by
    rw [refusal?, verdict] at refused
    cases refused
    exact refuses
  by_cases null : value.isNull = true
  · obtain rfl : value = .null := by cases value <;> trivial
    have verdict : field.check .null =
        if field.nullable then .accepted else .refused .required := check_null
    split at verdict
    · exact accepted verdict
    · rename_i required
      exact told verdict (.required (Bool.eq_false_iff.mpr required))
  · have given := Bool.eq_false_iff.mpr null
    have simple (checked : field.check value = .ofKind field.type.kinds value) :
        field.Refuses w stage value reason := by
      rcases check_simple checked with verdict | ⟨other, verdict⟩
      · exact accepted verdict
      · exact told verdict (.wrongKind given other)
    cases type : field.type with
    | string | number | boolean => exact simple (by simp [check, given, type, FieldType.kinds])
    | json => exact accepted (by simp [check, given, type])
    | enum =>
      by_cases allowed : value.toText ∈ field.enumValues.getD []
      · exact accepted (by simp [check, given, type, allowed])
      · exact told (by simp [check, given, type, allowed]) (.notAllowed given type allowed)
    | date =>
      rcases check_date type given with ⟨verdict, -⟩ | ⟨s, rfl, unreadable, verdict⟩ |
        ⟨other, verdict⟩
      · exact accepted verdict
      · exact told verdict (.invalidDate type unreadable)
      · exact told verdict (.wrongKind given other)
    | reference =>
      have verdict := check_reference type given
      by_cases kind : value.kind ∈ field.type.kinds
      · rw [if_pos kind] at verdict
        cases leads : field.referencedType with
        | none =>
          rw [leads] at verdict
          exact told verdict (.noTarget type kind leads)
        | some target =>
          rw [leads] at verdict
          rw [run_refusal?_of_refersTo verdict] at refused
          by_cases fails : .get ∈ w.faults
          · rw [if_pos fails] at refused
            cases refused
            exact .unverified type kind leads fails
          · rw [if_neg fails] at refused
            split at refused
            · cases refused
            · rename_i absent
              cases refused
              exact .missingRecord type kind leads fails absent
      · rw [if_neg kind] at verdict
        exact told verdict (.wrongKind given kind)

end

end Field

namespace Insert

/-! ### Values that fit -/

section
variable (ctx : Context) (d : TypeDef) (w : World)

/-- A value fits the column that it is given for: users may write the column, and a declared field
of that name takes the value. -/
def Fits (entry : String × Json) : Prop :=
  isSystemColumn (Text.lower entry.1) = false ∧
    ∃ field ∈ d.fields, field.name = Text.lower entry.1 ∧ field.Takes (w.shown ctx.stage) entry.2

/-- Why a value that is given for a column does not fit, and the error that says so. -/
inductive Misfit (row : String) : String × Json → ValidationError → Prop
  | system {column : String} {value : Json}
      (maintained : isSystemColumn (Text.lower column) = true) :
      Misfit row (column, value)
        (systemColumnError (Text.lower column) (row ++ "." ++ Text.lower column))
  | unknown {column : String} {value : Json} (user : isSystemColumn (Text.lower column) = false)
      (undeclared : Text.lower column ∉ d.fieldNames) :
      Misfit row (column, value)
        (unknownColumn d (Text.lower column) (row ++ "." ++ Text.lower column))
  | refused {column : String} {value : Json} {field : Field} {reason : Refusal}
      (user : isSystemColumn (Text.lower column) = false) (known : field ∈ d.fields)
      (named : field.name = Text.lower column)
      (refuses : field.Refuses w ctx.stage value reason) :
      Misfit row (column, value) ((reason.error field).atPath (row ++ "." ++ Text.lower column))

variable {ctx d w} in
theorem Misfit.path_eq {row : String} {entry : String × Json} {e : ValidationError}
    (misfit : Misfit ctx d w row entry e) : e.path = row ++ "." ++ Text.lower entry.1 := by
  cases misfit <;> rfl

end

section
variable {ctx : Context} {d : TypeDef} {w : World}

/-- The entry of a value that fits is the value under the name of its column. -/
theorem accepted?_eq_some_iff (distinct : d.fieldNames.Nodup) {entry made : String × Json} :
    accepted? ctx d w entry = some made ↔
      Fits ctx d w entry ∧ made = (Text.lower entry.1, entry.2) := by
  rw [accepted?, Option.map_eq_some_iff]
  constructor
  · rintro ⟨field, found, rfl⟩
    obtain ⟨declared, allowed⟩ := Option.filter_eq_some_iff.mp found
    have named := TypeDef.name_of_field? declared
    rw [Bool.and_eq_true, Bool.not_eq_true', Option.isNone_iff_eq_none,
      Field.run_refusal?_eq_none_iff, named] at allowed
    exact ⟨⟨allowed.1, field, TypeDef.mem_of_field? declared, named, allowed.2⟩, by rw [named]⟩
  · rintro ⟨⟨user, field, known, named, takes⟩, rfl⟩
    have declared : d.field? entry.1 = some field := by
      cases first : d.field? entry.1 with
      | none =>
        have absent := List.find?_eq_none.mp first field known
        simp [named] at absent
      | some other =>
        have same := (TypeDef.name_of_field? first).trans named.symm
        rw [TypeDef.field_unique distinct (TypeDef.mem_of_field? first) known same]
    refine ⟨field, ?_, by rw [named]⟩
    rw [declared, Option.filter_eq_some_iff]
    refine ⟨rfl, ?_⟩
    rw [Bool.and_eq_true, Bool.not_eq_true', Option.isNone_iff_eq_none,
      Field.run_refusal?_eq_none_iff, named]
    exact ⟨user, takes⟩

theorem fits_iff (distinct : d.fieldNames.Nodup) {entry : String × Json} :
    Fits ctx d w entry ↔ (accepted? ctx d w entry).isSome = true := by
  rw [Option.isSome_iff_exists]
  simp [accepted?_eq_some_iff distinct]

/-- An error is the one of the value, which makes no entry then. -/
theorem misfit_of_misfit? {row : String} {entry : String × Json} {e : ValidationError}
    (found : misfit? ctx d row w entry = some e) : Misfit ctx d w row entry e := by
  obtain ⟨column, value⟩ := entry
  rw [misfit?] at found
  dsimp only at found
  by_cases system : isSystemColumn (Text.lower column) = true
  · rw [if_pos system] at found
    cases found
    exact .system system
  · have user := Bool.eq_false_iff.mpr system
    rw [if_neg system] at found
    cases declared : d.field? column with
    | none =>
      rw [declared] at found
      cases found
      refine .unknown user fun listed => ?_
      obtain ⟨field, known, named⟩ := List.mem_map.mp listed
      have absent := List.find?_eq_none.mp declared field known
      simp [named] at absent
    | some field =>
      rw [declared] at found
      obtain ⟨reason, refused, rfl⟩ := Option.map_eq_some_iff.mp found
      exact .refused user (TypeDef.mem_of_field? declared) (TypeDef.name_of_field? declared)
        (Field.refuses_of_run refused)

/-- A value has an error just if it makes no entry. -/
theorem misfit?_eq_none_iff {row : String} {entry : String × Json} :
    misfit? ctx d row w entry = none ↔ (accepted? ctx d w entry).isSome = true := by
  obtain ⟨column, value⟩ := entry
  rw [misfit?, accepted?]
  dsimp only
  by_cases system : isSystemColumn (Text.lower column) = true
  · have refused : ∀ field, d.field? column = some field → isSystemColumn field.name = true := by
      intro field declared
      rw [TypeDef.name_of_field? declared, system]
    rw [if_pos system]
    cases declared : d.field? column with
    | none => simp
    | some field => simp [refused field declared]
  · rw [if_neg system]
    cases declared : d.field? column with
    | none => simp
    | some field =>
      have user : isSystemColumn field.name = false := by
        rw [TypeDef.name_of_field? declared]
        exact Bool.eq_false_iff.mpr system
      cases (w.run (field.refusal? ctx.stage value)).1 <;> simp [user]

end

/-! ### The errors of a row -/

section
variable {ctx : Context} {d : TypeDef} {w : World}

open Classical in
/-- Each value that does not fit has its error, in the order of the values. -/
theorem forall₂_misfits (ctx : Context) (w : World) (distinct : d.fieldNames.Nodup)
    (row : String) (pairs : List (String × Json)) :
    List.Forall₂ (Misfit ctx d w row) (pairs.filter fun entry => ¬ Fits ctx d w entry)
      (pairs.filterMap (misfit? ctx d row w)) := by
  induction pairs with
  | nil => exact .nil
  | cons entry rest ih =>
    cases found : misfit? ctx d row w entry with
    | none =>
      have fits : Fits ctx d w entry :=
        (fits_iff distinct).mpr (misfit?_eq_none_iff.mp found)
      rw [List.filterMap_cons_none found, List.filter_cons_of_neg (by simpa using fits)]
      exact ih
    | some e =>
      have unfit : ¬ Fits ctx d w entry := fun fits => by
        rw [misfit?_eq_none_iff.mpr ((fits_iff distinct).mp fits)] at found
        cases found
      rw [List.filterMap_cons_some found, List.filter_cons_of_pos (by simpa using unfit)]
      exact .cons (misfit_of_misfit? found) ih

open Classical in
/-- The entries of a new record are those of the values that fit. -/
theorem acceptedEntries_eq (distinct : d.fieldNames.Nodup) (columns : List String)
    (values : List Json) :
    acceptedEntries ctx d w columns values =
      ((columns.zip values).filter fun entry => Fits ctx d w entry).map
        fun entry => (Text.lower entry.1, entry.2) := by
  rw [acceptedEntries]
  induction columns.zip values with
  | nil => rfl
  | cons entry rest ih =>
    by_cases fits : Fits ctx d w entry
    · have made := (accepted?_eq_some_iff distinct).mpr ⟨fits, rfl⟩
      rw [List.filterMap_cons_some made, List.filter_cons_of_pos (by simpa using fits), ih]
      rfl
    · have none : accepted? ctx d w entry = none := by
        rw [← Option.not_isSome_iff_eq_none, ← fits_iff distinct]
        exact fits
      rw [List.filterMap_cons_none none, List.filter_cons_of_neg (by simpa using fits), ih]

open Classical in
/-- Values that fit, one for each required field at least, make conforming fields. -/
theorem admits_of_fits (distinct : d.fieldNames.Nodup) {columns : List String}
    {values : List Json} (all : ∀ entry ∈ columns.zip values, Fits ctx d w entry)
    (full : values.length = columns.length)
    (complete : ∀ field ∈ d.fields, field.nullable = false →
      field.name ∈ columns.map Text.lower) :
    d.Admits (w.shown ctx.stage) (Dict.ofEntries (acceptedEntries ctx d w columns values)) := by
  have entries : acceptedEntries ctx d w columns values =
      (columns.zip values).map fun entry => (Text.lower entry.1, entry.2) := by
    rw [acceptedEntries_eq distinct, List.filter_eq_self.mpr]
    intro entry listed
    simpa using all entry listed
  have collects : d.Collects (w.shown ctx.stage)
      (Dict.ofEntries (acceptedEntries ctx d w columns values)) := by
    intro key value listed
    have given := Dict.mem_ofEntries listed
    rw [entries, List.mem_map] at given
    obtain ⟨entry, member, same⟩ := given
    cases same
    obtain ⟨-, field, known, named, takes⟩ := all entry member
    exact ⟨field, known, named, takes⟩
  refine collects.admits distinct fun field known required => ?_
  rw [Dict.mem_keys_ofEntries, entries, Dict.keys, List.map_map]
  have names : (columns.zip values).map (Prod.fst ∘ fun entry => (Text.lower entry.1, entry.2)) =
      columns.map Text.lower := by
    have first : (columns.zip values).map Prod.fst = columns := List.map_fst_zip (by omega)
    calc (columns.zip values).map (Text.lower ∘ Prod.fst)
        = ((columns.zip values).map Prod.fst).map Text.lower := by rw [List.map_map]
      _ = columns.map Text.lower := by rw [first]
  rw [names]
  exact complete field known required

open Classical in
/-- A row is checked exactly. Its new record has the last value that fits each column. What is
reported is one error for each value that does not fit, in their order and at their columns, and
then one for each required field that is not among the columns, in the order of the fields; nothing
else. So if nothing is reported, the fields conform to the type. -/
theorem stageRow_exact {s : Insert} {ctx : Context} {d : TypeDef} (distinct : d.fieldNames.Nodup)
    {values : List Json} (full : values.length = s.columns.length) (index : Nat) (w : World)
    (errors : List ValidationError) :
    ∃ fields misfits missing, w.run (s.stageRow ctx d (rowPath index) values errors) =
        ((.ok fields, errors ++ (misfits ++ missing)), w) ∧
      (Dict.keys fields).Nodup ∧
      (∀ name, Dict.get? fields name = ((s.columns.zip values).filter fun entry =>
        Fits ctx d w entry ∧ Text.lower entry.1 = name).getLast?.map Prod.snd) ∧
      List.Forall₂ (fun entry e => Misfit ctx d w (rowPath index) entry e ∧
          e.path = rowPath index ++ "." ++ Text.lower entry.1)
        ((s.columns.zip values).filter fun entry => ¬ Fits ctx d w entry) misfits ∧
      missing = (d.fields.filter fun field => field.nullable = false ∧
        field.name ∉ s.columns.map Text.lower).map (fun field =>
          (Refusal.required.error field).atPath (rowPath index ++ "." ++ field.name)) ∧
      (misfits ++ missing = [] → d.Admits (w.store.presence (some ctx.stage)) fields) := by
  have columns : (s.columns.zip values).map (·.1) = s.columns :=
    List.map_fst_zip (by omega)
  have misfits := forall₂_misfits ctx w distinct (rowPath index)
    (s.columns.zip values)
  have absent : missingFields d (rowPath index) s.columns =
      (d.fields.filter fun field => field.nullable = false ∧
        field.name ∉ s.columns.map Text.lower).map fun field =>
          (Refusal.required.error field).atPath (rowPath index ++ "." ++ field.name) := by
    rw [missingFields]
    congr 1
    refine List.filter_congr fun field _ => ?_
    rw [Bool.eq_iff_iff]
    simp
  have ran := run_stageRow ctx d (rowPath index) w s values errors
  rw [columns, List.append_assoc, absent] at ran
  refine ⟨_, _, _, ran, Dict.nodup_keys_ofEntries _, fun name => ?_,
    misfits.imp fun entry e misfit => ⟨misfit, misfit.path_eq⟩, rfl, fun clean => ?_⟩
  · have chosen : ((s.columns.zip values).filter fun entry => Fits ctx d w entry).filter
        ((·.1 == name) ∘ fun entry => (Text.lower entry.1, entry.2)) =
          (s.columns.zip values).filter fun entry =>
            Fits ctx d w entry ∧ Text.lower entry.1 = name := by
      rw [List.filter_filter]
      refine List.filter_congr fun entry _ => ?_
      rw [Bool.eq_iff_iff]
      simp [and_comm]
    rw [Dict.get?_ofEntries, acceptedEntries_eq distinct, List.filter_map, chosen,
      List.getLast?_map, Option.map_map]
    rfl
  · obtain ⟨fitting, complete⟩ := List.append_eq_nil_iff.mp clean
    rw [fitting] at misfits
    have all : ∀ entry ∈ s.columns.zip values, Fits ctx d w entry := by
      simpa using List.forall₂_nil_right_iff.mp misfits
    have listed : ∀ field ∈ d.fields, field.nullable = false →
        field.name ∈ s.columns.map Text.lower := by
      intro field known required
      by_contra missing
      rw [List.map_eq_nil_iff, List.filter_eq_nil_iff] at complete
      exact complete field known (by simpa [required] using missing)
    exact (admits_of_fits distinct all full listed).mono fun table id shown => shown.2

end

/-- The type of sailors: each has a name and a rank, and may have an age and a ship. -/
def crewType : TypeDef := .ofFields "crew"
  [.require (.ofType "name" .string), .ofType "age" .number,
    .require (.enumeration "rank" ["mate", "cook"]), .reference "ship" "ships"]

/-- A context for sailors and their ships. -/
def crewContext : Context where
  schema := .ofTypes [crewType, .ofFields "ships" []]
  stage := ⟨1⟩
  now := ⟨0, 0, 0⟩

/-- A world without ships. -/
def crewWorld : World := { now := ⟨0, 0, 0⟩, ids := fun _ => "new" }

/-- Names are given twice, two columns may not be written, and a rank is not given. -/
def crewInsertion : Insert where
  table := "crew"
  columns := ["NAME", "id", "nick", "age", "Name", "ship"]
  source := .values []

/-- The values of a sailor, in the order of these columns. -/
def crewValues : List Json :=
  [.str "Ann", .str "c1", .null, .str "old", .str "Bob", .str "s1"]

theorem stageRow_exact_crewInsertion :
    crewType.fieldNames.Nodup ∧ crewValues.length = crewInsertion.columns.length ∧
    ∃ fields misfits missing,
      crewWorld.run (crewInsertion.stageRow crewContext crewType (rowPath 0) crewValues []) =
        ((.ok fields, misfits ++ missing), crewWorld) ∧
      (Dict.get? fields "name").map Json.toText = some "Bob" ∧
      misfits.map (·.path) = ["insert.values[0].id", "insert.values[0].nick",
        "insert.values[0].age", "insert.values[0].ship"] ∧
      missing.map (·.path) = ["insert.values[0].rank"] := by
  have distinct : crewType.fieldNames.Nodup := by decide +kernel
  have full : crewValues.length = crewInsertion.columns.length := rfl
  obtain ⟨fields, misfits, missing, ran, -, -, -, absent, -⟩ :=
    @stageRow_exact crewInsertion crewContext crewType distinct crewValues full 0 crewWorld []
  have named : (crewWorld.run (crewInsertion.stageRow crewContext crewType (rowPath 0) crewValues
      [])).1.1.toOption.bind (fun fields => (Dict.get? fields "name").map Json.toText) =
        some "Bob" := by decide +kernel
  have paths : (crewWorld.run (crewInsertion.stageRow crewContext crewType (rowPath 0) crewValues
      [])).1.2.map (·.path) = ["insert.values[0].id", "insert.values[0].nick",
        "insert.values[0].age", "insert.values[0].ship", "insert.values[0].rank"] := by
    decide +kernel
  have last : missing.map (·.path) = ["insert.values[0].rank"] := by
    rw [absent]
    decide +kernel
  rw [ran] at named paths
  refine ⟨distinct, full, fields, misfits, missing, ran, named, ?_, last⟩
  rw [List.nil_append, List.map_append, last] at paths
  exact List.append_cancel_right paths

end Insert
end RecordQuery
