import RecordQuery.Assignment
import RecordQuery.Proofs.Observations
import RecordQuery.Proofs.Violations

/-!
What it means that records conform to a schema: every key is a declared field, every value other
than null is one that its field may hold (`Field.Allows`), and the required fields are there. The
check of a column accepts just the values that may be written (`Field.takes_iff`), and fields that
are collected from checked values or changed to them make conforming records.
-/
namespace RecordQuery

/-- Which records there are, by the name of their table and their identifier. -/
abbrev Presence := String → String → Prop

/-! ### Values -/

namespace Verdict

/-- The column accepts the value: at once, or because the record that it refers to is there. -/
def Holds (present : Presence) : Verdict → Prop
  | accepted => True
  | refused _ => False
  | refersTo target id => present target id

theorem holds_ofKind {present : Presence} {kinds : List Kind} {value : Json} :
    (ofKind kinds value).Holds present ↔ value.kind ∈ kinds := by
  unfold ofKind
  by_cases listed : kinds.contains value.kind = true
  · rw [if_pos listed]
    exact ⟨fun _ => List.contains_iff_mem.mp listed, fun _ => trivial⟩
  · rw [if_neg listed]
    exact ⟨False.elim, fun member => listed (List.contains_iff_mem.mpr member)⟩

end Verdict

namespace Field

/-- What a column may hold apart from null. A reference names a record that is there. -/
def Allows (present : Presence) (field : Field) (value : Json) : Prop :=
  match field.type with
  | .string => value.kind = .string
  | .number => value.kind = .number
  | .boolean => value.kind = .boolean
  | .date => value.kind = .number ∨ ∃ s, value = .str s ∧ (Calendar.read? s).isSome = true
  | .enum => value.toText ∈ field.enumValues.getD []
  | .reference => (value.kind = .string ∨ value.kind = .number) ∧
      ∃ target, field.referencedType = some target ∧ present target value.toText
  | .json => True

/-- What may be written into a column: a value that it may hold, or null unless it is required. -/
def Takes (present : Presence) (field : Field) (value : Json) : Prop :=
  if value.isNull then field.nullable = true else field.Allows present value

theorem Allows.mono {present more : Presence} {field : Field} {value : Json}
    (allows : field.Allows present value) (grows : ∀ table id, present table id → more table id) :
    field.Allows more value := by
  unfold Allows at allows ⊢
  split at allows
  case h_6 =>
    obtain ⟨kind, target, names, found⟩ := allows
    exact ⟨kind, target, names, grows target _ found⟩
  all_goals exact allows

theorem Takes.mono {present more : Presence} {field : Field} {value : Json}
    (takes : field.Takes present value) (grows : ∀ table id, present table id → more table id) :
    field.Takes more value := by
  unfold Takes at takes ⊢
  by_cases null : value.isNull = true
  · rw [if_pos null] at takes ⊢
    exact takes
  · rw [if_neg null] at takes ⊢
    exact takes.mono grows

theorem Takes.given {present : Presence} {field : Field} {value : Json}
    (takes : field.Takes present value) (required : field.nullable = false) :
    value.isNull = false := by
  by_cases null : value.isNull = true
  · rw [Takes, if_pos null, required] at takes
    cases takes
  · exact Bool.eq_false_iff.mpr null

theorem Takes.allows {present : Presence} {field : Field} {value : Json}
    (takes : field.Takes present value) (given : value.isNull = false) :
    field.Allows present value := by
  rwa [Takes, given, if_neg Bool.false_ne_true] at takes

/-- A value may be written just when the check of its column accepts it, with the records that are
there. -/
theorem takes_iff {present : Presence} {field : Field} {value : Json} :
    field.Takes present value ↔ (field.check value).Holds present := by
  unfold Takes check
  by_cases null : value.isNull = true
  · rw [if_pos null, if_pos null]
    cases field.nullable <;> simp [Verdict.Holds]
  · rw [if_neg null, if_neg null]
    unfold Allows
    cases type : field.type with
    | string | number | boolean => simp [Verdict.holds_ofKind]
    | json => exact Iff.rfl
    | enum =>
      by_cases allowed : value.toText ∈ field.enumValues.getD [] <;> simp [allowed, Verdict.Holds]
    | date =>
      cases value with
      | num n => simp [Json.kind, Verdict.Holds]
      | str s =>
        by_cases read : (Calendar.read? s).isSome = true <;>
          simp [read, Json.kind, Verdict.Holds]
      | _ => simp [Json.kind, Verdict.Holds]
    | reference =>
      by_cases kind : value.kind = .string ∨ value.kind = .number
      · cases names : field.referencedType <;> simp [kind, Verdict.Holds]
      · simp [kind, Verdict.Holds]

end Field

/-! ### Fields -/

namespace Dict
variable {α : Type}

theorem mem_insert {d : Dict α} {key k : String} {value v : α}
    (member : (k, v) ∈ insert d key value) : (k = key ∧ v = value) ∨ (k, v) ∈ d := by
  induction d with
  | nil => left; simpa [insert] using member
  | cons entry rest ih =>
    obtain ⟨first, old⟩ := entry
    by_cases same : first = key
    · rw [insert, if_pos same] at member
      rcases List.mem_cons.mp member with here | later
      · left; simpa [same] using here
      · exact .inr (List.mem_cons_of_mem _ later)
    · rw [insert, if_neg same] at member
      rcases List.mem_cons.mp member with here | later
      · exact .inr (here ▸ List.mem_cons_self ..)
      · exact (ih later).imp_right (List.mem_cons_of_mem _)

theorem mem_of_get? {d : Dict α} {key : String} {value : α} (found : get? d key = some value) :
    (key, value) ∈ d := by
  induction d with
  | nil => simp at found
  | cons entry rest ih =>
    obtain ⟨first, old⟩ := entry
    by_cases same : first = key
    · simp [get?, same] at found
      simp [same, found]
    · simp [get?, same] at found
      exact List.mem_cons_of_mem _ (ih found)

theorem exists_get?_of_mem_keys {d : Dict α} {key : String} (member : key ∈ keys d) :
    ∃ value, get? d key = some value := by
  rw [← Option.isSome_iff_exists, Option.isSome_iff_ne_none, ne_eq, get?_eq_none_iff]
  exact not_not_intro member

end Dict

namespace TypeDef
variable {present more : Presence} {d : TypeDef} {fields changes : Dict Json}

/-- The fields of a record conform to its type. -/
structure Admits (present : Presence) (d : TypeDef) (fields : Dict Json) : Prop where
  declared : ∀ key value, (key, value) ∈ fields →
    ∃ field ∈ d.fields, field.name = key ∧ (value.isNull = false → field.Allows present value)
  required : ∀ field ∈ d.fields, field.nullable = false →
    ∃ value, Dict.get? fields field.name = some value ∧ value.isNull = false

/-- All values have been checked for fields of the type; fields may be missing. -/
def Collects (present : Presence) (d : TypeDef) (fields : Dict Json) : Prop :=
  ∀ key value, (key, value) ∈ fields →
    ∃ field ∈ d.fields, field.name = key ∧ field.Takes present value

theorem Admits.mono (admits : d.Admits present fields)
    (grows : ∀ table id, present table id → more table id) : d.Admits more fields where
  declared key value member := by
    obtain ⟨field, known, named, allows⟩ := admits.declared key value member
    exact ⟨field, known, named, fun given => (allows given).mono grows⟩
  required := admits.required

theorem Collects.mono (collects : d.Collects present fields)
    (grows : ∀ table id, present table id → more table id) : d.Collects more fields := by
  intro key value member
  obtain ⟨field, known, named, takes⟩ := collects key value member
  exact ⟨field, known, named, takes.mono grows⟩

theorem collects_nil : d.Collects present [] := by
  intro key value member
  cases member

theorem Collects.insert (collects : d.Collects present fields) {field : Field}
    (known : field ∈ d.fields) {value : Json} (takes : field.Takes present value) :
    d.Collects present (Dict.insert fields field.name value) := by
  intro key other member
  rcases Dict.mem_insert member with ⟨rfl, rfl⟩ | before
  · exact ⟨field, known, rfl, takes⟩
  · exact collects key other before

/-- In a type without repeated names a field is known by its name. -/
theorem field_unique (distinct : d.fieldNames.Nodup) {field other : Field}
    (known : field ∈ d.fields) (knownOther : other ∈ d.fields) (same : field.name = other.name) :
    field = other := List.inj_on_of_nodup_map distinct known knownOther same

/-- Checked values conform once no required field is missing. -/
theorem Collects.admits (collects : d.Collects present fields) (distinct : d.fieldNames.Nodup)
    (complete : ∀ field ∈ d.fields, field.nullable = false → field.name ∈ Dict.keys fields) :
    d.Admits present fields where
  declared key value member := by
    obtain ⟨field, known, named, takes⟩ := collects key value member
    exact ⟨field, known, named, takes.allows⟩
  required field known required := by
    obtain ⟨value, found⟩ := Dict.exists_get?_of_mem_keys (complete field known required)
    obtain ⟨other, knownOther, named, takes⟩ := collects _ _ (Dict.mem_of_get? found)
    obtain rfl := field_unique distinct knownOther known named
    exact ⟨value, found, takes.given required⟩

/-- A conforming record conforms after a checked change. -/
theorem Admits.insert (admits : d.Admits present fields) (distinct : d.fieldNames.Nodup)
    {field : Field} (known : field ∈ d.fields) {value : Json}
    (takes : field.Takes present value) :
    d.Admits present (Dict.insert fields field.name value) where
  declared key other member := by
    rcases Dict.mem_insert member with ⟨rfl, rfl⟩ | before
    · exact ⟨field, known, rfl, takes.allows⟩
    · exact admits.declared key other before
  required other knownOther required := by
    by_cases same : other.name = field.name
    · obtain rfl := field_unique distinct knownOther known same
      exact ⟨value, Dict.get?_insert_self .., takes.given required⟩
    · rw [Dict.get?_insert_of_ne _ _ same]
      exact admits.required other knownOther required

theorem Admits.overlay (admits : d.Admits present fields) (distinct : d.fieldNames.Nodup)
    (collects : d.Collects present changes) : d.Admits present (Record.overlay fields changes) := by
  unfold Record.overlay
  induction changes generalizing fields with
  | nil => exact admits
  | cons change rest ih =>
    rw [List.foldl_cons]
    have later : d.Collects present rest := fun key value member =>
      collects key value (List.mem_cons_of_mem _ member)
    split
    · exact ih admits later
    · obtain ⟨field, known, named, takes⟩ := collects change.1 change.2 (List.mem_cons_self ..)
      rw [← named]
      exact ih (admits.insert distinct known takes) later

end TypeDef

/-- Nothing is stripped from fields without system columns. -/
theorem Record.stripSystem_eq {fields : Dict Json}
    (plain : ∀ name ∈ Dict.keys fields, isSystemColumn name = false) :
    stripSystem fields = fields := by
  have absent : ∀ name ∈ systemColumns, Dict.get? fields name = none := by
    intro name system
    rw [Dict.get?_eq_none_iff]
    intro member
    have := plain name member
    rw [isSystemColumn, List.contains_iff_mem.mpr system] at this
    cases this
  have kept (names : List String) (missing : ∀ name ∈ names, Dict.get? fields name = none) :
      names.foldl Dict.swapRemove fields = fields := by
    induction names with
    | nil => rfl
    | cons name rest ih =>
      have unchanged : Dict.swapRemove fields name = fields := by
        simp [Dict.swapRemove, Dict.hasKey, missing name (List.mem_cons_self ..)]
      rw [List.foldl_cons, unchanged]
      exact ih fun other member => missing other (List.mem_cons_of_mem _ member)
  exact kept systemColumns absent

/-! ### Schemas -/

namespace Schema

/-- No field of a type has a name twice or the name of a system column, and references lead to
types of the schema. -/
structure Usable (schema : Schema) : Prop where
  distinct : ∀ d ∈ schema.types, d.fieldNames.Nodup
  plain : ∀ d ∈ schema.types, ∀ field ∈ d.fields, isSystemColumn field.name = false
  targets : ∀ d ∈ schema.types, ∀ field ∈ d.fields, field.type = .reference →
    ∃ target, field.referencedType = some target ∧ target ∈ schema.names

theorem usable_of_validate {schema : Schema} (valid : schema.validate = .ok ()) :
    schema.Usable := by
  have faultless := lint_eq_nil_iff.mp (validate_eq_ok_iff.mp valid)
  refine ⟨fun d listed => ?_, fun d listed field known => ?_, fun d listed field known => ?_⟩
  · refine List.nodup_iff_getElem?_ne_getElem?.mpr fun first second less bound same => ?_
    rw [TypeDef.fieldNames, List.length_map] at bound
    have stands : d.fields[second]? = some d.fields[second] := List.getElem?_eq_getElem bound
    simp only [TypeDef.fieldNames, List.getElem?_map, stands, Option.map_some,
      Option.map_eq_some_iff] at same
    obtain ⟨twin, found, named⟩ := same
    exact less.ne ((faultless d listed second _ stands).alone first twin found named)
  · obtain ⟨place, stands⟩ := List.mem_iff_getElem?.mp known
    exact (faultless d listed place field stands).user
  · obtain ⟨place, stands⟩ := List.mem_iff_getElem?.mp known
    exact (faultless d listed place field stands).leads

end Schema
end RecordQuery
