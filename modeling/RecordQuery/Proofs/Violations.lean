import RecordQuery.Schema.Lint
import Mathlib.Data.List.Nodup
import Mathlib.Data.List.Range

/-!
What the lint finds. What is wrong with a field among those of its type is said apart from how it is
looked for (`Violates`), and the lint lists all violations, each of them once, by type, by place in
the type and by kind of defect (`lint_eq`, `mem_findings_iff`, `findings_ordered`). Of fields that
share a name all but the first are duplicates (`count_duplicate`).
-/
namespace RecordQuery.Schema

/-! ### Violations -/

/-- What is wrong with a field that comes after fields of the given names. -/
def Violates (schema : Schema) (before : List String) (field : Field) : Defect → Prop
  | .duplicate => field.name ∈ before
  | .shadowsSystemColumn => isSystemColumn field.name = true
  | .noEnumValues => field.type = .enum ∧ field.enumValues.getD [] = []
  | .noTarget => field.type = .reference ∧ field.referencedType = none
  | .unknownTarget target =>
    field.type = .reference ∧ field.referencedType = some target ∧ target ∉ schema.names

/-- The place of a defect among those of one field. -/
def Defect.rank : Defect → ℕ
  | duplicate => 0
  | shadowsSystemColumn => 1
  | noEnumValues | noTarget | unknownTarget _ => 2

section
variable {schema : Schema} {field : Field}

/-- The defects of a field are its violations. -/
theorem mem_fieldDefects_iff {before : List String} {defect : Defect} :
    defect ∈ fieldDefects schema before field ↔ Violates schema before field defect := by
  rw [fieldDefects, List.mem_append, List.mem_append]
  constructor
  · rintro ((repeated | system) | type)
    · split at repeated
      · obtain rfl := List.mem_singleton.mp repeated
        exact List.contains_iff_mem.mp ‹_›
      · cases repeated
    · split at system
      · obtain rfl := List.mem_singleton.mp system
        assumption
      · cases system
    · split at type
      · split at type
        · obtain rfl := List.mem_singleton.mp type
          exact ⟨‹_›, List.isEmpty_iff.mp ‹_›⟩
        · cases type
      · split at type
        · obtain rfl := List.mem_singleton.mp type
          exact ⟨‹_›, ‹_›⟩
        · split at type
          · cases type
          · rename_i unknown
            obtain rfl := List.mem_singleton.mp type
            exact ⟨‹_›, ‹_›, fun known => unknown (List.contains_iff_mem.mpr known)⟩
      · cases type
  · intro violates
    cases defect with
    | duplicate =>
      have listed : field.name ∈ before := violates
      simp [listed]
    | shadowsSystemColumn =>
      have system : isSystemColumn field.name = true := violates
      simp [system]
    | noEnumValues => simp [violates.1, violates.2]
    | noTarget => simp [violates.1, violates.2]
    | unknownTarget target => simp [violates.1, violates.2]

/-- A field has each kind of defect at most once, in a fixed order. -/
theorem fieldDefects_ordered (before : List String) :
    (fieldDefects schema before field).Pairwise fun a b => a.rank < b.rank := by
  have single {p : Prop} [Decidable p] (defect : Defect) :
      (if p then [defect] else []).Pairwise fun a b => a.rank < b.rank := by
    split
    · exact List.pairwise_singleton _ defect
    · exact .nil
  rw [fieldDefects, List.pairwise_append, List.pairwise_append]
  refine ⟨⟨single _, single _, ?_⟩, ?_, ?_⟩
  · intro a first b second
    split at first <;> split at second <;> simp_all [Defect.rank]
  · split
    · exact single _
    · split
      · exact List.pairwise_singleton _ _
      · split
        · exact .nil
        · exact List.pairwise_singleton _ _
    · exact .nil
  · intro a first b second
    have early : a.rank < 2 := by
      rcases List.mem_append.mp first with here | here <;> split at here <;> simp_all [Defect.rank]
    have late : b.rank = 2 := by
      split at second
      · split at second <;> simp_all [Defect.rank]
      · split at second
        · simp_all [Defect.rank]
        · split at second <;> simp_all [Defect.rank]
      · cases second
    omega

end

/-! ### Findings -/

/-- A defect of a field at a place of a type. -/
structure Finding where
  type : TypeDef
  place : ℕ
  field : Field
  defect : Defect

namespace Finding

/-- What is reported of a finding. -/
def issue (f : Finding) : Issue := ⟨f.type.name, f.field.name, f.defect⟩

/-- The field stands at its place in a type of the schema and has the defect. -/
structure Holds (schema : Schema) (f : Finding) : Prop where
  listed : f.type ∈ schema.types
  stands : f.type.fields[f.place]? = some f.field
  violates : Violates schema (f.type.fieldNames.take f.place) f.field f.defect

/-- The order of findings: by the names of types, then by places, then by kinds of defects. -/
def Before (a b : Finding) : Prop :=
  a.type.name < b.type.name ∨ a.type = b.type ∧
    (a.place < b.place ∨ a.place = b.place ∧ a.defect.rank < b.defect.rank)

end Finding

/-- The findings on the fields of a type. -/
def typeFindings (schema : Schema) (d : TypeDef) : List Finding :=
  d.fields.zipIdx.flatMap fun (field, place) =>
    (fieldDefects schema (d.fieldNames.take place) field).map (⟨d, place, field, ·⟩)

/-- The findings on all fields of a schema. -/
def findings (schema : Schema) : List Finding := schema.types.flatMap schema.typeFindings

section
variable {schema : Schema}

/-- The names that come before a field are those of the fields at earlier places. -/
theorem fieldIssues_eq (typeName : String) (front fields : List Field) :
    fieldIssues schema typeName (front.map (·.name)) fields =
      (fields.zipIdx front.length).flatMap fun (field, place) =>
        (fieldDefects schema (((front ++ fields).map (·.name)).take place) field).map
          (⟨typeName, field.name, ·⟩) := by
  induction fields generalizing front with
  | nil => rfl
  | cons field rest ih =>
    have names : ((front ++ field :: rest).map (·.name)).take front.length =
        front.map (·.name) := by simp
    have later := ih (front ++ [field])
    rw [List.append_assoc, List.singleton_append, List.length_append, List.map_append] at later
    rw [fieldIssues, List.zipIdx_cons, List.flatMap_cons]
    dsimp only
    rw [names]
    exact congrArg _ later

/-- The lint reports the findings. -/
theorem lint_eq (schema : Schema) : schema.lint = schema.findings.map Finding.issue := by
  rw [lint, findings, List.map_flatMap]
  refine List.flatMap_congr fun d _ => ?_
  rw [typeFindings, List.map_flatMap]
  simp only [List.map_map]
  exact fieldIssues_eq d.name [] d.fields

theorem mem_typeFindings_iff {d : TypeDef} {f : Finding} : f ∈ schema.typeFindings d ↔
    f.type = d ∧ d.fields[f.place]? = some f.field ∧
      Violates schema (d.fieldNames.take f.place) f.field f.defect := by
  simp only [typeFindings, List.mem_flatMap, List.mem_map, List.mem_zipIdx_iff_getElem?,
    mem_fieldDefects_iff, Prod.exists]
  constructor
  · rintro ⟨field, place, stands, defect, violates, rfl⟩
    exact ⟨rfl, stands, violates⟩
  · rintro ⟨rfl, stands, violates⟩
    exact ⟨f.field, f.place, stands, f.defect, violates, rfl⟩

/-- The findings are the violations. -/
theorem mem_findings_iff {f : Finding} : f ∈ schema.findings ↔ f.Holds schema := by
  simp only [findings, List.mem_flatMap, mem_typeFindings_iff]
  constructor
  · rintro ⟨d, listed, rfl, stands, violates⟩
    exact ⟨listed, stands, violates⟩
  · rintro ⟨listed, stands, violates⟩
    exact ⟨_, listed, rfl, stands, violates⟩

theorem typeFindings_ordered (d : TypeDef) :
    (schema.typeFindings d).Pairwise Finding.Before := by
  rw [typeFindings, List.pairwise_flatMap]
  constructor
  · rintro ⟨field, place⟩ -
    rw [List.pairwise_map]
    exact (fieldDefects_ordered _).imp fun less => .inr ⟨rfl, .inr ⟨rfl, less⟩⟩
  · have places : d.fields.zipIdx.Pairwise fun a b => a.2 < b.2 := by
      refine List.pairwise_map.mp ?_
      rw [List.zipIdx_map_snd]
      exact List.pairwise_lt_range'
    refine places.imp fun less x first y second => ?_
    obtain ⟨_, -, rfl⟩ := List.mem_map.mp first
    obtain ⟨_, -, rfl⟩ := List.mem_map.mp second
    exact .inr ⟨rfl, .inl less⟩

/-- In a schema whose types are sorted the findings come in order, and so each of them once. -/
theorem findings_ordered (sorted : schema.names.Pairwise (· < ·)) :
    schema.findings.Pairwise Finding.Before := by
  rw [findings, List.pairwise_flatMap]
  refine ⟨fun d _ => typeFindings_ordered d, ?_⟩
  refine (List.pairwise_map.mp sorted).imp fun less x first y second => .inl ?_
  rw [(mem_typeFindings_iff.mp first).1, (mem_typeFindings_iff.mp second).1]
  exact less

/-! ### Repeated names -/

theorem count_fieldDefects (before : List String) (field : Field) (typeName name : String) :
    ((fieldDefects schema before field).map (Issue.mk typeName field.name)).count
        ⟨typeName, name, .duplicate⟩ = if field.name = name ∧ name ∈ before then 1 else 0 := by
  have distinct : (fieldDefects schema before field).Nodup :=
    (fieldDefects_ordered before).imp fun less same => absurd (same ▸ less) (Nat.lt_irrefl _)
  have separate : Function.Injective (Issue.mk typeName field.name) := by
    rintro a b ⟨⟩
    rfl
  have listed : ⟨typeName, name, .duplicate⟩ ∈
      (fieldDefects schema before field).map (Issue.mk typeName field.name) ↔
        field.name = name ∧ name ∈ before := by
    constructor
    · intro member
      obtain ⟨_, repeated, ⟨⟩⟩ := List.mem_map.mp member
      exact ⟨rfl, mem_fieldDefects_iff.mp repeated⟩
    · rintro ⟨rfl, member⟩
      have repeated : Violates schema before field .duplicate := member
      exact List.mem_map.mpr ⟨_, mem_fieldDefects_iff.mpr repeated, rfl⟩
  rw [(distinct.map separate).count]
  simp only [listed]

/-- Of the fields that share a name, the first is no duplicate unless the name came before. -/
theorem count_fieldIssues (before : List String) (fields : List Field) (typeName name : String) :
    (fieldIssues schema typeName before fields).count ⟨typeName, name, .duplicate⟩ =
      (fields.map (·.name)).count name - if name ∈ before then 0 else 1 := by
  induction fields generalizing before with
  | nil => simp [fieldIssues]
  | cons field rest ih =>
    rw [fieldIssues, List.count_append, count_fieldDefects, ih, List.map_cons, List.count_cons]
    by_cases here : field.name = name
    · by_cases listed : name ∈ before
      · simp [here, listed, Nat.add_comm]
      · simp [here, listed]
    · by_cases listed : name ∈ before
      · simp [here, listed]
      · simp [here, listed, Ne.symm here]

theorem typeName_of_mem_fieldIssues {typeName : String} {issue : Issue} {fields : List Field} :
    ∀ {before : List String}, issue ∈ fieldIssues schema typeName before fields →
      issue.typeName = typeName := by
  induction fields with
  | nil => intro before member; cases member
  | cons field rest ih =>
    intro before member
    rcases List.mem_append.mp member with here | later
    · obtain ⟨_, -, rfl⟩ := List.mem_map.mp here
      rfl
    · exact ih later

/-- A name that occurs several times in a type is reported for each time but the first. -/
theorem count_duplicate (distinct : schema.names.Nodup) {d : TypeDef} (member : d ∈ schema.types)
    (name : String) :
    schema.lint.count ⟨d.name, name, .duplicate⟩ = d.fieldNames.count name - 1 := by
  obtain ⟨front, back, split⟩ := List.append_of_mem member
  have elsewhere {types : List TypeDef} (others : d.name ∉ types.map (·.name)) :
      (types.flatMap fun e => fieldIssues schema e.name [] e.fields).count
        ⟨d.name, name, .duplicate⟩ = 0 := by
    rw [List.count_eq_zero, List.mem_flatMap]
    rintro ⟨e, listed, issue⟩
    exact others (List.mem_map.mpr ⟨e, listed, (typeName_of_mem_fieldIssues issue).symm⟩)
  rw [names, split, List.map_append, List.map_cons, List.nodup_middle, List.nodup_cons,
    List.mem_append, not_or] at distinct
  obtain ⟨⟨before, behind⟩, -⟩ := distinct
  rw [lint, split, List.flatMap_append, List.flatMap_cons, List.count_append, List.count_append,
    elsewhere before, elsewhere behind, count_fieldIssues]
  simp [TypeDef.fieldNames]

/-! ### Schemas without findings -/

/-- What is right about a field at a place of a type: its name is that of no other field and of no
system column, an enumeration allows some text, and a reference leads to a type of the schema. -/
structure Faultless (schema : Schema) (d : TypeDef) (place : ℕ) (field : Field) : Prop where
  alone : ∀ other twin, d.fields[other]? = some twin → twin.name = field.name → other = place
  user : isSystemColumn field.name = false
  allows : field.type = .enum → ∃ text, text ∈ field.enumValues.getD []
  leads : field.type = .reference →
    ∃ target, field.referencedType = some target ∧ target ∈ schema.names

theorem mem_take_fieldNames {d : TypeDef} {place : ℕ} {name : String} :
    name ∈ d.fieldNames.take place ↔
      ∃ earlier < place, ∃ other, d.fields[earlier]? = some other ∧ other.name = name := by
  rw [List.mem_iff_getElem?]
  refine exists_congr fun earlier => ?_
  rw [List.getElem?_take, TypeDef.fieldNames, List.getElem?_map]
  by_cases before : earlier < place <;> simp [before]

theorem lint_eq_nil_iff : schema.lint = [] ↔ ∀ d ∈ schema.types, ∀ place field,
    d.fields[place]? = some field → schema.Faultless d place field := by
  rw [lint_eq, List.map_eq_nil_iff, List.eq_nil_iff_forall_not_mem]
  constructor
  · intro clean d listed place field stands
    have right {place : ℕ} {field : Field} (stands : d.fields[place]? = some field)
        (defect : Defect) : ¬ Violates schema (d.fieldNames.take place) field defect :=
      fun violates => clean ⟨d, place, field, defect⟩
        (mem_findings_iff.mpr ⟨listed, stands, violates⟩)
    refine ⟨fun other twin found same => ?_, ?_, fun type => ?_, fun type => ?_⟩
    · rcases Nat.lt_trichotomy other place with earlier | equal | later
      · exact (right stands .duplicate
          (mem_take_fieldNames.mpr ⟨other, earlier, twin, found, same⟩)).elim
      · exact equal
      · exact (right found .duplicate
          (mem_take_fieldNames.mpr ⟨place, later, field, stands, same.symm⟩)).elim
    · exact Bool.eq_false_iff.mpr (right stands .shadowsSystemColumn)
    · exact List.exists_mem_of_ne_nil _ fun empty => right stands .noEnumValues ⟨type, empty⟩
    · cases leads : field.referencedType with
      | none => exact (right stands .noTarget ⟨type, leads⟩).elim
      | some target =>
        refine ⟨target, rfl, ?_⟩
        by_contra unknown
        exact right stands (.unknownTarget target) ⟨type, leads, unknown⟩
  · intro faultless f member
    obtain ⟨listed, stands, violates⟩ := mem_findings_iff.mp member
    have right := faultless f.type listed f.place f.field stands
    obtain ⟨type, place, field, defect⟩ := f
    cases defect with
    | duplicate =>
      obtain ⟨earlier, before, twin, found, same⟩ := mem_take_fieldNames.mp violates
      exact before.ne (right.alone earlier twin found same)
    | shadowsSystemColumn =>
      have system : isSystemColumn field.name = true := violates
      exact Bool.false_ne_true (right.user.symm.trans system)
    | noEnumValues =>
      obtain ⟨text, allowed⟩ := right.allows violates.1
      exact List.ne_nil_of_mem allowed violates.2
    | noTarget =>
      obtain ⟨target, leads, -⟩ := right.leads violates.1
      exact Option.some_ne_none target (leads.symm.trans violates.2)
    | unknownTarget target =>
      obtain ⟨other, leads, known⟩ := right.leads violates.1
      obtain rfl : other = target := Option.some.inj (leads.symm.trans violates.2.1)
      exact violates.2.2 known

theorem validate_eq_ok_iff : schema.validate = .ok () ↔ schema.lint = [] := by
  rw [validate]
  split
  · simp [*]
  · simp [*]

end
end RecordQuery.Schema
