import RecordQuery.Config
import RecordQuery.Proofs.LowerCase
import Mathlib.Data.List.Nodup
import Mathlib.Data.String.Basic
import Mathlib.Order.Compare

/-!
Schemas as maps from names to types. However a schema is built, its types are sorted by their names
and have all names in lower case (`Built.normal`), and such a schema is told by what its names lead
to (`Normal.ext`). A name leads to the last definition that was given under it
(`Built.get?_eq`), and merging looks first into the schema that is merged in (`get?_extend`), so it
is associative and idempotent (`definitions_registered`).
-/
namespace RecordQuery

open Files (FileReader)

/-! ### Look-ups by name -/

/-- In a list without repeated names a member is found by its name. -/
theorem find?_name_of_mem {α : Type} {name : α → String} {items : List α} {item : α}
    (distinct : (items.map name).Nodup) (member : item ∈ items) :
    items.find? (name · == name item) = some item := by
  have listed : (items.find? (name · == name item)).isSome = true :=
    List.find?_isSome.mpr ⟨item, member, beq_self_eq_true _⟩
  obtain ⟨other, found⟩ := Option.isSome_iff_exists.mp listed
  have named := List.find?_some found
  obtain rfl := List.inj_on_of_nodup_map distinct (List.mem_of_find?_eq_some found) member
    (beq_iff_eq.mp named)
  exact found

/-! ### Normal forms -/

@[simp] theorem Field.normalize_normalize (field : Field) :
    field.normalize.normalize = field.normalize := by
  have target : (field.referencedType.map Text.lower).map Text.lower =
      field.referencedType.map Text.lower := by
    cases field.referencedType <;> simp
  simp [normalize, target]

namespace TypeDef

/-- All names of the type, of its fields and of the types that they refer to are in lower case. -/
structure Lowered (d : TypeDef) : Prop where
  name : Text.lower d.name = d.name
  fields : ∀ field ∈ d.fields, Text.lower field.name = field.name
  targets : ∀ field ∈ d.fields, ∀ target ∈ field.referencedType, Text.lower target = target

@[simp] theorem name_normalize (d : TypeDef) : d.normalize.name = Text.lower d.name := rfl

/-- A friendly name that was empty is the name in lower case by then, or both are empty. -/
@[simp] theorem normalize_normalize (d : TypeDef) : d.normalize.normalize = d.normalize := by
  by_cases unnamed : d.friendlyName.isEmpty = true
  · simp [normalize, unnamed]
  · simp [normalize, unnamed]

theorem lowered_normalize (d : TypeDef) : d.normalize.Lowered where
  name := Text.lower_lower d.name
  fields field declared := by
    obtain ⟨written, -, rfl⟩ := List.mem_map.mp declared
    exact Text.lower_lower written.name
  targets field declared target leads := by
    obtain ⟨written, -, rfl⟩ := List.mem_map.mp declared
    obtain ⟨name, -, rfl⟩ := Option.map_eq_some_iff.mp leads
    exact Text.lower_lower name

/-- In a type without repeated names a field is found by its name, in any case. -/
theorem Lowered.field?_of_mem {d : TypeDef} (lowered : d.Lowered) {field : Field}
    (declared : field ∈ d.fields) (distinct : d.fieldNames.Nodup) :
    d.field? field.name = some field := by
  rw [field?, lowered.fields _ declared]
  exact find?_name_of_mem distinct declared

end TypeDef

namespace Schema

/-! ### Sorted lists of types -/

section
variable {d e : TypeDef} {types : List TypeDef}

theorem mem_insertSorted (member : e ∈ insertSorted d types) : e = d ∨ e ∈ types := by
  induction types with
  | nil => exact .inl (List.mem_singleton.mp member)
  | cons first rest ih =>
    rw [insertSorted] at member
    split at member
    · exact List.mem_cons.mp member
    · exact (List.mem_cons.mp member).imp_right (List.mem_cons_of_mem first)
    · rcases List.mem_cons.mp member with rfl | later
      · exact .inr List.mem_cons_self
      · exact (ih later).imp_right (List.mem_cons_of_mem first)

/-- The type that is put in is found under its name, and other names lead where they led. -/
theorem find?_insertSorted (d : TypeDef) (types : List TypeDef) (name : String) :
    (insertSorted d types).find? (·.name == name) =
      if d.name = name then some d else types.find? (·.name == name) := by
  induction types with
  | nil => by_cases here : d.name = name <;> simp [insertSorted, here]
  | cons first rest ih =>
    rw [insertSorted]
    split
    · by_cases here : d.name = name <;> simp [here]
    · rename_i equal
      have same : d.name = first.name := Std.LawfulEqCmp.eq_of_compare equal
      by_cases here : d.name = name
      · simp [here]
      · simp [here, same ▸ here]
    · rename_i above
      have other : first.name ≠ d.name := (compare_gt_iff_gt.mp above).ne
      by_cases here : first.name = name
      · simp [here, here ▸ other.symm]
      · simp [here, ih]

theorem sorted_insertSorted (sorted : (types.map (·.name)).Pairwise (· < ·)) :
    ((insertSorted d types).map (·.name)).Pairwise (· < ·) := by
  rw [List.pairwise_map] at sorted ⊢
  induction types with
  | nil => exact List.pairwise_singleton _ d
  | cons first rest ih =>
    obtain ⟨least, later⟩ := List.pairwise_cons.mp sorted
    rw [insertSorted]
    split
    · rename_i below
      have less : d.name < first.name := compare_lt_iff_lt.mp below
      refine List.pairwise_cons.mpr ⟨fun e member => ?_, sorted⟩
      rcases List.mem_cons.mp member with rfl | behind
      · exact less
      · exact less.trans (least e behind)
    · rename_i equal
      have same : d.name = first.name := Std.LawfulEqCmp.eq_of_compare equal
      exact List.pairwise_cons.mpr ⟨fun e member => same ▸ least e member, later⟩
    · rename_i above
      refine List.pairwise_cons.mpr ⟨fun e member => ?_, ih later⟩
      rcases mem_insertSorted member with rfl | behind
      · exact compare_gt_iff_gt.mp above
      · exact least e behind

end

/-- A type that the names list is found by its name. -/
theorem exists_get?_of_mem_names {schema : Schema} {name : String} (listed : name ∈ schema.names)
    (lower : Text.lower name = name) : ∃ d, schema.get? name = some d := by
  obtain ⟨d, member, rfl⟩ := List.mem_map.mp listed
  refine Option.isSome_iff_exists.mp ?_
  rw [get?, lower]
  exact List.find?_isSome.mpr ⟨d, member, beq_self_eq_true _⟩

/-! ### Normal schemas -/

/-- The types are sorted by their names, each name occurs once, and all names are in lower case. -/
structure Normal (schema : Schema) : Prop where
  sorted : schema.names.Pairwise (· < ·)
  normal : ∀ d ∈ schema.types, d.normalize = d

section
variable {schema other : Schema} {d : TypeDef}

theorem normal_empty : ({} : Schema).Normal := ⟨.nil, fun _ member => nomatch member⟩

theorem Normal.insert (before : schema.Normal) (d : TypeDef) : (schema.insert d).Normal where
  sorted := sorted_insertSorted before.sorted
  normal e member := by
    rcases mem_insertSorted member with rfl | old
    · exact d.normalize_normalize
    · exact before.normal e old

theorem Normal.insertAll (before : schema.Normal) (types : List TypeDef) :
    (types.foldl Schema.insert schema).Normal := by
  induction types generalizing schema with
  | nil => exact before
  | cons d rest ih => exact ih (before.insert d)

theorem Normal.lower_name (normal : schema.Normal) (member : d ∈ schema.types) :
    Text.lower d.name = d.name := by
  rw [← normal.normal d member, TypeDef.name_normalize, Text.lower_lower]

/-- The types of a schema are those that their own names lead to. -/
theorem Normal.mem_iff (normal : schema.Normal) :
    d ∈ schema.types ↔ schema.get? d.name = some d := by
  constructor
  · intro member
    rw [get?, normal.lower_name member]
    exact find?_name_of_mem (normal.sorted.imp ne_of_lt) member
  · exact mem_of_get?

/-- A normal schema is told by what the names lead to. -/
theorem Normal.ext (normal : schema.Normal) (also : other.Normal)
    (same : ∀ name, schema.get? name = other.get? name) : schema = other := by
  have distinct {s : Schema} (sorted : s.Normal) : s.types.Nodup := by
    have names : s.names.Nodup := sorted.sorted.imp ne_of_lt
    exact names.of_map
  have listed : schema.types.Perm other.types := by
    refine (List.perm_ext_iff_of_nodup (distinct normal) (distinct also)).mpr fun d => ?_
    rw [normal.mem_iff, also.mem_iff, same]
  have equal : schema.types = other.types := by
    refine listed.eq_of_pairwise (fun d e _ _ less greater => (less.asymm greater).elim)
      (List.pairwise_map.mp normal.sorted) (List.pairwise_map.mp also.sorted)
  exact congrArg Schema.mk equal

/-! ### What names lead to -/

/-- The last of the definitions that are given under a name, in any case. -/
def lastNamed? (given : List TypeDef) (name : String) : Option TypeDef :=
  given.reverse.find? fun d => Text.lower d.name == Text.lower name

theorem lastNamed?_append (given more : List TypeDef) (name : String) :
    lastNamed? (given ++ more) name = (lastNamed? more name).or (lastNamed? given name) := by
  rw [lastNamed?, List.reverse_append, List.find?_append, lastNamed?, lastNamed?]

theorem get?_insert (schema : Schema) (d : TypeDef) (name : String) :
    (schema.insert d).get? name =
      if Text.lower d.name = Text.lower name then some d.normalize else schema.get? name := by
  rw [get?, insert, find?_insertSorted, TypeDef.name_normalize, get?]

/-- Of definitions that are put in one after another the last of a name counts. -/
theorem get?_insertAll (schema : Schema) (types : List TypeDef) (name : String) :
    (types.foldl insert schema).get? name =
      ((lastNamed? types name).map TypeDef.normalize).or (schema.get? name) := by
  induction types generalizing schema with
  | nil => rfl
  | cons d rest ih =>
    have split : lastNamed? (d :: rest) name =
        (lastNamed? rest name).or (lastNamed? [d] name) := lastNamed?_append [d] rest name
    rw [List.foldl_cons, ih, get?_insert, split, Option.map_or, Option.or_assoc]
    by_cases here : Text.lower d.name = Text.lower name <;> simp [lastNamed?, here]

theorem get?_ofTypes (types : List TypeDef) (name : String) :
    (ofTypes types).get? name = (lastNamed? types name).map TypeDef.normalize := by
  rw [ofTypes, get?_insertAll]
  exact Option.or_none

/-- In a normal schema the last definition of a name is the only one. -/
theorem Normal.lastNamed?_types (normal : schema.Normal) (name : String) :
    (lastNamed? schema.types name).map TypeDef.normalize = schema.get? name := by
  cases found : lastNamed? schema.types name with
  | none =>
    refine (List.find?_eq_none.mpr fun d member named => ?_).symm
    have missed := List.find?_eq_none.mp found d (List.mem_reverse.mpr member)
    rw [normal.lower_name member] at missed
    exact missed named
  | some d =>
    have member := List.mem_reverse.mp (List.mem_of_find?_eq_some found)
    have named := List.find?_some found
    rw [Option.map_some, normal.normal d member, ← normal.mem_iff.mp member]
    exact get?_congr (beq_iff_eq.mp named) schema

/-- Merging looks first into the schema that is merged in. -/
theorem get?_extend (schema : Schema) (normal : other.Normal) (name : String) :
    (schema.extend other).get? name = (other.get? name).or (schema.get? name) := by
  rw [extend, get?_insertAll, normal.lastNamed?_types]

theorem Normal.extend (normal : schema.Normal) (other : Schema) : (schema.extend other).Normal :=
  normal.insertAll other.types

theorem extend_assoc {third : Schema} (normal : schema.Normal) (also : other.Normal)
    (again : third.Normal) :
    (schema.extend other).extend third = schema.extend (other.extend third) := by
  refine ((normal.extend other).extend third).ext (normal.extend _) fun name => ?_
  rw [get?_extend _ again, get?_extend _ also, get?_extend _ (also.extend third),
    get?_extend _ again, Option.or_assoc]

theorem extend_self (normal : schema.Normal) : schema.extend schema = schema := by
  refine (normal.extend schema).ext normal fun name => ?_
  rw [get?_extend _ normal, Option.or_self]

end

/-! ### Building schemas -/

/-- The schemas that come of listing, adding and merging types, each with the definitions that were
given, the later ones behind. -/
inductive Built : Schema → List TypeDef → Prop
  | empty : Built {} []
  | ofTypes (types : List TypeDef) : Built (.ofTypes types) types
  | insert {schema : Schema} {given : List TypeDef} (before : schema.Built given) (d : TypeDef) :
    Built (schema.insert d) (given ++ [d])
  | extend {schema other : Schema} {given more : List TypeDef} (before : schema.Built given)
    (also : other.Built more) : Built (schema.extend other) (given ++ more)

section
variable {schema : Schema} {given : List TypeDef} (built : schema.Built given)

include built

theorem Built.normal : schema.Normal := by
  induction built with
  | empty => exact normal_empty
  | ofTypes types => exact normal_empty.insertAll types
  | insert _ d ih => exact ih.insert d
  | extend _ _ ih _ => exact ih.extend _

/-- A name leads to the last definition that was given under it. -/
theorem Built.get?_eq (name : String) :
    schema.get? name = (lastNamed? given name).map TypeDef.normalize := by
  induction built with
  | empty => rfl
  | ofTypes types => exact get?_ofTypes types name
  | @insert schema given before d ih =>
    have last := get?_insertAll schema [d] name
    rw [lastNamed?_append, Option.map_or, ← ih]
    exact last
  | @extend schema other given more before also ih ihOther =>
    rw [get?_extend schema also.normal, ih, ihOther, lastNamed?_append, Option.map_or]

theorem Built.lowered {d : TypeDef} (member : d ∈ schema.types) : d.Lowered :=
  built.normal.normal d member ▸ d.lowered_normalize

/-- No type is left exactly if no definition was given. -/
theorem Built.types_eq_nil_iff : schema.types = [] ↔ given = [] := by
  constructor
  · intro empty
    refine List.eq_nil_iff_forall_not_mem.mpr fun d member => ?_
    have missed := built.get?_eq d.name
    rw [get?, empty, List.find?_nil, eq_comm, Option.map_eq_none_iff] at missed
    exact List.find?_eq_none.mp missed d (List.mem_reverse.mpr member) (beq_self_eq_true _)
  · rintro rfl
    refine List.eq_nil_iff_forall_not_mem.mpr fun d member => ?_
    have found := built.normal.mem_iff.mp member
    rw [built.get?_eq] at found
    cases found

end

/-- The schema is the map that leads from each name to the normal form of its last definition. -/
structure Registers (schema : Schema) (given : List TypeDef) : Prop where
  /-- Each type stands under its own name. -/
  keys : ∀ d ∈ schema.types, schema.get? d.name = some d
  lowered : ∀ d ∈ schema.types, d.Lowered
  sorted : schema.names.Pairwise (· < ·)
  found : ∀ name, schema.get? name = (lastNamed? given name).map TypeDef.normalize

theorem Built.registers {schema : Schema} {given : List TypeDef} (built : schema.Built given) :
    schema.Registers given where
  keys _ member := built.normal.mem_iff.mp member
  lowered _ member := built.lowered member
  sorted := built.normal.sorted
  found := built.get?_eq

end Schema

/-! ### Schemas of configurations -/

/-- What a file reads as is built of the types that it lists. -/
theorem Schema.exists_built_of_ofFileText {path source : String} {schema : Schema}
    (read : Schema.ofFileText path source = .ok schema) : ∃ given, schema.Built given := by
  have built {tree? : Option Json} (described : tree?.bind Schema.ofJson? = some schema) :
      ∃ given, schema.Built given := by
    obtain ⟨tree, -, described⟩ := Option.bind_eq_some_iff.mp described
    obtain ⟨types, -, rfl⟩ := Option.map_eq_some_iff.mp described
    exact ⟨types, .ofTypes types⟩
  rw [Schema.ofFileText] at read
  split at read
  · rw [Schema.ofJsonText] at read
    split at read
    · rename_i described
      cases read
      exact built described
    · cases read
  · rw [Schema.ofTomlText] at read
    split at read
    · rename_i described
      cases read
      exact built described
    · cases read

namespace Config

/-- The types of the schema file that a configuration names; none if it names no file. -/
def fileTypes (read : FileReader Id) (c : Config) : Except Failure Schema :=
  match c.schemaFile? with
  | some path => (Schema.load read path).run
  | none => .ok {}

section
variable (read : FileReader Id) (c : Config) {base : Schema}

theorem fileTypes_eq_error_iff {failure : Failure} : c.fileTypes read = .error failure ↔
    ∃ path, c.schemaFile? = some path ∧ (Schema.load read path).run = .error failure := by
  rw [fileTypes]
  cases c.schemaFile? with
  | none => simp
  | some path => simp

theorem exists_built_of_fileTypes (found : c.fileTypes read = .ok base) :
    ∃ given, base.Built given := by
  rw [fileTypes] at found
  split at found
  · rename_i path _
    rw [Schema.load] at found
    generalize read path = file at found
    cases file with
    | ok source => exact Schema.exists_built_of_ofFileText found
    | error e =>
      have refused : (.error .io : Except Failure Schema) = .ok base := found
      cases refused
  · cases found
    exact ⟨[], .empty⟩

/-- The union of two lists of types is refused if it is empty, and kept otherwise. -/
theorem overlay_eq {given : List TypeDef} (built : base.Built given) : c.overlay base =
    if base.types = [] ∧ c.types = [] then .error (.config "No types configured")
    else .ok (base.extend (.ofTypes c.types)) := by
  have union := (built.extend (.ofTypes c.types)).types_eq_nil_iff
  rw [List.append_eq_nil_iff, ← built.types_eq_nil_iff] at union
  simp only [overlay, Schema.isEmpty, List.isEmpty_iff, union]

/-- The types of a configuration are put over those of its file, unless there are none. -/
theorem run_schema : (c.schema read).run = (c.fileTypes read).bind fun base =>
    if base.types = [] ∧ c.types = [] then .error (.config "No types configured")
    else .ok (base.extend (.ofTypes c.types)) := by
  have overlaid : (c.schema read).run = (c.fileTypes read).bind c.overlay := by
    rw [schema, fileTypes]
    cases c.schemaFile? with
    | none => rfl
    | some path =>
      dsimp only
      rw [ExceptT.run_bind]
      cases (Schema.load read path).run with
      | error failure => rfl
      | ok base => rfl
  rw [overlaid]
  cases found : c.fileTypes read with
  | error failure => rfl
  | ok base =>
    obtain ⟨filed, built⟩ := c.exists_built_of_fileTypes read found
    exact c.overlay_eq built

theorem run_schema_eq_ok_iff {merged : Schema} : (c.schema read).run = .ok merged ↔
    ∃ base, c.fileTypes read = .ok base ∧ ¬ (base.types = [] ∧ c.types = []) ∧
      merged = base.extend (.ofTypes c.types) := by
  rw [run_schema]
  cases c.fileTypes read with
  | error failure => simp [Except.bind]
  | ok base =>
    rw [Except.bind]
    split
    · rename_i empty
      simp [empty]
    · rename_i listed
      constructor
      · rintro ⟨⟩
        exact ⟨base, rfl, listed, rfl⟩
      · rintro ⟨_, ⟨⟩, -, rfl⟩
        rfl

theorem exists_run_schema_eq_error_iff : (∃ failure, (c.schema read).run = .error failure) ↔
    (∃ failure, c.fileTypes read = .error failure) ∨
      ∃ base, c.fileTypes read = .ok base ∧ base.types = [] ∧ c.types = [] := by
  rw [run_schema]
  cases c.fileTypes read with
  | error failure => simp [Except.bind]
  | ok base =>
    rw [Except.bind]
    split
    · rename_i empty
      simp [empty]
    · rename_i listed
      simp only [reduceCtorEq, exists_false, false_or, false_iff]
      rintro ⟨_, ⟨⟩, empty⟩
      exact listed empty

end

end Config

namespace Schema

/-- Schemas are maps from names in lower case to normal forms, in which the later definition of a
name counts. However a schema is built, it registers the definitions that were given; merging is
associative, and merging in what is there changes nothing. The schema of a configuration is that of
its file, if it names one, with its own types put over it; it is missing exactly if there is a file
that cannot be loaded or the union is empty. -/
theorem definitions_registered {schema other third : Schema} {given more rest : List TypeDef}
    (built : schema.Built given) (also : other.Built more) (again : third.Built rest)
    (read : FileReader Id) (c : Config) :
    schema.Registers given ∧
    (schema.extend other).extend third = schema.extend (other.extend third) ∧
    schema.extend schema = schema ∧ (schema.extend other).extend other = schema.extend other ∧
    (∀ merged, (c.schema read).run = .ok merged ↔
      ∃ base, c.fileTypes read = .ok base ∧ ¬ (base.types = [] ∧ c.types = []) ∧
        merged = base.extend (.ofTypes c.types)) ∧
    (∀ base, c.fileTypes read = .ok base → (∃ filed, base.Built filed ∧
        (base.extend (.ofTypes c.types)).Registers (filed ++ c.types)) ∧
      ∀ name, (base.extend (.ofTypes c.types)).get? name =
        ((ofTypes c.types).get? name).or (base.get? name)) ∧
    ((∃ failure, (c.schema read).run = .error failure) ↔
      (∃ path failure, c.schemaFile? = some path ∧ (load read path).run = .error failure) ∨
        ∃ base, c.fileTypes read = .ok base ∧ base.types = [] ∧ c.types = []) := by
  have merging := extend_assoc built.normal also.normal also.normal
  rw [extend_self also.normal] at merging
  refine ⟨built.registers, extend_assoc built.normal also.normal again.normal,
    extend_self built.normal, merging, fun merged => c.run_schema_eq_ok_iff read, ?_, ?_⟩
  · intro base found
    obtain ⟨filed, origin⟩ := c.exists_built_of_fileTypes read found
    have inline := Built.ofTypes c.types
    exact ⟨⟨filed, origin, (origin.extend inline).registers⟩, get?_extend base inline.normal⟩
  · rw [c.exists_run_schema_eq_error_iff read, exists_comm]
    simp only [c.fileTypes_eq_error_iff read]

/-- A type without fields. -/
def bareTeams : TypeDef := { name := "Teams" }

/-- The same type, written in another case, with a field. -/
def titledTeams : TypeDef := { name := "TEAMS", fields := [{ name := "Title", type := .string }] }

/-- A disk without files. -/
def emptyDisk : FileReader Id := fun _ => .error .missing

theorem definitions_registered_titledTeams :
    let merged := (ofTypes [bareTeams]).extend (({} : Schema).insert titledTeams)
    merged.Built [bareTeams, titledTeams] ∧
    merged.get? "tEAMS" = some ⟨"teams", "teams", [.ofType "title" .string]⟩ ∧
    merged.extend merged = merged ∧
    (({ types := [titledTeams] } : Config).schema emptyDisk).run =
      .ok (.extend {} (ofTypes [titledTeams])) := by
  have built : ((ofTypes [bareTeams]).extend (({} : Schema).insert titledTeams)).Built
      [bareTeams, titledTeams] := (Built.ofTypes [bareTeams]).extend (Built.empty.insert titledTeams)
  obtain ⟨registers, -, again, -, loaded, -⟩ := definitions_registered built built built
    emptyDisk { types := [titledTeams] }
  refine ⟨built, ?_, again, ?_⟩
  · rw [registers.found]
    decide +kernel
  · exact (loaded _).mpr ⟨{}, rfl, fun empty => List.cons_ne_nil _ _ empty.2, rfl⟩

end Schema
end RecordQuery
