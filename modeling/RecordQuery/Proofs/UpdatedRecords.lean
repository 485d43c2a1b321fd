import RecordQuery.Proofs.InsertedRows

/-!
What an update makes of the records of its table. Every expression reads a record as it was before
the update, and a record that is selected gets the values of all assignments at once
(`Update.version`). The records are written one after another into the table that the stage reads,
and each write leaves the records around it where they are (`Store.records_write`). An update that
reports no error puts the new versions into the places of the old ones and changes nothing else
(`Update.execute_simultaneous`).
-/
namespace RecordQuery

open Calendar (Instant)

/-! ### Dictionaries of entries -/

namespace Dict
variable {α : Type}

theorem insert_insert_self (d : Dict α) (key : String) (first second : α) :
    insert (insert d key first) key second = insert d key second := by
  induction d with
  | nil => simp [insert]
  | cons entry rest ih =>
    by_cases same : entry.1 = key
    · simp [insert, same]
    · simp [insert, same, ih]

/-- A key that is present keeps its place, whether another one is stored before or after it. -/
theorem insert_comm_of_mem {d : Dict α} {key other : String} (present : key ∈ keys d)
    (ne : other ≠ key) (value old : α) :
    insert (insert d other old) key value = insert (insert d key value) other old := by
  induction d with
  | nil => simp [keys] at present
  | cons entry rest ih =>
    obtain ⟨k, v⟩ := entry
    by_cases same : k = key
    · subst same
      simp [insert, Ne.symm ne]
    · have later : key ∈ keys rest := by
        simpa [keys, Ne.symm same] using present
      by_cases own : k = other
      · subst own
        simp [insert, same]
      · simp [insert, same, own, ih later]

theorem insertAll_insert_of_mem {e : Dict α} {key : String} (absent : key ∉ keys e) (value : α) :
    ∀ {d : Dict α}, key ∈ keys d →
      insertAll (insert d key value) e = insert (insertAll d e) key value := by
  induction e with
  | nil => intro d _; rfl
  | cons entry rest ih =>
    intro d present
    obtain ⟨other, old⟩ := entry
    simp only [keys, List.map_cons, List.mem_cons, not_or] at absent
    obtain ⟨apart, absent⟩ := absent
    have kept : key ∈ keys (insert d other old) :=
      (mem_keys_insert d other old key).mpr (.inr present)
    rw [insertAll_cons, insertAll_cons, ← insert_comm_of_mem present (Ne.symm apart)]
    exact ih absent kept

/-- Adding a dictionary with one more entry is adding the dictionary and then the entry. -/
theorem insertAll_insert {e : Dict α} (nodup : (keys e).Nodup) (key : String) (value : α) :
    ∀ d : Dict α, insertAll d (insert e key value) = insert (insertAll d e) key value := by
  induction e with
  | nil => intro d; rfl
  | cons entry rest ih =>
    intro d
    obtain ⟨k, old⟩ := entry
    obtain ⟨new, nodup⟩ := List.nodup_cons.mp nodup
    by_cases same : k = key
    · subst same
      have present : k ∈ keys (insert d k old) :=
        (mem_keys_insert d k old k).mpr (.inl rfl)
      rw [insert, if_pos rfl, insertAll_cons, insertAll_cons,
        ← insertAll_insert_of_mem new value present, insert_insert_self]
    · rw [insert, if_neg same, insertAll_cons, insertAll_cons, ih nodup]

theorem ofEntries_eq_nil_iff {entries : List (String × α)} : ofEntries entries = [] ↔ entries = [] := by
  constructor
  · intro empty
    cases entries with
    | nil => rfl
    | cons entry rest =>
      have listed : entry.1 ∈ keys (ofEntries (entry :: rest)) :=
        mem_keys_ofEntries.mpr (by simp [keys])
      rw [empty] at listed
      cases listed
  · rintro rfl
    rfl

/-- It does not matter whether entries are collected before they are added. -/
theorem insertAll_ofEntries (d : Dict α) (entries : List (String × α)) :
    insertAll d (ofEntries entries) = insertAll d entries := by
  induction entries using List.reverseRecOn with
  | nil => rfl
  | append_singleton before entry ih =>
    rw [ofEntries_concat, insertAll_insert (nodup_keys_ofEntries before), ih, insertAll, insertAll,
      List.foldl_append]
    rfl

theorem filter_insert (d : Dict α) (key : String) (value : α) (p : String → Bool) :
    (insert d key value).filter (fun entry => p entry.1) =
      if p key then insert (d.filter fun entry => p entry.1) key value
      else d.filter fun entry => p entry.1 := by
  induction d with
  | nil => rw [insert, List.filter_cons]; rfl
  | cons entry rest ih =>
    obtain ⟨k, old⟩ := entry
    by_cases same : k = key
    · subst same
      by_cases chosen : p k = true
      · simp [insert, chosen]
      · simp [insert, chosen]
    · by_cases own : p k = true
      · by_cases chosen : p key = true
        · simp [insert, same, own, chosen, ih]
        · simp [insert, same, own, chosen, ih]
      · simp [insert, same, own, ih]

/-- Choosing entries by their keys and collecting them can change places. -/
theorem filter_ofEntries (entries : List (String × α)) (p : String → Bool) :
    (ofEntries entries).filter (fun entry => p entry.1) =
      ofEntries (entries.filter fun entry => p entry.1) := by
  induction entries using List.reverseRecOn with
  | nil => rfl
  | append_singleton before entry ih =>
    rw [ofEntries_concat, filter_insert, ih, List.filter_append]
    by_cases chosen : p entry.1 = true
    · simp [chosen, ofEntries_concat]
    · simp [chosen]

/-- After entries have been added, each key has its last value, or else the one it had. -/
theorem get?_insertAll_eq (d : Dict α) (entries : List (String × α)) (key : String) :
    get? (insertAll d entries) key =
      ((entries.filter (·.1 == key)).getLast?.map Prod.snd).or (get? d key) := by
  rw [← insertAll_ofEntries, get?_insertAll (nodup_keys_ofEntries entries), get?_ofEntries]

end Dict

/-- Changes are added without those to system columns. -/
theorem Record.overlay_ofEntries (fields : Dict Json) (changes : List (String × Json)) :
    Record.overlay fields (Dict.ofEntries changes) =
      Dict.insertAll fields (changes.filter fun change => !isSystemColumn change.1) := by
  rw [overlay_eq, Dict.filter_ofEntries changes (fun key => !isSystemColumn key),
    Dict.insertAll_ofEntries]

/-! ### Writing in place -/

namespace Table

section
variable {t staged : Table} (distinct : Distinct (overlaid t staged))

include distinct

/-- The parts of an overlaid table list each identifier once if it does. -/
theorem distinct_parts : Distinct t ∧
    Distinct (staged.filter fun r => (find? t r.id).isNone) := by
  rw [Distinct, overlaid, List.map_append, List.map_map] at distinct
  have ids : t.map (Record.id ∘ fun r => (find? staged r.id).getD r) = t.map Record.id :=
    List.map_congr_left fun r _ => id_version staged r
  rw [ids] at distinct
  exact ⟨distinct.of_append_left, distinct.of_append_right⟩

/-- What an overlaid table lists is found, among the staged records first. -/
theorem find?_of_mem_overlaid {r : Record} (listed : r ∈ overlaid t staged) :
    (find? staged r.id).or (find? t r.id) = some r := by
  obtain ⟨distinctTable, distinctNew⟩ := distinct_parts distinct
  rcases List.mem_append.mp listed with version | new
  · obtain ⟨old, member, rfl⟩ := List.mem_map.mp version
    cases found : find? staged old.id with
    | none =>
      have own := (find?_eq_some_iff distinctTable old.id old).mpr ⟨member, rfl⟩
      simp [found, own]
    | some staged =>
      obtain ⟨-, same⟩ := mem_of_find? found
      simp [same, found]
  · have absent : (find? t r.id).isNone = true := (List.mem_filter.mp new).2
    have own := (find?_eq_some_iff distinctNew r.id r).mpr ⟨new, rfl⟩
    rw [find?_filter staged (p := fun id => (find? t id).isNone) absent] at own
    rw [own]
    rfl

end

end Table

namespace Store

section
variable {store : Store} {stage : StageId} {name : String} {before rest : List Record} {r : Record}
  (shown : store.records (some stage) name = before ++ r :: rest)
  (distinct : Table.Distinct (before ++ r :: rest))

include shown distinct

/-- A record that a stage reads in a table is the one that it finds there. -/
theorem lookup?_of_records : store.lookup? (some stage) name r.id = some r := by
  have listed : r ∈ store.records (some stage) name := by simp [shown]
  rw [← shown] at distinct
  have found := Table.find?_of_mem_overlaid distinct listed
  rw [lookup?]
  cases own : (store.staged (some stage) name).find? r.id with
  | none => rwa [own] at found
  | some version => rwa [own] at found

/-- A new version of a record takes its place, and the records around it stay. -/
theorem records_write {version : Record} (same : version.id = r.id) :
    (store.write stage name version).records (some stage) name = before ++ version :: rest := by
  have listed : ∃ old ∈ store.records (some stage) name, old.id = version.id :=
    ⟨r, by simp [shown], same.symm⟩
  have others : ∀ other ∈ before ++ rest, other.id ≠ version.id := by
    have ids := distinct
    rw [Table.Distinct, List.map_append, List.map_cons, List.nodup_middle, List.nodup_cons] at ids
    intro other member equal
    refine ids.1 ?_
    rw [← List.map_append, ← same, ← equal]
    exact List.mem_map_of_mem member
  have kept : ∀ records : List Record, (∀ other ∈ records, other.id ≠ version.id) →
      records.map (fun old => if old.id = version.id then version else old) = records := by
    intro records apart
    refine (List.map_congr_left fun other member => ?_).trans (List.map_id records)
    rw [if_neg (apart other member), id]
  rw [← shown] at distinct
  rw [records_write_self (Table.distinct_parts distinct).2, Table.place, if_pos listed]
  rw [shown, List.map_append, List.map_cons, if_pos same.symm,
    kept before fun other member => others other (List.mem_append_left rest member),
    kept rest fun other member => others other (List.mem_append_right before member)]

end

end Store

/-- An execution that ends without errors has begun without any. -/
theorem Exec.Ensures.clean {α : Type} {calls : Call → Prop} {x : Exec α}
    {post : α → List ValidationError → Prop} {errors : List ValidationError}
    (ensures : x.Ensures calls post errors) {w after : World} {reply : Except Failure α}
    (ran : w.run (x errors) = ((reply, []), after)) : errors = [] := by
  have found := Script.Ensures.run ensures w
  rw [ran] at found
  exact List.prefix_nil.mp found.1

/-- A table that is read without errors is read as a whole. -/
theorem records_of_clean_scanTable {w after : World} {ctx : Context} {table path : String}
    {records : List Record} {errors : List ValidationError}
    (ran : w.run (scanTable ctx table path errors) = ((.ok records, []), after)) :
    errors = [] ∧ records = w.store.scan (some ctx.stage) table none ∧ after = w := by
  have clean := (scanTable_reads ctx table path errors).clean ran
  rw [run_scanTable] at ran
  split at ran
  · cases ran
  · obtain ⟨replied, rfl⟩ := Prod.mk.inj ran
    obtain ⟨read, silent⟩ := Prod.mk.inj replied
    cases read
    by_cases more : ctx.limits.maxScanRows < (w.store.scan (some ctx.stage) table none).length
    · rw [if_pos more] at silent
      simp at silent
    · exact ⟨clean, List.take_of_length_le (Nat.not_lt.mp more), rfl⟩

/-- An update that is carried out writes the changed version of the record that the stage sees. -/
theorem World.answer_update_inv {w after : World} {stage : StageId} {table id : String}
    {changes : Dict Json} {r : Record}
    (answered : w.answer (.update stage table id changes) = (.ok r, after)) :
    ∃ old, w.store.lookup? (some stage) (Text.lower table) id = some old ∧
      r = old.apply w.now changes ∧
      after = { w with store := w.store.write stage (Text.lower table) r } := by
  rcases w.attempt_cases .update fun s => s.update w.now stage table id changes with out | out
  · rw [answer, out] at answered
    cases answered
  · rw [answer, out] at answered
    obtain ⟨replied, rfl⟩ := Prod.mk.inj answered
    rcases w.store.update_cases w.now stage table id changes with
      ⟨failure, refused⟩ | ⟨old, found, written⟩
    · rw [refused] at replied
      cases replied
    · rw [written] at replied ⊢
      cases replied
      exact ⟨old, found, rfl, rfl⟩

/-- Outside of one table in one stage, what is read is as before. -/
theorem Framed.scan_eq {stage : StageId} {name : String} {before after : Store}
    (framed : Framed stage name before after) {view : Option StageId} {table : String}
    (apart : view ≠ some stage ∨ Text.lower table ≠ name) (limit : Option Nat) :
    after.scan view table limit = before.scan view table limit := by
  by_cases own : view = some stage
  · subst own
    have other : Text.lower table ≠ name := apart.resolve_left fun ne => ne rfl
    have shown : after.records (some stage) (Text.lower table) =
        before.records (some stage) (Text.lower table) := by
      rw [Store.records, Store.records, framed.staged _ other, framed.agree.table]
    simp only [Store.scan, shown]
  · exact framed.agree.scan own table limit

/-! ### What an update says -/

theorem Expr.passes_iff {e : Expr} {scope : Scope} {row : Option Record}
    {group : Option (List Record)} :
    (e.passes scope row group).value = true ↔ (e.eval scope row group).value.raw = .bool true := by
  rw [passes]
  simp only [Reported.bind_eq, Reported.pure_eq]
  constructor
  · intro passes
    split at passes
    · assumption
    · cases passes
  · intro yields
    rw [yields]

namespace Update

section
variable (s : Update) (scope : Scope)

/-- The values that the assignments of an update have on a record, in their order. -/
def settings (r : Record) : List (String × Json) :=
  s.assignments.map fun a => (Text.lower a.column, (a.value.eval scope (some r) none).value.raw)

/-- An update assigns something, and its condition, if it has one, is true of a record. -/
def Matches (r : Record) : Prop :=
  s.assignments ≠ [] ∧
    ∀ condition ∈ s.filter, (condition.eval scope (some r) none).value.raw = .bool true

theorem matches_iff (r : Record) : s.Matches scope r ↔
    s.assignments ≠ [] ∧ s.filter.all (fun e => (e.passes scope (some r) none).value) = true := by
  rw [Matches, Option.all_eq_true]
  simp only [Expr.passes_iff]
  rfl

instance (r : Record) : Decidable (s.Matches scope r) :=
  decidable_of_iff _ (s.matches_iff scope r).symm

/-- What an update makes of a record: where it applies, each column that it assigns gets the last
value for it, read from the record itself, and otherwise nothing changes. -/
def version (now : Instant) (r : Record) : Record :=
  if s.Matches scope r then
    { r with
      fields := Dict.insertAll r.fields
        ((s.settings scope r).filter fun setting => !isSystemColumn setting.1)
      updated := now }
  else r

variable {scope} in
theorem version_of_matches (now : Instant) {r : Record} (applies : s.Matches scope r) :
    s.version scope now r = r.apply now (Dict.ofEntries (s.settings scope r)) := by
  rw [version, if_pos applies, Record.apply, Record.overlay_ofEntries]

theorem id_version (now : Instant) (r : Record) : (s.version scope now r).id = r.id := by
  rw [version]
  split <;> rfl

end

/-! ### Running an update -/

theorem reportOnce_ne_nil (errors : List ValidationError) (e : ValidationError) :
    reportOnce errors e ≠ [] := by
  rw [reportOnce]
  split
  · rename_i listed
    rintro rfl
    simp at listed
  · simp

/-- The field and the expression that an assignment is resolved to. -/
def Resolves (d : TypeDef) (a : Assignment) (target : Field × Expr) : Prop :=
  isSystemColumn a.column = false ∧ d.field? a.column = some target.1 ∧ target.2 = a.value

theorem resolves_of_clean {d : TypeDef} {assignments : List Assignment} :
    ∀ {targets : List (Field × Expr)} {errors : List ValidationError},
      (Update.targets d assignments).run errors = (targets, []) →
        errors = [] ∧ List.Forall₂ (Resolves d) assignments targets := by
  induction assignments with
  | nil =>
    intro targets errors ran
    cases ran
    exact ⟨rfl, .nil⟩
  | cons a rest ih =>
    intro targets errors ran
    -- A column that is reported leaves an error behind.
    have unreported : ∀ e : ValidationError,
        (Update.targets d rest).run (errors ++ [e]) ≠ (targets, []) := by
      intro e clean
      have empty := (ih clean).1
      simp at empty
    rw [Update.targets] at ran
    by_cases system : isSystemColumn a.column = true
    · rw [if_pos system] at ran
      exact absurd ran (unreported _)
    · rw [if_neg system] at ran
      cases declared : d.field? a.column with
      | none =>
        rw [declared] at ran
        exact absurd ran (unreported _)
      | some field =>
        rw [declared] at ran
        cases later : (Update.targets d rest).run errors with
        | mk found more =>
          have step : ((field, a.value) :: found, more) = (targets, []) := by
            rw [← ran]
            change _ = ((field, a.value) :: ((Update.targets d rest).run errors).1,
              ((Update.targets d rest).run errors).2)
            rw [later]
          obtain ⟨rfl, rfl⟩ := Prod.mk.inj step
          obtain ⟨empty, resolved⟩ := ih later
          exact ⟨empty, .cons ⟨Bool.eq_false_iff.mpr system, declared, rfl⟩ resolved⟩

/-- The entries of a record are those of the settings, under the names of the fields. -/
theorem settings_eq {s : Update} {d : TypeDef} {targets : List (Field × Expr)}
    (resolved : List.Forall₂ (Resolves d) s.assignments targets) (scope : Scope) (r : Record) :
    s.settings scope r =
      targets.map fun t => (t.1.name, (t.2.eval scope (some r) none).value.raw) := by
  rw [settings]
  generalize s.assignments = assignments at resolved
  induction resolved with
  | nil => rfl
  | cons first _ ih =>
    obtain ⟨-, declared, same⟩ := first
    rw [List.map_cons, List.map_cons, ih, TypeDef.name_of_field? declared, same]

section
variable {ctx : Context} {w after : World}

theorem changes_of_clean {r : Record} {targets : List (Field × Expr)} :
    ∀ {found changed : Dict Json} {errors : List ValidationError},
      w.run (changes ctx r found targets errors) = ((.ok changed, []), after) →
        errors = [] ∧ after = w ∧ changed = Dict.insertAll found
          (targets.map fun t => (t.1.name, (t.2.eval ctx.scope (some r) none).value.raw)) := by
  induction targets with
  | nil =>
    intro found changed errors ran
    cases ran
    exact ⟨rfl, rfl, rfl⟩
  | cons target rest ih =>
    intro found changed errors ran
    obtain ⟨field, e⟩ := target
    have evaluates := Exec.run_log w
      (Log.within (columnPath field.name) (e.eval ctx.scope (some r) none)) errors
    have grown := Log.extends_within (columnPath field.name) (e.eval ctx.scope (some r) none) errors
    have checks := Insert.run_script_refusal? w field ctx.stage
      (e.eval ctx.scope (some r) none).value.raw
      ((Log.within (columnPath field.name) (e.eval ctx.scope (some r) none)).run errors).2
    rw [changes, Exec.run_bind evaluates] at ran
    change w.run ((Exec.script (field.refusal? ctx.stage
      (e.eval ctx.scope (some r) none).value.raw) >>= _) _) = _ at ran
    rw [Exec.run_bind checks] at ran
    cases refusal : (w.run (field.refusal? ctx.stage
        (e.eval ctx.scope (some r) none).value.raw)).1 with
    | none =>
      rw [refusal] at ran
      obtain ⟨clean, same, collected⟩ := ih ran
      exact ⟨clean_of_later grown clean, same, collected⟩
    | some reason =>
      rw [refusal] at ran
      have reports := Exec.run_log w (Log.once ((reason.error field).atPath (columnPath field.name)))
        ((Log.within (columnPath field.name) (e.eval ctx.scope (some r) none)).run errors).2
      change w.run ((Exec.log (Log.once _) >>= _) _) = _ at ran
      rw [Exec.run_bind reports] at ran
      exact absurd (ih ran).1 (reportOnce_ne_nil _ _)

theorem run_selects (s : Update) (scope : Scope) (r : Record) (errors : List ValidationError) :
    ((selects scope s.filter r).run errors).1 =
      s.filter.all fun e => (e.passes scope (some r) none).value := by
  cases s.filter with
  | none => rfl
  | some e => rfl

/-- One step of an update: a record that it applies to is looked up again and its changed version is
written, and another one is passed over. -/
theorem step_of_clean {s : Update} {d : TypeDef} {targets : List (Field × Expr)}
    (resolved : List.Forall₂ (Resolves d) s.assignments targets) {r : Record}
    {rest updated : List Record} {errors : List ValidationError}
    (ran : w.run (s.updateRecords ctx d targets (r :: rest) errors) = ((.ok updated, []), after)) :
    errors = [] ∧ ∃ next later,
      next.run (s.updateRecords ctx d targets rest []) = ((.ok later, []), after) ∧
      if s.Matches ctx.scope r then
        ∃ old, w.store.lookup? (some ctx.stage) (Text.lower d.name) r.id = some old ∧
          next = { w with
            store := w.store.write ctx.stage (Text.lower d.name)
              (old.apply w.now (Dict.ofEntries (s.settings ctx.scope r))) }
      else next = w := by
  have ends : ∀ {v : World} {later : List Record} {start : List ValidationError},
      v.run (s.updateRecords ctx d targets rest start) = ((.ok later, []), after) → start = [] := by
    intro v later start more
    exact (s.updateRecords_serves ctx d targets rest start).clean more
  have grown := selects_extends ctx.scope s.filter r errors
  have tests := Exec.run_log w (selects ctx.scope s.filter r) errors
  rw [run_selects] at tests
  rw [updateRecords, Exec.run_bind tests] at ran
  by_cases selected : s.filter.all (fun e => (e.passes ctx.scope (some r) none).value) = true
  · rw [if_pos selected] at ran
    obtain ⟨changed, mid, between, collects, goesOn⟩ := Exec.run_bind_inv ran
    by_cases nothing : changed.isEmpty = true
    · -- Without changes nothing is assigned at all, since no value has been refused.
      rw [if_pos nothing] at goesOn
      obtain rfl := ends goesOn
      obtain ⟨clean, rfl, collected⟩ := changes_of_clean collects
      have kept : ¬ s.Matches ctx.scope r := by
        rintro ⟨assigns, -⟩
        rw [List.isEmpty_iff.mp nothing, ← settings_eq resolved ctx.scope r] at collected
        have none := Dict.ofEntries_eq_nil_iff.mp collected.symm
        rw [settings, List.map_eq_nil_iff] at none
        exact assigns none
      refine ⟨clean_of_later grown clean, between, updated, goesOn, ?_⟩
      rw [if_neg kept]
    · rw [if_neg nothing] at goesOn
      obtain ⟨made, found, next, writes, more⟩ := Exec.run_bind_inv goesOn
      rw [Exec.run_attempt, World.run_ask] at writes
      obtain ⟨later, last, final, recurs, yields⟩ := Exec.run_bind_inv more
      cases yields
      obtain rfl := ends recurs
      obtain ⟨replied, rfl⟩ := Prod.mk.inj writes
      obtain ⟨answered, rfl⟩ := Prod.mk.inj replied
      obtain ⟨clean, rfl, collected⟩ := changes_of_clean collects
      rw [← settings_eq resolved ctx.scope r] at collected
      have applies : s.Matches ctx.scope r := by
        refine (s.matches_iff ctx.scope r).mpr ⟨?_, selected⟩
        intro empty
        refine nothing ?_
        rw [collected, settings, empty]
        rfl
      obtain ⟨old, seen, applied, written⟩ := World.answer_update_inv (Prod.ext answered rfl)
      refine ⟨clean_of_later grown clean, _, later, recurs, ?_⟩
      rw [if_pos applies]
      refine ⟨old, seen, written.trans ?_⟩
      rw [applied, collected]
      rfl
  · rw [if_neg selected] at ran
    have clean := ends ran
    rw [clean] at ran
    refine ⟨clean_of_later grown clean, w, updated, ran, ?_⟩
    rw [if_neg fun applies => selected ((s.matches_iff ctx.scope r).mp applies).2]

/-- What has been written and what is still to be read make up the table: each record that the
update applies to is replaced by its new version, read from the record as it was. -/
theorem records_of_clean {s : Update} {d : TypeDef} {targets : List (Field × Expr)}
    (resolved : List.Forall₂ (Resolves d) s.assignments targets) {rest : List Record} :
    ∀ {w : World} {updated written : List Record} {errors : List ValidationError},
      w.run (s.updateRecords ctx d targets rest errors) = ((.ok updated, []), after) →
      w.store.records (some ctx.stage) (Text.lower d.name) = written ++ rest →
      Table.Distinct (written ++ rest) →
        errors = [] ∧
        after.store.records (some ctx.stage) (Text.lower d.name) =
          written ++ rest.map (s.version ctx.scope w.now) ∧
        (after.store.stage ctx.stage).writes =
          (w.store.stage ctx.stage).writes + (rest.filter (s.Matches ctx.scope)).length := by
  induction rest with
  | nil =>
    intro w updated written errors ran shown distinct
    cases ran
    exact ⟨rfl, shown, rfl⟩
  | cons r rest ih =>
    intro w updated written errors ran shown distinct
    obtain ⟨clean, next, later, recurs, step⟩ := step_of_clean resolved ran
    by_cases applies : s.Matches ctx.scope r
    · rw [if_pos applies] at step
      obtain ⟨old, found, rfl⟩ := step
      rw [Store.lookup?_of_records shown distinct] at found
      cases found
      have made := s.version_of_matches w.now applies
      rw [← made] at recurs
      have same := s.id_version ctx.scope w.now r
      have replaced := Store.records_write shown distinct same
      rw [List.append_cons] at replaced
      have apart : Table.Distinct (written ++ [s.version ctx.scope w.now r] ++ rest) := by
        rw [Table.Distinct] at distinct ⊢
        simpa [same] using distinct
      obtain ⟨-, listed, counted⟩ := ih recurs replaced apart
      refine ⟨clean, ?_, ?_⟩
      · rw [listed, List.map_cons, List.append_assoc, List.singleton_append]
      · rw [counted, Store.stage_write_self, List.filter_cons_of_pos (by simpa using applies),
          List.length_cons]
        dsimp only
        omega
    · rw [if_neg applies] at step
      subst step
      have same : s.version ctx.scope next.now r = r := if_neg applies
      rw [List.append_cons] at shown distinct
      obtain ⟨-, listed, counted⟩ := ih recurs shown distinct
      refine ⟨clean, ?_, ?_⟩
      · rw [listed, List.map_cons, same, ← List.append_cons]
      · rw [counted, List.filter_cons_of_neg (by simpa using applies)]

/-- An update whose outcome is a result without errors has resolved its assignments, has read the
whole table, and has changed its records one after another. -/
theorem updateRecords_of_execute {s : Update} {result : Result}
    (ran : w.run (s.execute ctx []) = ((.ok result, []), after)) :
    ∃ d targets updated, ctx.schema.get? s.table = some d ∧
      List.Forall₂ (Resolves d) s.assignments targets ∧
      w.run (s.updateRecords ctx d targets (w.store.scan (some ctx.stage) s.table none) []) =
        ((.ok updated, []), after) := by
  rw [execute] at ran
  cases known : ctx.schema.get? s.table with
  | none =>
    rw [known] at ran
    cases ran
  | some d =>
    rw [known] at ran
    have same : w.store.scan (some ctx.stage) d.name none =
        w.store.scan (some ctx.stage) s.table none := by
      rw [Store.scan, Store.scan, Schema.lower_name_of_get? known]
    have resolves := Exec.run_log w (Update.targets d s.assignments) []
    rw [Exec.run_bind resolves] at ran
    obtain ⟨records, read, between, scans, goesOn⟩ := Exec.run_bind_inv ran
    obtain ⟨updated, left, last, updates, ends⟩ := Exec.run_bind_inv goesOn
    have returns := Exec.run_log last (returningRows ctx.scope "update.returning" s.returning updated)
      left
    rw [Exec.run_bind returns] at ends
    -- Nothing is reported in the end, so nothing has been before.
    have returned := returningRows_extends ctx.scope "update.returning" s.returning updated left
    obtain ⟨finished, rfl⟩ := Prod.mk.inj ends
    obtain ⟨-, clean⟩ := Prod.mk.inj finished
    obtain rfl := clean_of_later returned clean
    obtain rfl := (s.updateRecords_serves ctx d _ records read).clean updates
    obtain ⟨silent, rfl, rfl⟩ := records_of_clean_scanTable scans
    obtain ⟨-, resolved⟩ := resolves_of_clean (Prod.ext rfl silent)
    rw [same] at updates
    exact ⟨d, _, updated, rfl, resolved, updates⟩

/-- An update that reports no error is simultaneous and touches nothing else. Its stage then sees the
new versions in the places of the old ones, all of them made from the records as they were; the
columns that are assigned have their last values, and no other column changes. It has written as
many records as it applies to, and what is read of other tables, or outside of its stage, is as
before. -/
theorem execute_simultaneous {s : Update} {ctx : Context} {w after : World} {result : Result}
    (distinct : Table.Distinct (w.store.scan (some ctx.stage) s.table none))
    (ran : w.run (s.execute ctx []) = ((.ok result, []), after)) :
    after.store.scan (some ctx.stage) s.table none =
        (w.store.scan (some ctx.stage) s.table none).map (s.version ctx.scope w.now) ∧
      (after.store.scan (some ctx.stage) s.table none).map Record.id =
        (w.store.scan (some ctx.stage) s.table none).map Record.id ∧
      (∀ a ∈ s.assignments, isSystemColumn a.column = false) ∧
      ((∀ a ∈ s.assignments, Text.lower a.column = a.column) → ∀ r, s.Matches ctx.scope r →
        (s.version ctx.scope w.now r).fields = Dict.insertAll r.fields (s.settings ctx.scope r) ∧
        ∀ column, Dict.get? (s.version ctx.scope w.now r).fields column =
          (((s.settings ctx.scope r).filter (·.1 == column)).getLast?.map Prod.snd).or
            (Dict.get? r.fields column)) ∧
      (after.store.stage ctx.stage).writes = (w.store.stage ctx.stage).writes +
        ((w.store.scan (some ctx.stage) s.table none).filter (s.Matches ctx.scope)).length ∧
      ∀ view table limit, view ≠ some ctx.stage ∨ Text.lower table ≠ Text.lower s.table →
        after.store.scan view table limit = w.store.scan view table limit := by
  obtain ⟨d, targets, updated, known, resolved, updates⟩ := updateRecords_of_execute ran
  have name : Text.lower d.name = Text.lower s.table := Schema.lower_name_of_get? known
  have start : w.store.records (some ctx.stage) (Text.lower d.name) =
      [] ++ w.store.scan (some ctx.stage) s.table none := by rw [name]; rfl
  obtain ⟨-, listed, counted⟩ := records_of_clean resolved updates start distinct
  have shown : after.store.scan (some ctx.stage) s.table none =
      (w.store.scan (some ctx.stage) s.table none).map (s.version ctx.scope w.now) := by
    rw [name] at listed
    exact listed
  have framed : Framed ctx.stage (Text.lower s.table) w.store after.store := by
    have kept := (s.execute_serves ctx []).run_invariant
      (fun v => Framed ctx.stage (Text.lower s.table) w.store v.store)
      (fun _ _ serves framed => framed.answer serves) (framed_refl w.store)
    rwa [ran] at kept
  have system : ∀ a ∈ s.assignments, isSystemColumn a.column = false :=
    ((List.forall₂_and_left _ _).mp (resolved.imp fun _ _ given => ⟨given.1, given⟩)).1
  refine ⟨shown, ?_, system, ?_, counted, ?_⟩
  · rw [shown, List.map_map]
    exact List.map_congr_left fun r _ => s.id_version ctx.scope w.now r
  · intro lowered r applies
    have all : (s.settings ctx.scope r).filter (fun setting => !isSystemColumn setting.1) =
        s.settings ctx.scope r := by
      refine List.filter_eq_self.mpr fun setting given => ?_
      obtain ⟨a, assigned, rfl⟩ := List.mem_map.mp given
      rw [lowered a assigned, system a assigned]
      rfl
    have fields : (s.version ctx.scope w.now r).fields =
        Dict.insertAll r.fields (s.settings ctx.scope r) := by
      rw [version, if_pos applies, all]
    refine ⟨fields, fun column => ?_⟩
    rw [fields, Dict.get?_insertAll_eq]
  · intro view table limit apart
    exact framed.scan_eq apart limit

end

/-- Pairs of numbers, each of which may be marked. -/
def pairsType : TypeDef :=
  .ofFields "pairs" [.ofType "a" .number, .ofType "b" .number, .ofType "mark" .string]

/-- A context for pairs, in the stage that one of them is in. -/
def pairsContext : Context where
  schema := .ofTypes [pairsType]
  stage := ⟨1⟩
  now := ⟨1, 0, 0⟩

/-- A pair of given numbers, not marked yet. -/
def pair (id : String) (a b : Nat) : Record :=
  .create ⟨0, 0, 0⟩ id [("a", .ofNat a), ("b", .ofNat b)]

/-- A world with three pairs, the second of which is staged. -/
def pairsWorld : World where
  store := ((Store.load {} "pairs" [pair "p" 1 2, pair "r" 5 6]).write ⟨1⟩ "pairs" (pair "q" 3 4))
  now := ⟨1, 0, 0⟩
  ids := fun _ => "new"

/-- The update that swaps the numbers of pairs whose second one is not `4`, and marks them. -/
def pairsSwap : Update where
  table := "pairs"
  assignments := [.to "a" (.ref "pairs" "b"), .to "mark" (.literal (.str "old")),
    .to "b" (.ref "pairs" "a"), .to "mark" (.literal (.str "new"))]
  filter := some (.comparison .ne (.ref "pairs" "b") (.literal (.ofNat 4)))

theorem execute_simultaneous_pairsSwap :
    Table.Distinct (pairsWorld.store.scan (some ⟨1⟩) "pairs" none) ∧
    ∃ result after,
      pairsWorld.run (pairsSwap.execute pairsContext []) = ((.ok result, []), after) ∧
      (after.store.scan (some ⟨1⟩) "pairs" none).map
          (fun r => (r.id, r.fields.map fun entry => (entry.1, entry.2.toText))) =
        [("p", [("a", "2"), ("b", "1"), ("mark", "new")]),
          ("r", [("a", "6"), ("b", "5"), ("mark", "new")]),
          ("q", [("a", "3"), ("b", "4")])] ∧
      (after.store.stage ⟨1⟩).writes = 3 := by
  have distinct : Table.Distinct (pairsWorld.store.scan (some ⟨1⟩) "pairs" none) := by
    have ids : (pairsWorld.store.scan (some ⟨1⟩) "pairs" none).map Record.id = ["p", "r", "q"] := by
      decide +kernel
    rw [Table.Distinct, ids]
    decide
  have clean : (pairsWorld.run (pairsSwap.execute pairsContext [])).1.2.isEmpty = true := by
    decide +kernel
  have ends : (pairsWorld.run (pairsSwap.execute pairsContext [])).1.1.isOk = true := by
    decide +kernel
  cases ran : pairsWorld.run (pairsSwap.execute pairsContext []) with
  | mk out after =>
    obtain ⟨reply, errors⟩ := out
    rw [ran] at clean ends
    obtain rfl : errors = [] := List.isEmpty_iff.mp clean
    cases reply with
    | error failure => cases ends
    | ok result =>
      obtain ⟨shown, -, -, -, counted, -⟩ :=
        @execute_simultaneous pairsSwap pairsContext pairsWorld after result distinct ran
      refine ⟨distinct, result, after, rfl, ?_, ?_⟩
      · change (after.store.scan (some pairsContext.stage) pairsSwap.table none).map _ = _
        rw [shown]
        decide +kernel
      · change (after.store.stage pairsContext.stage).writes = _
        rw [counted]
        decide +kernel

end Update
end RecordQuery
