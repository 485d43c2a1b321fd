import RecordQuery.Record
import RecordQuery.Proofs.Enumeration

/-!
The fields of stored records. A new record keeps what it is given, without system columns; since the
last entry moves into each gap, the others are kept in some order only (`Record.fields_create`).
Changes to a record are laid over its fields, again without those to system columns
(`Record.changed_apply`). So the fields of a stored record have different names, none of them a
system column (`Record.plain_create`, `Record.Plain.apply`).
-/
namespace RecordQuery

open Calendar (Instant)

/-! ### Removing keys -/

namespace Dict
variable {α : Type}

theorem hasKey_iff (d : Dict α) (key : String) : hasKey d key = true ↔ key ∈ keys d := by
  rw [hasKey, Option.isSome_iff_ne_none, ne_eq, get?_eq_none_iff, not_not]

/-- A removed entry is replaced by the last one. -/
theorem swapRemove_concat {init : Dict α} {last : String × α} {key : String}
    (present : key ∈ keys (init ++ [last])) :
    swapRemove (init ++ [last]) key =
      init.map fun entry => if entry.1 = key then last else entry := by
  rw [swapRemove, if_pos ((hasKey_iff _ key).mpr present), List.getLast?_concat,
    List.dropLast_concat]

theorem swapRemove_of_not_mem {d : Dict α} {key : String} (absent : key ∉ keys d) :
    swapRemove d key = d := if_neg (mt (hasKey_iff d key).mp absent)

theorem nodup_keys_filter {d : Dict α} (nodup : (keys d).Nodup) (p : String × α → Bool) :
    (keys (d.filter p)).Nodup := nodup.sublist (List.filter_sublist.map Prod.fst)

theorem ne_of_not_mem_keys {d : Dict α} {key : String} (absent : key ∉ keys d) :
    ∀ entry ∈ d, entry.1 ≠ key := by
  rintro entry member rfl
  exact absent (List.mem_map_of_mem member)

/-- Nothing is replaced under a key that is not there. -/
theorem map_replaced_of_not_mem {d : Dict α} {key : String} (absent : key ∉ keys d)
    (last : String × α) : d.map (fun entry => if entry.1 = key then last else entry) = d := by
  refine (List.map_congr_left fun entry member => ?_).trans (List.map_id d)
  rw [if_neg (ne_of_not_mem_keys absent entry member), id]

/-- Without repeated keys, the removal of a key leaves the other entries. -/
theorem swapRemove_perm {d : Dict α} (nodup : (keys d).Nodup) (key : String) :
    (swapRemove d key).Perm (d.filter (·.1 != key)) := by
  have kept {entries : Dict α} (absent : key ∉ keys entries) :
      entries.filter (·.1 != key) = entries :=
    List.filter_eq_self.mpr fun entry member =>
      bne_iff_ne.mpr (ne_of_not_mem_keys absent entry member)
  by_cases present : key ∈ keys d
  · rcases List.eq_nil_or_concat' d with rfl | ⟨init, last, rfl⟩
    · cases present
    · rw [swapRemove_concat present, List.filter_append]
      by_cases own : last.1 = key
      · have absent : key ∉ keys init := by
          rw [keys, List.map_append, List.nodup_append] at nodup
          intro listed
          exact nodup.2.2 key listed last.1 (by simp) own.symm
        rw [map_replaced_of_not_mem absent, kept absent]
        simp [own]
      · -- The last entry moves between those before and those after the removed one.
        obtain ⟨entry, inInit, rfl⟩ : ∃ entry ∈ init, entry.1 = key := by
          simpa [keys, Ne.symm own] using present
        obtain ⟨before, after, rfl⟩ := List.append_of_mem inInit
        have absent : entry.1 ∉ keys before ∧ entry.1 ∉ keys after := by
          simp only [keys, List.map_append, List.map_cons, List.append_assoc,
            List.cons_append] at nodup
          rw [List.nodup_middle, List.nodup_cons, List.mem_append, List.mem_append] at nodup
          exact ⟨fun listed => nodup.1 (.inl listed), fun listed => nodup.1 (.inr (.inl listed))⟩
        simp only [List.map_append, List.map_cons, List.filter_append, List.filter_cons,
          map_replaced_of_not_mem absent.1, map_replaced_of_not_mem absent.2, kept absent.1,
          kept absent.2, ↓reduceIte, bne_self_eq_false, Bool.false_eq_true, List.filter_nil,
          bne_iff_ne.mpr own]
        rw [List.append_assoc]
        exact (List.perm_append_singleton last after).symm.append_left before
  · rw [swapRemove_of_not_mem present, kept present]

/-- Removing several keys leaves the entries under other keys. -/
theorem foldl_swapRemove_perm (names : List String) :
    ∀ {d : Dict α}, (keys d).Nodup →
      (names.foldl swapRemove d).Perm (d.filter fun entry => !names.contains entry.1) := by
  induction names with
  | nil => intro d _; simp
  | cons name rest ih =>
    intro d nodup
    have removed := swapRemove_perm nodup name
    have distinct : (keys (swapRemove d name)).Nodup :=
      (removed.map Prod.fst).nodup_iff.mpr (nodup_keys_filter nodup _)
    refine (ih distinct).trans ((removed.filter _).trans (.of_eq ?_))
    rw [List.filter_filter]
    refine List.filter_congr fun entry _ => ?_
    rw [List.contains_cons, Bool.not_or, Bool.and_comm]
    rfl

theorem get?_filter (d : Dict α) (p : String → Bool) (key : String) :
    get? (d.filter fun entry => p entry.1) key = if p key then get? d key else none := by
  induction d with
  | nil => simp
  | cons entry rest ih =>
    obtain ⟨k, value⟩ := entry
    by_cases same : k = key
    · subst same
      by_cases chosen : p k = true
      · simp [chosen, get?]
      · simp [chosen, ih]
    · by_cases own : p k = true
      · simp [own, get?, same, ih]
      · simp [own, get?, same, ih]

end Dict

/-! ### New and changed records -/

namespace Record

/-- A new record of given fields: it has them all without the system columns. -/
structure Made (now : Instant) (id : String) (fields : Dict Json) (r : Record) : Prop where
  id : r.id = id
  created : r.created = now
  updated : r.updated = now
  columns : ∀ column, Dict.get? r.fields column =
    if isSystemColumn column then none else Dict.get? fields column

/-- A record with changes laid over it: it has the changes to columns that are not the store's, and
else what it had. -/
structure Changed (now : Instant) (changes : Dict Json) (old r : Record) : Prop where
  id : r.id = old.id
  created : r.created = old.created
  updated : r.updated = now
  columns : ∀ column, Dict.get? r.fields column =
    if isSystemColumn column then Dict.get? old.fields column
    else (Dict.get? changes column).or (Dict.get? old.fields column)

section
variable {fields : Dict Json} (distinct : (Dict.keys fields).Nodup) (now : Instant) (id : String)

include distinct

/-- A new record has the given fields without the system columns. -/
theorem fields_create :
    (create now id fields).fields.Perm (fields.filter fun entry => !isSystemColumn entry.1) :=
  Dict.foldl_swapRemove_perm systemColumns distinct

theorem made_create : Made now id fields (create now id fields) where
  id := rfl
  created := rfl
  updated := rfl
  columns column := by
    have kept := Dict.nodup_keys_filter distinct fun entry => !isSystemColumn entry.1
    rw [Dict.get?_perm kept (fields_create distinct now id),
      Dict.get?_filter fields fun key => !isSystemColumn key]
    by_cases system : isSystemColumn column = true <;> simp [system]

/-- A new record keeps the columns of the store out of its fields. -/
theorem plain_create : (create now id fields).Plain where
  distinct := by
    have kept := Dict.nodup_keys_filter distinct fun entry => !isSystemColumn entry.1
    exact ((fields_create distinct now id).map Prod.fst).nodup_iff.mpr kept
  user name listed := by
    obtain ⟨entry, member, rfl⟩ := List.mem_map.mp listed
    have kept := (fields_create distinct now id).mem_iff.mp member
    simpa using (List.mem_filter.mp kept).2

end

/-- Changes are added without those to system columns. -/
theorem overlay_eq (fields changes : Dict Json) :
    overlay fields changes =
      Dict.insertAll fields (changes.filter fun change => !isSystemColumn change.1) := by
  induction changes generalizing fields with
  | nil => rfl
  | cons change rest ih =>
    have step : overlay fields (change :: rest) =
        overlay (if isSystemColumn change.1 then fields
          else Dict.insert fields change.1 change.2) rest := rfl
    rw [step, ih]
    by_cases system : isSystemColumn change.1 = true
    · simp [system]
    · simp [system, Dict.insertAll_cons]

theorem changed_apply {changes : Dict Json} (distinct : (Dict.keys changes).Nodup) (now : Instant)
    (r : Record) : Changed now changes r (r.apply now changes) where
  id := rfl
  created := rfl
  updated := rfl
  columns column := by
    have kept := Dict.nodup_keys_filter distinct fun change => !isSystemColumn change.1
    rw [apply, overlay_eq, Dict.get?_insertAll kept,
      Dict.get?_filter changes fun key => !isSystemColumn key]
    by_cases system : isSystemColumn column = true <;> simp [system]

theorem Plain.apply {r : Record} (plain : r.Plain) (now : Instant) (changes : Dict Json) :
    (r.apply now changes).Plain := by
  have kept : ∀ fields : Dict Json, ((Dict.keys fields).Nodup ∧
      ∀ name ∈ Dict.keys fields, isSystemColumn name = false) →
      (Dict.keys (overlay fields changes)).Nodup ∧
        ∀ name ∈ Dict.keys (overlay fields changes), isSystemColumn name = false := by
    induction changes with
    | nil => intro fields before; exact before
    | cons change rest ih =>
      intro fields ⟨distinct, user⟩
      rw [overlay, List.foldl_cons]
      split
      · exact ih fields ⟨distinct, user⟩
      · rename_i unreserved
        refine ih _ ⟨Dict.nodup_keys_insert distinct _ _, fun name listed => ?_⟩
        rcases (Dict.mem_keys_insert _ _ _ _).mp listed with rfl | old
        · exact Bool.eq_false_iff.mpr unreserved
        · exact user name old
  obtain ⟨distinct, user⟩ := kept r.fields ⟨plain.distinct, plain.user⟩
  exact ⟨distinct, user⟩

end Record
end RecordQuery
