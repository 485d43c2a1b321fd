import RecordQuery.Proofs.Atomicity
import RecordQuery.Proofs.ConformingStatements

/-!
Statements under way at the same time, call by call in any order. Each runs in a stage of its own
under its protocol, and what it does there is what the others count on, so the committed records
conform to the schema after every call (`System.committed_conforms`).
-/
namespace RecordQuery

open Calendar (Instant)
open Store (Spares StageConforms)

/-! ### Statements under way -/

/-- A turn of one statement: which one makes its next call, the time then, and the calls that
fail then. -/
structure Turn where
  run : Nat
  now : Instant
  faults : List Method

/-- A world and what is left of the statements that are under way in it. -/
structure System where
  world : World
  runs : List (Script (Except Failure Outcome))

namespace System

/-- No statement has made a call yet. -/
def start (world : World) (statements : List (Engine × Statement)) : System :=
  { world, runs := statements.map fun run => run.1.execute run.2 }

/-- One statement makes its next call; one that has ended does nothing. -/
def turn (system : System) (t : Turn) : System :=
  match system.runs[t.run]? with
  | some (.call c next) =>
    let (reply, world) := { system.world with now := t.now, faults := t.faults }.answer c
    { world, runs := system.runs.set t.run (next reply) }
  | _ => system

/-- The system after some turns. -/
def after (system : System) (turns : List Turn) : System := turns.foldl turn system

end System

/-! ### One call -/

section
variable {schema : Schema} {stage other : StageId}

/-- What a call that is admitted in a stage can make of the store. -/
theorem answer_admitted {c : Call} {w : World}
    (admitted : (stageProtocol schema stage).admits c w) :
    (w.answer c).2.store = w.store ∨
      (∃ name r, (w.answer c).2.store = w.store.write stage name r) ∨
      (w.store.StageConforms schema stage ∧ (w.answer c).2.store = (w.store.commit stage).2) ∨
      (w.answer c).2.store = (w.store.rollback stage).2 := by
  cases c with
  | openStage => exact admitted.elim
  | newId => exact .inl rfl
  | insert s table id fields =>
    obtain rfl : s = stage := admitted
    have serves : (Call.insert s table id fields).Serves s (Text.lower table) := ⟨rfl, rfl⟩
    rcases w.answer_cases serves with ⟨same, -⟩ | ⟨r, written, -⟩
    · exact .inl same
    · exact .inr (.inl ⟨_, r, written⟩)
  | update s table id fields =>
    obtain rfl : s = stage := admitted
    have serves : (Call.update s table id fields).Serves s (Text.lower table) := ⟨rfl, rfl⟩
    rcases w.answer_cases serves with ⟨same, -⟩ | ⟨r, written, -⟩
    · exact .inl same
    · exact .inr (.inl ⟨_, r, written⟩)
  | get view table id =>
    rcases w.answer_get view table id with out | out <;> exact .inl (by rw [out])
  | scan view table limit =>
    rcases w.answer_scan view table limit with out | out <;> exact .inl (by rw [out])
  | commit s =>
    obtain ⟨rfl, conforms⟩ := admitted
    rcases w.answer_commit s with out | out
    · exact .inl (by rw [out])
    · exact .inr (.inr (.inl ⟨conforms, by rw [out]⟩))
  | rollback s =>
    obtain rfl : s = stage := admitted
    rcases w.answer_rollback s with out | out
    · exact .inl (by rw [out])
    · exact .inr (.inr (.inr (by rw [out])))

theorem spares_of_committed {before after : Store} (own : after.stage other = before.stage other)
    (same : after.committed = before.committed) : Spares other before after := by
  refine ⟨own, fun table id there => ?_⟩
  rwa [Store.presence, Store.get?_congr same]

/-- An admitted call spares the other stages. -/
theorem spares_answer {c : Call} {w : World}
    (admitted : (stageProtocol schema stage).admits c w) (ne : other ≠ stage) :
    Spares other w.store (w.answer c).2.store := by
  rcases answer_admitted admitted with same | ⟨name, r, written⟩ | ⟨conforms, committed⟩ | dropped
  · rw [same]
    exact Spares.refl other w.store
  · rw [written]
    exact spares_of_committed (Store.stage_write_of_ne w.store name r ne) rfl
  · rw [committed]
    refine ⟨Store.stage_commit_of_ne w.store ne, fun table id there => ?_⟩
    rw [Store.presence_commit conforms.names]
    exact Store.presence_view w.store (some stage) table id there
  · rw [dropped]
    exact spares_of_committed (Store.stage_dropStage_of_ne w.store ne) rfl

/-- An admitted call leaves conforming committed records. -/
theorem conforms_answer {c : Call} {w : World} (settled : w.store.Conforms schema)
    (admitted : (stageProtocol schema stage).admits c w) :
    (w.answer c).2.store.Conforms schema := by
  rcases answer_admitted admitted with same | ⟨name, r, written⟩ | ⟨conforms, committed⟩ | dropped
  · rw [same]; exact settled
  · rw [written]; exact settled.congr rfl
  · rw [committed]; exact settled.commit conforms
  · rw [dropped]; exact settled.congr rfl

theorem stagesOpened_answer {c : Call} {w : World} (opened : w.store.StagesOpened)
    (known : stage.number ≤ w.store.opened) (admitted : (stageProtocol schema stage).admits c w) :
    (w.answer c).2.store.opened = w.store.opened ∧ (w.answer c).2.store.StagesOpened := by
  rcases answer_admitted admitted with same | ⟨name, r, written⟩ | ⟨-, committed⟩ | dropped
  · rw [same]; exact ⟨rfl, opened⟩
  · rw [written]; exact ⟨rfl, opened.write known name r⟩
  · rw [committed]; exact ⟨rfl, opened.dropStage stage⟩
  · rw [dropped]; exact ⟨rfl, opened.dropStage stage⟩

end

/-! ### One statement -/

namespace Engine

/-- A statement keeps to the protocol of its stage when it ends it. -/
theorem conclude_meets {schema : Schema} {stage : StageId} {w : World}
    {out : Except Failure Result × List ValidationError}
    (ready : ∀ result, out.1 = .ok result → result.canCommit = true →
      w.store.StageConforms schema stage) :
    (conclude stage out).Meets (stageProtocol schema stage) (fun _ _ => True) w := by
  obtain ⟨reply, errors⟩ := out
  cases reply with
  | error failure => exact fun v _ => ⟨rfl, trivial⟩
  | ok result =>
    rw [conclude]
    by_cases may : result.canCommit = true
    · rw [if_pos may]
      intro v changed
      refine ⟨⟨rfl, (ready result rfl may).spare changed.1⟩, ?_⟩
      rcases v.answer_commit stage with out | out <;> rw [out] <;> trivial
    · rw [if_neg may]
      intro v changed
      refine ⟨rfl, ?_⟩
      rcases v.answer_rollback stage with out | out <;> rw [out] <;> trivial

/-- A statement keeps to the protocol of a stage that holds nothing yet. -/
theorem execute_meets (engine : Engine) (s : Statement) (usable : engine.schema.Usable)
    {stage : StageId} {w : World} (empty : w.store.stage stage = {}) :
    ((s.execute (engine.context stage)).run [] >>= conclude stage).Meets
      (stageProtocol engine.schema stage) (fun _ _ => True) w := by
  have writes : (s.execute (engine.context stage)).Meets (stageProtocol engine.schema stage)
      (fun _ => SoundWrites engine.schema stage) [] w :=
    s.execute_meets (engine.context stage) usable (Store.stageConforms_empty empty)
  have may : ((s.execute (engine.context stage)).run []).Meets (stageProtocol engine.schema stage)
      (fun out _ => (∀ result, out.1 = .ok result → (result.canCommit = true ↔ out.2 = [])) ∧ True)
      w :=
    (engine.execute_serves s stage).meets (fun _ => True)
      (fun c u v serves _ _ => ⟨admits_of_serves serves v, trivial⟩) trivial
  refine (Script.Meets.and writes may).bind ?_
  rintro out v ⟨⟨-, conforms⟩, clean, -⟩
  refine conclude_meets fun result yields commits => ?_
  exact conforms result yields ((clean result yields).mp commits)

end Engine

/-! ### All statements -/

namespace System
variable {schema : Schema} {system : System} {owner : Nat → Option StageId}

/-- The committed records conform; and each statement either has not begun, or keeps to the protocol
of a stage that it alone owns. -/
structure Keeps (schema : Schema) (owner : Nat → Option StageId) (system : System) : Prop where
  settled : system.world.store.Conforms schema
  opened : system.world.store.StagesOpened
  waiting : ∀ i script, system.runs[i]? = some script → owner i = none →
    ∃ (engine : Engine) (s : Statement), engine.schema = schema ∧ script = engine.execute s
  going : ∀ i script stage, system.runs[i]? = some script → owner i = some stage →
    script.Meets (stageProtocol schema stage) (fun _ _ => True) system.world
  known : ∀ i stage, owner i = some stage → stage.number ≤ system.world.store.opened
  apart : ∀ i j stage, owner i = some stage → owner j = some stage → i = j

theorem keeps_start {w : World} (opened : w.store.StagesOpened) (settled : w.store.Conforms schema)
    {statements : List (Engine × Statement)} (same : ∀ run ∈ statements, run.1.schema = schema) :
    (start w statements).Keeps schema fun _ => none where
  settled := settled
  opened := opened
  waiting i script here _ := by
    rw [start, List.getElem?_map, Option.map_eq_some_iff] at here
    obtain ⟨run, listed, rfl⟩ := here
    exact ⟨run.1, run.2, same run (List.mem_of_getElem? listed), rfl⟩
  going i script stage _ owns := by cases owns
  known i stage owns := by cases owns
  apart i j stage owns := by cases owns

/-- What is left of a statement keeps to its protocol where its stage has been spared. -/
theorem meets_of_spares {stage : StageId} {script : Script (Except Failure Outcome)} {w v : World}
    (meets : script.Meets (stageProtocol schema stage) (fun _ _ => True) w)
    (spares : Spares stage w.store v.store) :
    script.Meets (stageProtocol schema stage) (fun _ _ => True) v :=
  meets.changed (fun _ later => ⟨spares.trans later.1, later.2⟩) fun _ _ => trivial

/-- A statement that has begun makes its next call. -/
theorem Keeps.proceed (keeps : system.Keeps schema owner) {t : Turn} {stage : StageId}
    (owns : owner t.run = some stage) {c : Call} {next : c.Reply → Script (Except Failure Outcome)}
    (here : system.runs[t.run]? = some (.call c next)) {w : World}
    (same : w.store = system.world.store) :
    Keeps schema owner ⟨(w.answer c).2, system.runs.set t.run (next (w.answer c).1)⟩ := by
  have untouched : Spares stage system.world.store w.store := same ▸ Spares.refl stage w.store
  have settled : w.store.Conforms schema := same ▸ keeps.settled
  have number : stage.number ≤ w.store.opened := same ▸ keeps.known _ _ owns
  obtain ⟨admitted, rest⟩ := keeps.going _ _ stage here owns w ⟨untouched, settled⟩
  obtain ⟨count, opened⟩ := stagesOpened_answer (same ▸ keeps.opened) number admitted
  refine ⟨conforms_answer settled admitted, opened, ?_, ?_, ?_, keeps.apart⟩
  · intro i script listed none
    have other : t.run ≠ i := by rintro rfl; simp [owns] at none
    rw [List.getElem?_set_ne other] at listed
    exact keeps.waiting i script listed none
  · intro i script own listed ownsHere
    by_cases other : t.run = i
    · subst other
      have bound : t.run < system.runs.length := (List.getElem?_eq_some_iff.mp here).1
      rw [List.getElem?_set_self bound] at listed
      obtain rfl := Option.some.inj listed
      obtain rfl := Option.some.inj (owns.symm.trans ownsHere)
      exact rest
    · rw [List.getElem?_set_ne other] at listed
      have ne : own ≠ stage := by rintro rfl; exact other (keeps.apart _ _ _ owns ownsHere)
      refine meets_of_spares (keeps.going i script own listed ownsHere) ?_
      rw [← same]
      exact spares_answer admitted ne
  · intro i own ownsHere
    rw [count, same]
    exact keeps.known i own ownsHere

/-- A statement begins: it opens a stage of its own. -/
theorem Keeps.begin (keeps : system.Keeps schema owner) (usable : schema.Usable) {t : Turn}
    (owns : owner t.run = none) {c : Call} {next : c.Reply → Script (Except Failure Outcome)}
    (here : system.runs[t.run]? = some (.call c next)) {w : World}
    (same : w.store = system.world.store) :
    Keeps schema (Function.update owner t.run (some w.store.openStage.1))
      ⟨(w.answer c).2, system.runs.set t.run (next (w.answer c).1)⟩ := by
  obtain ⟨engine, s, rfl, script⟩ := keeps.waiting _ _ here owns
  rw [Engine.execute_eq] at script
  cases script
  have opened : w.store.StagesOpened := same ▸ keeps.opened
  have grown : (w.answer .openStage).2.store.opened = w.store.opened + 1 := rfl
  have fresh : (w.answer .openStage).2.store.stage w.store.openStage.1 = {} :=
    Store.stage_of_absent (opened.absent (Nat.lt_succ_self w.store.opened))
  have older (i : Nat) (own : StageId) (ownsHere : owner i = some own) :
      own.number < w.store.openStage.1.number :=
    Nat.lt_succ_of_le (same ▸ keeps.known i own ownsHere)
  have settled : w.store.Conforms engine.schema := same ▸ keeps.settled
  refine ⟨settled.congr rfl, opened.openStage, ?_, ?_, ?_, ?_⟩
  · intro i script listed none
    have other : i ≠ t.run := by rintro rfl; simp at none
    rw [Function.update_of_ne other] at none
    rw [List.getElem?_set_ne other.symm] at listed
    exact keeps.waiting i script listed none
  · intro i script own listed ownsHere
    by_cases begins : i = t.run
    · subst begins
      have bound : t.run < system.runs.length := (List.getElem?_eq_some_iff.mp here).1
      rw [List.getElem?_set_self bound] at listed
      rw [Function.update_self] at ownsHere
      obtain rfl := Option.some.inj listed
      obtain rfl := Option.some.inj ownsHere
      exact engine.execute_meets s usable fresh
    · rw [List.getElem?_set_ne (Ne.symm begins)] at listed
      rw [Function.update_of_ne begins] at ownsHere
      refine meets_of_spares (keeps.going i script own listed ownsHere) ?_
      rw [← same]
      exact spares_of_committed rfl rfl
  · intro i own ownsHere
    change own.number ≤ w.store.opened + 1
    by_cases begins : i = t.run
    · rw [begins, Function.update_self] at ownsHere
      obtain rfl := Option.some.inj ownsHere
      exact Nat.le_refl _
    · rw [Function.update_of_ne begins] at ownsHere
      exact Nat.le_of_lt (older i own ownsHere)
  · intro i j own ownsHere ownsThere
    by_cases first : i = t.run <;> by_cases second : j = t.run
    · rw [first, second]
    · rw [first, Function.update_self] at ownsHere
      rw [Function.update_of_ne second] at ownsThere
      obtain rfl := Option.some.inj ownsHere
      exact absurd (older j _ ownsThere) (Nat.lt_irrefl _)
    · rw [Function.update_of_ne first] at ownsHere
      rw [second, Function.update_self] at ownsThere
      obtain rfl := Option.some.inj ownsThere
      exact absurd (older i _ ownsHere) (Nat.lt_irrefl _)
    · rw [Function.update_of_ne first] at ownsHere
      rw [Function.update_of_ne second] at ownsThere
      exact keeps.apart i j own ownsHere ownsThere

/-- Every turn keeps the invariant. -/
theorem Keeps.turn (keeps : system.Keeps schema owner) (usable : schema.Usable) (t : Turn) :
    ∃ owners, (system.turn t).Keeps schema owners := by
  unfold System.turn
  split
  · rename_i c next here
    cases owns : owner t.run with
    | none => exact ⟨_, keeps.begin usable owns here rfl⟩
    | some stage => exact ⟨owner, keeps.proceed owns here rfl⟩
  · exact ⟨owner, keeps⟩

theorem Keeps.after (usable : schema.Usable) (turns : List Turn) :
    ∀ {system : System} {owner : Nat → Option StageId}, system.Keeps schema owner →
      ∃ owners, (system.after turns).Keeps schema owners := by
  induction turns with
  | nil => intro system owner keeps; exact ⟨owner, keeps⟩
  | cons t rest ih =>
    intro system owner keeps
    obtain ⟨owners, kept⟩ := keeps.turn usable t
    exact ih kept

end System

/-- In conforming records a reference names a committed record of a type of the schema. -/
theorem Store.Conforms.reference {schema : Schema} {store : Store} (settled : store.Conforms schema)
    (usable : schema.Usable) {table : String} {d : TypeDef} (known : schema.get? table = some d)
    {r : Record} (member : r ∈ store.scan none table none) {field : Field}
    (declared : field ∈ d.fields) (reference : field.type = .reference) {value : Json}
    (found : Dict.get? r.fields field.name = some value) (given : value.isNull = false) :
    ∃ target, field.referencedType = some target ∧ target ∈ schema.names ∧
      ∃ referred ∈ store.scan none target none, referred.id = value.toText := by
  have type := Schema.mem_of_get? known
  obtain ⟨other, knownOther, named, allows⟩ :=
    (settled table d known r member).declared _ _ (Dict.mem_of_get? found)
  obtain rfl := TypeDef.field_unique (usable.distinct d type) knownOther declared named
  obtain ⟨target, leads, listed⟩ := usable.targets d type other knownOther reference
  have held := allows given
  rw [Field.Allows, reference] at held
  obtain ⟨-, named, leadsTo, there⟩ := held
  obtain rfl : named = target := Option.some.inj (leadsTo.symm.trans leads)
  obtain ⟨referred, seen⟩ := Option.isSome_iff_exists.mp there
  refine ⟨named, leads, listed, referred, ?_, (Table.mem_of_find? seen).2⟩
  rw [Store.scan, Store.records_none]
  exact (Table.mem_of_find? seen).1

namespace System

/-- The committed records conform to the schema after every call of any statements that are under
way at the same time, whatever the order of their calls and the failures of the store. So every
reference names a committed record of its target type. The store may have any past in which writes
went to stages that had been opened. -/
theorem committed_conforms {schema : Schema} (valid : schema.validate = .ok ()) {w : World}
    (reached : Store.Reached Store.WritesOpened w.store) (settled : w.store.Conforms schema)
    {statements : List (Engine × Statement)} (same : ∀ run ∈ statements, run.1.schema = schema)
    (turns : List Turn) :
    ((start w statements).after turns).world.store.Conforms schema ∧
      ∀ table d, schema.get? table = some d →
        ∀ r ∈ ((start w statements).after turns).world.store.scan none table none,
          ∀ field ∈ d.fields, field.type = .reference → ∀ value,
            Dict.get? r.fields field.name = some value → value.isNull = false →
            ∃ target, field.referencedType = some target ∧ target ∈ schema.names ∧
              ∃ referred ∈ ((start w statements).after turns).world.store.scan none target none,
                referred.id = value.toText := by
  have usable := Schema.usable_of_validate valid
  have opened := reached.stagesOpened fun _ _ admitted => admitted
  obtain ⟨owners, keeps⟩ := (keeps_start opened settled same).after usable turns
  refine ⟨keeps.settled, ?_⟩
  intro table d known r member field declared reference value found given
  exact keeps.settled.reference usable known member declared reference found given

/-- Items with a number, and notes on items. -/
def noteSchema : Schema :=
  .ofTypes [.ofFields "items" [(Field.ofType "n" .number).require],
    .ofFields "notes" [.reference "item" "items"]]

/-- A world with one item. -/
def noteWorld : World :=
  { store := (Store.perform {} (.load "items" [.create ⟨0, 0, 0⟩ "a" [("n", .ofNat 1)]])).2
    now := ⟨0, 0, 0⟩
    ids := fun n => "note" ++ toString n }

/-- A note on the item is inserted while the item is updated. -/
def noteStatements : List (Engine × Statement) :=
  [({ schema := noteSchema, now := ⟨0, 0, 0⟩ },
      .insert (.into "Notes" ["Item"] (.values [[.literal (.str "a")]]))),
    ({ schema := noteSchema, now := ⟨0, 0, 0⟩ },
      .update { table := "items", assignments := [.to "N" (.literal (.ofNat 2))] })]

/-- The two statements take turns; the first update fails. -/
def noteTurns : List Turn :=
  [⟨0, ⟨1, 0, 0⟩, []⟩, ⟨1, ⟨2, 0, 0⟩, []⟩, ⟨0, ⟨3, 0, 0⟩, []⟩, ⟨1, ⟨4, 0, 0⟩, []⟩,
    ⟨0, ⟨5, 0, 0⟩, []⟩, ⟨1, ⟨6, 0, 0⟩, [.update]⟩, ⟨0, ⟨7, 0, 0⟩, []⟩, ⟨1, ⟨8, 0, 0⟩, []⟩,
    ⟨0, ⟨9, 0, 0⟩, []⟩]

theorem noteWorld_conforms : noteWorld.store.Conforms noteSchema := by
  have types : noteSchema.types =
      [{ name := "items", friendlyName := "items"
         fields := [{ name := "n", type := .number, nullable := false }] },
        { name := "notes", friendlyName := "notes"
          fields := [{ name := "item", type := .reference, referencedType := "items" }] }] := by
    decide +kernel
  have items : noteWorld.store.table "items" =
      [⟨"a", ⟨0, 0, 0⟩, ⟨0, 0, 0⟩, [("n", .ofNat 1)]⟩] := by rfl
  have notes : noteWorld.store.table "notes" = [] := by rfl
  intro table d known r member
  have declared := Schema.mem_of_get? known
  rw [types] at declared
  rw [Store.scan, Store.records_none, ← Schema.name_of_get? known] at member
  rcases List.mem_pair.mp declared with rfl | rfl
  · rw [items, List.mem_singleton] at member
    subst member
    constructor
    · intro key value listed
      obtain ⟨rfl, rfl⟩ := Prod.mk.inj (List.mem_singleton.mp listed)
      exact ⟨_, List.mem_singleton_self _, rfl, fun _ => rfl⟩
    · intro field listed _
      obtain rfl := List.mem_singleton.mp listed
      exact ⟨.ofNat 1, rfl, rfl⟩
  · rw [notes] at member
    cases member

theorem committed_conforms_noteTurns :
    (noteSchema.validate = .ok () ∧ Store.Reached Store.WritesOpened noteWorld.store ∧
        noteWorld.store.Conforms noteSchema ∧ ∀ run ∈ noteStatements, run.1.schema = noteSchema) ∧
      (((start noteWorld noteStatements).after noteTurns).world.store.scan none "notes" none).length
          = 1 ∧
      ((start noteWorld noteStatements).after noteTurns).world.store.Conforms noteSchema := by
  have valid : noteSchema.validate = .ok () := by rfl
  have reached : Store.Reached Store.WritesOpened noteWorld.store := by
    refine .perform .new fun s writes => ?_
    simp [Operation.writesIn] at writes
  have same : ∀ run ∈ noteStatements, run.1.schema = noteSchema := by simp [noteStatements]
  refine ⟨⟨valid, reached, noteWorld_conforms, same⟩, by decide +kernel, ?_⟩
  exact (committed_conforms valid reached noteWorld_conforms same noteTurns).1

end System
end RecordQuery
