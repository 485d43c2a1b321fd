import RecordQuery.Schema.Basic

/-!
Lower case is stable: a text in lower case stays as it is when it is lowered again (`lower_lower`).
Names of tables and columns are lowered wherever they enter, often several times on one way, and
this is why the number of times does not matter.
-/
namespace RecordQuery.Text

/-! ### Code points -/

/-- The least image of a run. -/
def Run.low (run : Run) : Nat := (run.first + run.offset).toNat

/-- The greatest image of a run. -/
def Run.high (run : Run) : Nat := (run.last + run.offset).toNat

/-- No image of the run is a member of the other one: its images lie below or above, or they fall
between members that are two apart. -/
def Run.ClearOf (run other : Run) : Prop :=
  run.high < other.first ∨ other.last < run.low ∨
    ((run.low + other.first) % 2 = 1 ∧ (run.first = run.last ∨ run.step = 2) ∧
      (other.first = other.last ∨ other.step = 2))

/-- The images of the run are characters, and none is an ASCII character that lower case changes or
the capital letter that becomes two. -/
def Run.Placed (run : Run) : Prop :=
  0 ≤ run.first + run.offset ∧ 97 ≤ run.low ∧ (run.high ≤ 122 ∨ 128 ≤ run.low) ∧
    (run.high < 0xD800 ∨ (0xDFFF < run.low ∧ run.high < 0x110000)) ∧
    run.ClearOf ⟨0x130, 0x130, 1, 0⟩

instance (run other : Run) : Decidable (run.ClearOf other) := by
  unfold Run.ClearOf; infer_instance

instance (run : Run) : Decidable run.Placed := by
  unfold Run.Placed; infer_instance

/-- Whether a run has one member, or members that are two apart. -/
def Run.spaced (run : Run) : Bool := Nat.beq run.first run.last || Nat.beq run.step 2

/-- The test whether images between two bounds are clear of a run, without propositions so that it
is fast on all pairs of runs. -/
def Run.clears (low high : Nat) (spaced : Bool) (other : Run) : Bool :=
  Nat.blt high other.first || (Nat.blt other.last low ||
    (Nat.beq ((low + other.first) % 2) 1 && (spaced && other.spaced)))

theorem clearOf_of_clears {run other : Run}
    (clear : Run.clears run.low run.high run.spaced other = true) : run.ClearOf other := by
  simpa [Run.clears, Run.spaced, Run.ClearOf] using clear

theorem lowerRuns_clear : ∀ run ∈ lowerRuns, ∀ other ∈ lowerRuns, run.ClearOf other := by
  have tested : (lowerRuns.all fun run =>
      lowerRuns.all (Run.clears run.low run.high run.spaced)) = true := by decide +kernel
  intro run member other otherMember
  have clear := List.all_eq_true.mp tested run member
  exact clearOf_of_clears (List.all_eq_true.mp clear other otherMember)

theorem lowerRuns_placed : ∀ run ∈ lowerRuns, run.Placed := by
  decide +kernel

theorem image?_eq_some {run : Run} {code image : Nat} (found : run.image? code = some image) :
    run.first ≤ code ∧ code ≤ run.last ∧ (code - run.first) % run.step = 0 ∧
      (code + run.offset).toNat = image := by
  simpa [Run.image?, and_assoc] using found

/-- What a run sends a code point to is in no run that its images are clear of. -/
theorem image?_of_clearOf {run other : Run} (clear : run.ClearOf other) {code image : Nat}
    (found : run.image? code = some image) (forward : 0 ≤ run.first + run.offset) :
    other.image? image = none := by
  obtain ⟨low, high, phase, rfl⟩ := image?_eq_some found
  simp only [Run.image?, ite_eq_right_iff, reduceCtorEq, imp_false]
  rintro ⟨above, below, even⟩
  simp only [Run.ClearOf, Run.low, Run.high] at clear
  rcases clear with before | after | ⟨odd, single | two, alone | pairs⟩
  · omega
  · omega
  · omega
  · rw [pairs] at even; omega
  · rw [two] at phase; omega
  · rw [two] at phase; rw [pairs] at even; omega

/-- A code point that some run sends elsewhere. -/
theorem applyRuns_cases (runs : List Run) (code : Nat) :
    applyRuns runs code = code ∨
      ∃ run ∈ runs, run.image? code = some (applyRuns runs code) := by
  cases found : runs.findSome? (·.image? code) with
  | none => left; simp [applyRuns, found]
  | some image =>
    obtain ⟨run, member, sends⟩ := List.exists_of_findSome?_eq_some found
    exact .inr ⟨run, member, by simp [applyRuns, found, sends]⟩

/-- What lower case sends a code point to, it leaves where it is. -/
theorem applyRuns_lowerRuns_image {run : Run} (member : run ∈ lowerRuns) {code image : Nat}
    (found : run.image? code = some image) : applyRuns lowerRuns image = image := by
  have placed := lowerRuns_placed run member
  have untouched : lowerRuns.findSome? (·.image? image) = none := by
    rw [List.findSome?_eq_none_iff]
    intro other otherMember
    exact image?_of_clearOf (lowerRuns_clear run member other otherMember) found placed.1
  simp [applyRuns, untouched]

/-! ### Characters -/

/-- A character that lower case leaves as it is, at every place of a text. -/
def Small (c : Char) : Prop := c ≠ 'Σ' ∧ lowerChar c = [c]

theorem toNat_ofNat {n : Nat} (valid : n.isValidChar) : (Char.ofNat n).toNat = n := by
  rw [Char.ofNat, dif_pos valid]
  rfl

/-- The image of a run is a small letter. -/
theorem small_image {run : Run} (member : run ∈ lowerRuns) {code image : Nat}
    (found : run.image? code = some image) : Small (Char.ofNat image) := by
  have stays := applyRuns_lowerRuns_image member found
  obtain ⟨forward, above, gap, valid, clear⟩ := lowerRuns_placed run member
  have dotted := image?_of_clearOf clear found forward
  obtain ⟨low, high, -, rfl⟩ := image?_eq_some found
  simp only [Run.low, Run.high] at above gap valid
  generalize image : (code + run.offset).toNat = n at stays dotted
  have isChar : n.isValidChar := by
    rcases valid with below | ⟨beyond, below⟩
    · exact .inl (by omega)
    · exact .inr ⟨by omega, by omega⟩
  have code := toNat_ofNat isChar
  constructor
  · intro same
    have : n = 931 := by rw [← code, same]; rfl
    subst this
    exact absurd stays (by decide)
  · by_cases ascii : n < 128
    · have letters : ∀ k < 26, (Char.ofNat (97 + k)).toLower = Char.ofNat (97 + k) := by decide
      have letter := letters (n - 97) (by omega)
      rw [show 97 + (n - 97) = n by omega] at letter
      simp [lowerChar, code, ascii, letter]
    · have plain : Char.ofNat n ≠ 'İ' := by
        intro same
        have : n = 304 := by rw [← code, same]; rfl
        subst this
        exact absurd dotted (by decide)
      simp [lowerChar, code, ascii, plain, stays]

theorem small_toLower {c : Char} (ascii : c.toNat < 128) : Small c.toLower := by
  have all : ∀ n < 128, (Char.ofNat n).toLower ≠ 'Σ' ∧ (Char.ofNat n).toLower.toNat < 128 ∧
      (Char.ofNat n).toLower.toLower = (Char.ofNat n).toLower := by decide
  obtain ⟨other, bound, again⟩ := all c.toNat ascii
  rw [Char.ofNat_toNat] at other bound again
  exact ⟨other, by simp [lowerChar, bound, again]⟩

/-- Lower case of a character consists of small characters. -/
theorem small_of_mem_lowerChar {c d : Char} (ne : c ≠ 'Σ') (member : d ∈ lowerChar c) :
    Small d := by
  by_cases ascii : c.toNat < 128
  · rw [lowerChar, if_pos ascii, List.mem_singleton] at member
    exact member ▸ small_toLower ascii
  · by_cases dotted : c = 'İ'
    · rw [lowerChar, if_neg ascii, if_pos dotted] at member
      simp only [List.mem_cons, List.not_mem_nil, or_false] at member
      rcases member with rfl | rfl
      · exact ⟨by decide, by decide⟩
      · exact ⟨by decide, by decide⟩
    · rw [lowerChar, if_neg ascii, if_neg dotted, List.mem_singleton] at member
      rcases applyRuns_cases lowerRuns c.toNat with stays | ⟨run, listed, found⟩
      · rw [stays, Char.ofNat_toNat] at member
        subst member
        exact ⟨ne, by simp [lowerChar, ascii, dotted, stays]⟩
      · exact member ▸ small_image listed found

/-! ### Texts -/

theorem small_sigmaBetween (before after : List Char) : Small (sigmaBetween before after) := by
  unfold sigmaBetween
  split
  · exact ⟨by decide, by decide⟩
  · exact ⟨by decide, by decide⟩

theorem small_of_mem_lowerAfter {d : Char} (cs : List Char) :
    ∀ before, d ∈ lowerAfter before cs → Small d := by
  induction cs with
  | nil => intro before member; simp [lowerAfter] at member
  | cons c rest ih =>
    intro before member
    rw [lowerAfter, List.mem_append] at member
    rcases member with here | later
    · by_cases sigma : c = 'Σ'
      · rw [if_pos sigma, List.mem_singleton] at here
        exact here ▸ small_sigmaBetween before rest
      · rw [if_neg sigma] at here
        exact small_of_mem_lowerChar sigma here
    · exact ih _ later

theorem lowerAfter_of_small (cs : List Char) (small : ∀ c ∈ cs, Small c) :
    ∀ before, lowerAfter before cs = cs := by
  induction cs with
  | nil => intro before; rfl
  | cons c rest ih =>
    intro before
    obtain ⟨ne, stays⟩ := small c (List.mem_cons_self ..)
    rw [lowerAfter, if_neg ne, stays, ih (fun d member => small d (List.mem_cons_of_mem _ member))]
    rfl

/-- A text in lower case stays as it is when it is lowered again. -/
@[simp] theorem lower_lower (s : String) : lower (lower s) = lower s := by
  have small : ∀ c ∈ lowerAfter [] s.toList, Small c := fun c member =>
    small_of_mem_lowerAfter s.toList [] member
  simp [lower, lowerAfter_of_small _ small]

end RecordQuery.Text

namespace RecordQuery.Schema

/-! ### Types by name -/

theorem get?_congr {a b : String} (same : Text.lower a = Text.lower b) (schema : Schema) :
    schema.get? a = schema.get? b := by
  simp only [get?, same]

theorem mem_of_get? {schema : Schema} {name : String} {d : TypeDef}
    (known : schema.get? name = some d) : d ∈ schema.types := List.mem_of_find?_eq_some known

theorem name_of_get? {schema : Schema} {name : String} {d : TypeDef}
    (known : schema.get? name = some d) : d.name = Text.lower name := by
  have named := List.find?_some known
  exact beq_iff_eq.mp named

theorem lower_name_of_get? {schema : Schema} {name : String} {d : TypeDef}
    (known : schema.get? name = some d) : Text.lower d.name = Text.lower name := by
  rw [name_of_get? known, Text.lower_lower]

/-- A type that is found is found under its own name. -/
theorem get?_own_name {schema : Schema} {name : String} {d : TypeDef}
    (known : schema.get? name = some d) : schema.get? d.name = some d :=
  (get?_congr (lower_name_of_get? known) schema).trans known

end RecordQuery.Schema

namespace RecordQuery.TypeDef

/-! ### Fields by name -/

theorem mem_of_field? {d : TypeDef} {name : String} {field : Field}
    (declared : d.field? name = some field) : field ∈ d.fields := List.mem_of_find?_eq_some declared

theorem name_of_field? {d : TypeDef} {name : String} {field : Field}
    (declared : d.field? name = some field) : field.name = Text.lower name := by
  have named := List.find?_some declared
  exact beq_iff_eq.mp named

end RecordQuery.TypeDef
