import RecordQuery.Functions.Dates
import RecordQuery.Proofs.CalendarDays
import RecordQuery.Proofs.RowErrors
import RecordQuery.Proofs.TimeStamps

/-!
Parts of dates. A date is a text or a number of milliseconds, and a part of it depends on the
instant that it stands for (`datePart_eq_ok_iff`). So a part is the same for all representations of
an instant (`datePart_consistent`): for a time stamp at any offset and its milliseconds, and for a
date and the text of its parts. A column of dates takes all numbers, and the parts of dates exist
for those among them only that are whole and in range (`datePart_accepts_iff`).
-/
namespace RecordQuery

open Calendar (Instant Date)

/-! ### Instants and milliseconds -/

namespace Calendar.Instant

/-- The instant is on a day in range. -/
structure OnDay (t : Instant) : Prop where
  day : inRange t.day = true
  below : t.second < 86400

theorem onDay_of_ofLocal? {date : Date} {hour minute second nano : ℕ} {offset : ℤ} {t : Instant}
    (located : ofLocal? date hour minute second nano offset = some t) : t.OnDay :=
  have locates := ofLocal?_eq_some_iff.mp located
  ⟨locates.day, locates.below⟩

theorem inRange_iff (day : ℤ) : inRange day = true ↔ -96465292 ≤ day ∧ day < 95026237 := by
  have first : firstDay leastYear = -96465292 := by decide
  have last : firstDay (greatestYear + 1) = 95026237 := by decide
  rw [inRange, first, last, Bool.and_eq_true, decide_eq_true_eq, decide_eq_true_eq]

theorem ofEpochMillis?_eq (ms : ℤ) : ofEpochMillis? ms =
    if inRange (ms / 1000 / 86400) = true then
      some ⟨ms / 1000 / 86400, (ms / 1000 % 86400).toNat, (ms % 1000).toNat * 1000000⟩
    else none := rfl

theorem epochMillis_mk (day : ℤ) (second nano : ℕ) : epochMillis ⟨day, second, nano⟩ =
    (day * 86400 + second) * 1000 + (nano / 1000000 : ℕ) := rfl

/-- Milliseconds stand for the instant of so many milliseconds, on a day in range. -/
theorem ofEpochMillis?_eq_some_iff {ms : ℤ} {t : Instant} : ofEpochMillis? ms = some t ↔
    t.OnDay ∧ t.nano < 1000000000 ∧ t.nano % 1000000 = 0 ∧ t.epochMillis = ms := by
  obtain ⟨d, s, n⟩ := t
  rw [ofEpochMillis?_eq, Option.ite_none_right_eq_some, Option.some.injEq, mk.injEq, epochMillis_mk]
  constructor
  · rintro ⟨day, rfl, rfl, rfl⟩
    exact ⟨⟨day, by dsimp only; omega⟩, by dsimp only; omega, by dsimp only; omega, by omega⟩
  · rintro ⟨⟨day, below⟩, short, whole, rfl⟩
    dsimp only at day below short whole
    have same : ((d * 86400 + s) * 1000 + (n / 1000000 : ℕ)) / 1000 / 86400 = d := by omega
    rw [same]
    exact ⟨day, rfl, by omega, by omega⟩

/-- The milliseconds that stand for instants are those of the years from −262143 to 262142. -/
theorem isSome_ofEpochMillis?_iff (ms : ℤ) :
    (ofEpochMillis? ms).isSome = true ↔ -8334601228800000 ≤ ms ∧ ms ≤ 8210266876799999 := by
  have range : (ofEpochMillis? ms).isSome = true ↔ inRange (ms / 1000 / 86400) = true := by
    rw [ofEpochMillis?_eq]
    split <;> simp_all
  rw [range, inRange_iff]
  omega

end Calendar.Instant

namespace Functions

/-! ### The instant of a value -/

/-- The number is a whole number of milliseconds of the years from −262143 to 262142. -/
def IsTimestamp : Number → Prop
  | .int ms => -8334601228800000 ≤ ms ∧ ms ≤ 8210266876799999
  | .float _ => False

theorem instantOfNumber?_int {ms : ℤ} {t : Instant} (found : Instant.ofEpochMillis? ms = some t) :
    instantOfNumber? (.int ms) = some t := by
  have range := (Instant.isSome_ofEpochMillis?_iff ms).mp (Option.isSome_iff_exists.mpr ⟨t, found⟩)
  have fits : Number.fitsWord ms = true := by
    rw [Number.fitsWord, Bool.and_eq_true, decide_eq_true_eq, decide_eq_true_eq]
    omega
  rw [instantOfNumber?, if_pos fits, found]

theorem isSome_instantOfNumber?_iff (n : Number) :
    (instantOfNumber? n).isSome = true ↔ IsTimestamp n := by
  cases n with
  | float x => simp [instantOfNumber?, IsTimestamp]
  | int ms =>
    rw [IsTimestamp, ← Instant.isSome_ofEpochMillis?_iff]
    cases found : Instant.ofEpochMillis? ms with
    | some t => rw [instantOfNumber?_int found]
    | none =>
      rw [instantOfNumber?]
      split
      · rw [found]
      · rfl

/-- A text is read in one of the three forms. -/
theorem read?_cases {s : String} {t : Instant} (read : Calendar.read? s = some t) :
    Calendar.readStamp? s.toList = some t ∨ Calendar.readDateTime? s.toList = some t ∨
      Calendar.readDay? s.toList = some t := by
  rw [Calendar.read?] at read
  cases full : Calendar.readStamp? s.toList with
  | some u =>
    rw [full] at read
    exact .inl read
  | none =>
    cases plain : Calendar.readDateTime? s.toList with
    | some u =>
      rw [full, plain] at read
      exact .inr (.inl read)
    | none =>
      rw [full, plain] at read
      exact .inr (.inr read)

theorem onDay_of_read? {s : String} {t : Instant} (read : Calendar.read? s = some t) : t.OnDay := by
  rcases read?_cases read with full | plain | day
  · obtain ⟨st, -, located⟩ := Calendar.readStamp?_eq_some_iff.mp full
    exact Instant.onDay_of_ofLocal? located
  · obtain ⟨_, -, timed⟩ := Option.bind_eq_some_iff.mp plain
    obtain ⟨_, -, ended⟩ := Option.bind_eq_some_iff.mp timed
    obtain ⟨_, -, located⟩ := Option.bind_eq_some_iff.mp ended
    exact Instant.onDay_of_ofLocal? located
  · obtain ⟨_, -, ended⟩ := Option.bind_eq_some_iff.mp day
    obtain ⟨_, -, located⟩ := Option.bind_eq_some_iff.mp ended
    exact Instant.onDay_of_ofLocal? located

theorem instantArg_str {name s : String} {t : Instant} (read : Calendar.read? s = some t) :
    instantArg name (.str s) = .ok t := by
  rw [instantArg, read]

theorem instantArg_ofInt {name : String} {ms : ℤ} {t : Instant}
    (found : Instant.ofEpochMillis? ms = some t) : instantArg name (.ofInt ms) = .ok t := by
  rw [Json.ofInt, instantArg, instantOfNumber?_int found]

theorem given_of_instantArg {name : String} {value : Json} {t : Instant}
    (found : instantArg name value = .ok t) : value.isNull = false := by
  cases value with
  | null => cases found
  | bool | num | str | arr | obj => rfl

theorem onDay_of_instantArg {name : String} {value : Json} {t : Instant}
    (found : instantArg name value = .ok t) : t.OnDay := by
  cases value with
  | str s =>
    rw [instantArg] at found
    split at found
    · rename_i u read
      cases found
      exact onDay_of_read? read
    · cases found
  | num n =>
    rw [instantArg] at found
    split at found
    · rename_i u counted
      cases found
      cases n with
      | float x => cases counted
      | int ms =>
        rw [instantOfNumber?, Option.ite_none_right_eq_some] at counted
        exact (Instant.ofEpochMillis?_eq_some_iff.mp counted.2).1
    · cases found
  | null | bool | arr | obj => cases found

/-! ### Parts -/

/-- A part other than the milliseconds depends on the day and the second alone. -/
theorem partOf?_cases {name : String} {f : Instant → ℤ} (known : partOf? name = some f) :
    (name = "epoch" ∧ f = Instant.epochMillis) ∨
      (name ≠ "epoch" ∧ ∀ t u : Instant, t.day = u.day → t.second = u.second → f t = f u) := by
  rw [partOf?.eq_def] at known
  split at known
  case h_9 =>
    cases known
    exact .inl ⟨rfl, rfl⟩
  case h_10 => cases known
  all_goals
    cases known
    refine .inr ⟨by decide, fun t u day second => ?_⟩
    simp only [Instant.date, Instant.hour, Instant.minute, Instant.secondOfMinute, day, second]

/-- A part is asked for by its name, then the date is read, then the part is looked up. -/
theorem datePart_eq {value : Json} (given : value.isNull = false) (part : Json) :
    datePart [part, value] = (do
      let name ← stringArg "DATE_PART" 1 part
      let t ← instantArg "DATE_PART" value
      match partOf? (Text.lower name) with
      | some f => .ok (.ofInt (f t))
      | none => .error (.unknownPart (Text.lower name))) := by
  cases value with
  | null => cases given
  | bool | num | str | arr | obj => rfl

/-- A part of a value exists if the part is known and the value stands for an instant. -/
theorem datePart_eq_ok_iff {part : String} {value r : Json} (given : value.isNull = false) :
    datePart [.str part, value] = .ok r ↔
      ∃ t f, instantArg "DATE_PART" value = .ok t ∧ partOf? (Text.lower part) = some f ∧
        r = .ofInt (f t) := by
  rw [datePart_eq given]
  change (instantArg "DATE_PART" value >>= _) = _ ↔ _
  cases found : instantArg "DATE_PART" value with
  | error e => simp [bind, Except.bind]
  | ok t =>
    cases known : partOf? (Text.lower part) with
    | none => simp [bind, Except.bind]
    | some f => simp [bind, Except.bind, eq_comm]

/-- Values have the same parts where their instants do; what is refused is refused alike. -/
theorem datePart_congr {first second : Json} {t u : Instant}
    (found : instantArg "DATE_PART" first = .ok t) (found' : instantArg "DATE_PART" second = .ok u)
    {part : Json}
    (same : ∀ name f, part = .str name → partOf? (Text.lower name) = some f → f t = f u) :
    datePart [part, first] = datePart [part, second] := by
  rw [datePart_eq (given_of_instantArg found), datePart_eq (given_of_instantArg found'), found,
    found']
  cases part with
  | str name =>
    cases known : partOf? (Text.lower name) with
    | none => simp [stringArg, bind, Except.bind, known]
    | some f => simp [stringArg, bind, Except.bind, known, same name f rfl known]
  | null | bool | num | arr | obj => rfl

/-! ### Representations of an instant -/

/-- The parts of the date and the time of an instant. -/
structure Civil where
  year : ℕ
  month : ℕ
  day : ℕ
  hour : ℕ
  minute : ℕ
  second : ℕ

/-- The text of the parts, with four digits of the year and two of each other part. -/
def Civil.text (c : Civil) : String :=
  Instant.pad 4 c.year ++ "-" ++ Instant.pad 2 c.month ++ "-" ++ Instant.pad 2 c.day ++ " " ++
    Instant.pad 2 c.hour ++ ":" ++ Instant.pad 2 c.minute ++ ":" ++ Instant.pad 2 c.second

theorem Civil.toList_text (c : Civil) : c.text.toList =
    ((Instant.pad 4 c.year).toList ++ '-' :: ((Instant.pad 2 c.month).toList ++
      '-' :: (Instant.pad 2 c.day).toList)) ++ ' ' :: ((Instant.pad 2 c.hour).toList ++
      ':' :: ((Instant.pad 2 c.minute).toList ++ ':' :: (Instant.pad 2 c.second).toList)) := by
  simp [Civil.text, String.toList_append]

/-- The value has the parts, each asked for by its name. -/
structure HasParts (value : Json) (c : Civil) : Prop where
  year : datePart [.str "year", value] = .ok (.ofNat c.year)
  month : datePart [.str "month", value] = .ok (.ofNat c.month)
  day : datePart [.str "day", value] = .ok (.ofNat c.day)
  hour : datePart [.str "hour", value] = .ok (.ofNat c.hour)
  minute : datePart [.str "minute", value] = .ok (.ofNat c.minute)
  second : datePart [.str "second", value] = .ok (.ofNat c.second)

/-- The names of these parts. -/
def partNames : List String := ["year", "month", "day", "hour", "minute", "second"]

theorem lower_partName {name : String} (listed : name ∈ partNames) :
    Text.lower name = name ∧ Text.lower name ≠ "epoch" := by
  revert name
  decide +kernel

theorem datePart_named {value : Json} {t : Instant} (found : instantArg "DATE_PART" value = .ok t)
    {name : String} (listed : name ∈ partNames) {f : Instant → ℤ} (known : partOf? name = some f) :
    datePart [.str name, value] = .ok (.ofInt (f t)) := by
  refine (datePart_eq_ok_iff (given_of_instantArg found)).mpr ⟨t, f, found, ?_, rfl⟩
  rw [(lower_partName listed).1, known]

/-- The instant whose parts a value has. -/
theorem HasParts.exists_instant {value : Json} {c : Civil} (parts : HasParts value c) :
    ∃ t, instantArg "DATE_PART" value = .ok t ∧ t.date = ⟨c.year, c.month, c.day⟩ ∧
      t.second = c.hour * 3600 + c.minute * 60 + c.second ∧ c.minute < 60 ∧ c.second < 60 := by
  have given : value.isNull = false := by
    cases value with
    | null => cases parts.year
    | bool | num | str | arr | obj => rfl
  obtain ⟨t, -, found, -⟩ := (datePart_eq_ok_iff given).mp parts.year
  have equal {name : String} {n : ℕ} {f : Instant → ℤ} (listed : name ∈ partNames)
      (known : partOf? name = some f)
      (asked : datePart [.str name, value] = .ok (.ofNat n)) : f t = n := by
    have same := Except.ok.inj ((datePart_named found listed known).symm.trans asked)
    exact Number.int.inj (Json.num.inj same)
  have year : t.date.year = c.year := equal (by decide) rfl parts.year
  have month : (t.date.month : ℤ) = c.month := equal (by decide) rfl parts.month
  have day : (t.date.day : ℤ) = c.day := equal (by decide) rfl parts.day
  have hour : (t.hour : ℤ) = c.hour := equal (by decide) rfl parts.hour
  have minute : (t.minute : ℤ) = c.minute := equal (by decide) rfl parts.minute
  have second : (t.secondOfMinute : ℤ) = c.second := equal (by decide) rfl parts.second
  simp only [Instant.hour, Instant.minute, Instant.secondOfMinute] at hour minute second
  refine ⟨t, found, ?_, by omega, by omega, by omega⟩
  rw [← year, ← Int.ofNat.inj month, ← Int.ofNat.inj day]

/-- A date of a year from 0 on has the parts of its instant. -/
theorem hasParts_of_instant {value : Json} {t : Instant}
    (found : instantArg "DATE_PART" value = .ok t) (era : 0 ≤ t.date.year) :
    HasParts value
      ⟨t.date.year.toNat, t.date.month, t.date.day, t.hour, t.minute, t.secondOfMinute⟩ := by
  have told {name : String} {n : ℕ} {f : Instant → ℤ} (listed : name ∈ partNames)
      (known : partOf? name = some f) (equal : f t = n) :
      datePart [.str name, value] = .ok (.ofNat n) := by
    rw [datePart_named found listed known, equal]
    rfl
  exact ⟨told (by decide) rfl (Int.toNat_of_nonneg era).symm, told (by decide) rfl rfl,
    told (by decide) rfl rfl, told (by decide) rfl rfl, told (by decide) rfl rfl,
    told (by decide) rfl rfl⟩

/-- The text of the parts is read as the instant at the start of its second. -/
theorem read?_text {c : Civil} {t : Instant} (onDay : t.OnDay) (short : c.year ≤ 9999)
    (date : t.date = ⟨c.year, c.month, c.day⟩)
    (time : t.second = c.hour * 3600 + c.minute * 60 + c.second) (minutes : c.minute < 60)
    (seconds : c.second < 60) : Calendar.read? c.text = some ⟨t.day, t.second, 0⟩ := by
  have below := onDay.below
  have valid : (⟨c.year, c.month, c.day⟩ : Date).valid = true := by
    rw [← date]
    exact Date.valid_ofDay t.day
  have number : (⟨c.year, c.month, c.day⟩ : Date).toDay = t.day := by
    rw [← date]
    exact Date.toDay_ofDay t.day
  obtain ⟨month, day⟩ : c.month ≤ 12 ∧ c.day ≤ 31 := Date.bounds_of_valid valid
  have year : Calendar.Numeral 4 c.year (Instant.pad 4 c.year).toList :=
    Calendar.numeral_pad (by norm_num) (by omega)
  have two {n : ℕ} (fits : n < 100) : Calendar.Numeral 2 n (Instant.pad 2 n).toList :=
    Calendar.numeral_pad (by norm_num) fits
  have dated := Calendar.DateText.intro year (two (n := c.month) (by omega))
    (two (n := c.day) (by omega))
  have timed := Calendar.ClockText.intro (two (n := c.hour) (by omega))
    (two (n := c.minute) (by omega)) (two (n := c.second) (by omega))
  have read := Calendar.read?_plain dated timed
  rw [← c.toList_text, String.ofList_toList] at read
  rw [read, Instant.ofLocal?_eq_some_iff]
  have range := onDay.day
  exact ⟨valid, number ▸ range, by omega, minutes, by omega, range, below,
    by rw [number]; dsimp only; omega, by rw [if_neg (by omega)]⟩

/-- A time stamp has the parts of its milliseconds. -/
theorem datePart_stamp {st : Calendar.TimeStamp} {s : String} (spelled : st.Spells s.toList)
    (accepted : (Calendar.read? s).isSome = true) (plain : st.second ≠ 60) (part : Json) :
    datePart [part, .str s] = datePart [part, .ofInt ⌊st.millis⌋] := by
  obtain ⟨t, read⟩ := Option.isSome_iff_exists.mp accepted
  have located := (Calendar.TimeStamp.read?_of_spells spelled).symm.trans read
  obtain ⟨millis, below⟩ := Calendar.TimeStamp.epochMillis_eq spelled located plain
  -- the milliseconds lose the nanoseconds below them, which no part shows
  let u : Instant := ⟨t.day, t.second, t.nano / 1000000 * 1000000⟩
  have same : u.epochMillis = t.epochMillis := by
    simp [u, Instant.epochMillis]
  have counted : Instant.ofEpochMillis? ⌊st.millis⌋ = some u := by
    obtain ⟨day, seconds⟩ := onDay_of_read? read
    exact Instant.ofEpochMillis?_eq_some_iff.mpr
      ⟨⟨day, seconds⟩, by dsimp only [u]; omega, Nat.mul_mod_left _ _, same.trans millis⟩
  refine datePart_congr (instantArg_str read) (instantArg_ofInt counted) fun name f _ known => ?_
  rcases partOf?_cases known with ⟨-, rfl⟩ | ⟨-, depends⟩
  · exact same.symm
  · exact depends t u rfl rfl

theorem datePart_epoch {part : String} (named : Text.lower part = "epoch") {m : ℤ}
    (least : -8334601228800000 ≤ m) (greatest : m ≤ 8210266876799999) :
    datePart [.str part, .ofInt m] = .ok (.ofInt m) := by
  obtain ⟨t, counted⟩ := Option.isSome_iff_exists.mp
    ((Instant.isSome_ofEpochMillis?_iff m).mpr ⟨least, greatest⟩)
  refine (datePart_eq_ok_iff rfl).mpr ⟨t, Instant.epochMillis, instantArg_ofInt counted, ?_, ?_⟩
  · rw [named]
    rfl
  · rw [(Instant.ofEpochMillis?_eq_some_iff.mp counted).2.2.2]

/-- The text of the parts has all parts of the value but its milliseconds. -/
theorem HasParts.datePart_text {value : Json} {c : Civil} (parts : HasParts value c)
    (short : c.year ≤ 9999) {part : String} (other : Text.lower part ≠ "epoch") :
    datePart [.str part, .str c.text] = datePart [.str part, value] := by
  obtain ⟨t, found, date, time, minutes, seconds⟩ := parts.exists_instant
  have read := read?_text (onDay_of_instantArg found) short date time minutes seconds
  refine datePart_congr (instantArg_str read) found fun name f same known => ?_
  rcases partOf?_cases known with ⟨epoch, -⟩ | ⟨-, depends⟩
  · exact absurd (Json.str.inj same ▸ epoch) other
  · exact depends _ t rfl rfl

/-- A part does not depend on how its instant is written. A text that is read as a full time stamp
spells one; each part of it exists, and if its second is no leap second, it has the parts of its
milliseconds, rounded down. The milliseconds of milliseconds in range are these. The text of the
parts of a date, in four digits of the year, has the same parts, and all others of the date but its
milliseconds. -/
theorem datePart_consistent :
    (∀ s t, Calendar.readStamp? s.toList = some t → Calendar.read? s = some t ∧
      ∃ st : Calendar.TimeStamp, st.Spells s.toList) ∧
    (∀ (st : Calendar.TimeStamp) (s : String), st.Spells s.toList →
      (Calendar.read? s).isSome = true →
        (∀ part, (partOf? (Text.lower part)).isSome = true →
          ∃ n, datePart [.str part, .str s] = .ok (.ofInt n)) ∧
        (st.second ≠ 60 →
          ∀ part, datePart [part, .str s] = datePart [part, .ofInt ⌊st.millis⌋])) ∧
    (∀ part m, Text.lower part = "epoch" → -8334601228800000 ≤ m → m ≤ 8210266876799999 →
      datePart [.str part, .ofInt m] = .ok (.ofInt m)) ∧
    ∀ value c, HasParts value c → c.year ≤ 9999 → HasParts (.str c.text) c ∧
      ∀ part, Text.lower part ≠ "epoch" →
        datePart [.str part, .str c.text] = datePart [.str part, value] := by
  refine ⟨?_, ?_, fun part m named least greatest => datePart_epoch named least greatest, ?_⟩
  · intro s t full
    obtain ⟨st, spelled, located⟩ := Calendar.readStamp?_eq_some_iff.mp full
    exact ⟨(Calendar.TimeStamp.read?_of_spells spelled).trans located, st, spelled⟩
  · intro st s spelled accepted
    refine ⟨fun part known => ?_, fun plain => datePart_stamp spelled accepted plain⟩
    obtain ⟨t, read⟩ := Option.isSome_iff_exists.mp accepted
    obtain ⟨f, known⟩ := Option.isSome_iff_exists.mp known
    exact ⟨f t, (datePart_eq_ok_iff rfl).mpr ⟨t, f, instantArg_str read, known, rfl⟩⟩
  · intro value c parts short
    have alike (part : String) (other : Text.lower part ≠ "epoch") :
        datePart [.str part, .str c.text] = datePart [.str part, value] :=
      parts.datePart_text short other
    exact ⟨⟨(alike "year" (lower_partName (by decide)).2).trans parts.year,
      (alike "month" (lower_partName (by decide)).2).trans parts.month,
      (alike "day" (lower_partName (by decide)).2).trans parts.day,
      (alike "hour" (lower_partName (by decide)).2).trans parts.hour,
      (alike "minute" (lower_partName (by decide)).2).trans parts.minute,
      (alike "second" (lower_partName (by decide)).2).trans parts.second⟩, alike⟩

theorem datePart_consistent_newYear :
    let stamp := "2024-01-01T00:30:00.250+01:00"
    let ms : ℤ := 1704065400250
    (∃ st : Calendar.TimeStamp, st.Spells stamp.toList ∧ st.second ≠ 60 ∧ st.millis = ms) ∧
      (∀ part, datePart [part, .str stamp] = datePart [part, .ofInt ms]) ∧
      datePart [.str "Epoch", .ofInt (-1)] = .ok (.ofInt (-1)) ∧
      HasParts (.ofInt ms) ⟨2023, 12, 31, 23, 30, 0⟩ ∧
      HasParts (.str "2023-12-31 23:30:00") ⟨2023, 12, 31, 23, 30, 0⟩ := by
  intro stamp ms
  obtain ⟨-, stamps, epoch, texts⟩ := datePart_consistent
  let st : Calendar.TimeStamp := ⟨⟨2024, 1, 1⟩, 0, 30, 0, 1 / 4, 3600⟩
  have fraction : Calendar.FractionText (1 / 4) ['.', '2', '5', '0'] := by
    have value : Decimal.digitsValue ['2', '5', '0'] = 250 := by decide
    have quarter : Calendar.FractionText
        (Decimal.digitsValue ['2', '5', '0'] / 10 ^ ['2', '5', '0'].length) ['.', '2', '5', '0'] :=
      .point (List.cons_ne_nil _ _) (List.all_eq_true.mp rfl)
    rw [value] at quarter
    norm_num at quarter ⊢
    exact quarter
  have zero : Calendar.Numeral 2 0 ['0', '0'] := ⟨rfl, List.all_eq_true.mp rfl, rfl⟩
  have one : Calendar.Numeral 2 1 ['0', '1'] := ⟨rfl, List.all_eq_true.mp rfl, rfl⟩
  have half : Calendar.Numeral 2 30 ['3', '0'] := ⟨rfl, List.all_eq_true.mp rfl, rfl⟩
  have year : Calendar.Numeral 4 2024 ['2', '0', '2', '4'] := ⟨rfl, List.all_eq_true.mp rfl, rfl⟩
  have spelled : st.Spells stamp.toList := by
    have chars : st.Spells _ := .intro (.intro year one one) (.inl rfl) (.intro zero half zero)
      fraction (.ahead one (by decide) zero (by decide))
    rwa [← String.toList_ofList (l := _ ++ _)] at chars
  have millis : st.millis = ms := by
    have day : (⟨2024, 1, 1⟩ : Date).toDay = 19723 := by decide
    simp only [st, ms, Calendar.TimeStamp.millis, day]
    norm_num
  have accepted : (Calendar.read? stamp).isSome = true := by decide +kernel
  have found : instantArg "DATE_PART" (.ofInt ms) = .ok ⟨19722, 84600, 250000000⟩ :=
    instantArg_ofInt (by decide)
  have parts : HasParts (.ofInt ms) ⟨2023, 12, 31, 23, 30, 0⟩ :=
    hasParts_of_instant found (by decide)
  have alike := (stamps st stamp spelled accepted).2 (by decide)
  rw [millis, Int.floor_intCast] at alike
  exact ⟨⟨st, spelled, by decide, millis⟩, alike,
    epoch "Epoch" (-1) (by decide +kernel) (by decide) (by decide), parts,
    (texts _ _ parts (by decide)).1⟩

/-! ### Columns of dates -/

/-- The values that stand for instants. -/
theorem exists_instantArg_iff (name : String) (value : Json) :
    (∃ t, instantArg name value = .ok t) ↔
      (∃ s, value = .str s ∧ (Calendar.read? s).isSome = true) ∨
        ∃ n, value = .num n ∧ IsTimestamp n := by
  cases value with
  | null | bool | arr | obj => simp [instantArg]
  | str s => cases read : Calendar.read? s <;> simp [instantArg, read]
  | num n =>
    have counted := isSome_instantOfNumber?_iff n
    cases found : instantOfNumber? n <;> simp_all [instantArg]

section
variable {w : World} {stage : StageId} {field : Field} {value : Json}

/-- A column of dates takes all numbers, and the texts that stand for instants. -/
theorem run_refusal?_date (type : field.type = .date) (given : value.isNull = false) :
    (w.run (field.refusal? stage value)).1 = none ↔
      value.kind = .number ∨ ∃ s, value = .str s ∧ (Calendar.read? s).isSome = true := by
  rw [Field.run_refusal?_eq_none_iff, Field.Takes, given, if_neg Bool.false_ne_true, Field.Allows,
    type]

/-- The parts of a date exist where a column of dates takes it and it is a text or a timestamp. The
column takes the other numbers too, and their parts are refused. -/
theorem datePart_accepts_iff (type : field.type = .date) (given : value.isNull = false)
    {part : String} (known : (partOf? (Text.lower part)).isSome = true) :
    ((∃ r, datePart [.str part, value] = .ok r) ↔
      (w.run (field.refusal? stage value)).1 = none ∧ ∀ n, value = .num n → IsTimestamp n) ∧
    ∀ n, value = .num n → ¬ IsTimestamp n →
      (w.run (field.refusal? stage value)).1 = none ∧
        datePart [.str part, value] = .error (.invalidTimestamp "DATE_PART" n) := by
  obtain ⟨f, known⟩ := Option.isSome_iff_exists.mp known
  have instant : (∃ r, datePart [.str part, value] = .ok r) ↔
      ∃ t, instantArg "DATE_PART" value = .ok t := by
    simp [datePart_eq_ok_iff given, known]
  constructor
  · rw [instant, exists_instantArg_iff, run_refusal?_date type given]
    constructor
    · rintro (⟨s, rfl, read⟩ | ⟨n, rfl, timestamp⟩)
      · exact ⟨.inr ⟨s, rfl, read⟩, nofun⟩
      · exact ⟨.inl rfl, fun m same => Json.num.inj same ▸ timestamp⟩
    · rintro ⟨number | text, timestamps⟩
      · cases value with
        | num n => exact .inr ⟨n, rfl, timestamps n rfl⟩
        | null | bool | str | arr | obj => cases number
      · exact .inl text
  · rintro n rfl other
    refine ⟨(run_refusal?_date type given).mpr (.inl rfl), ?_⟩
    have missing : instantOfNumber? n = none := by
      rwa [← isSome_instantOfNumber?_iff, Bool.not_eq_true, Option.isSome_eq_false_iff,
        Option.isNone_iff_eq_none] at other
    rw [datePart_eq given, instantArg, missing]
    rfl

end

theorem datePart_accepts_iff_leapDay :
    let field : Field := { name := "at", type := .date }
    let value : Json := .str "2024-02-29"
    let world : World := { now := ⟨0, 0, 0⟩, ids := fun _ => "" }
    field.type = .date ∧ value.isNull = false ∧ (partOf? (Text.lower "Day")).isSome = true ∧
      (world.run (field.refusal? ⟨1⟩ value)).1 = none ∧
      ∃ r, datePart [.str "Day", value] = .ok r := by
  intro field value world
  have known : (partOf? (Text.lower "Day")).isSome = true := by decide +kernel
  have readable : (Calendar.read? "2024-02-29").isSome = true := by decide +kernel
  have taken : (world.run (field.refusal? ⟨1⟩ value)).1 = none :=
    (run_refusal?_date rfl rfl).mpr (.inr ⟨_, rfl, readable⟩)
  exact ⟨rfl, rfl, known, taken,
    (@datePart_accepts_iff world ⟨1⟩ field value rfl rfl _ known).1.mpr
      ⟨taken, nofun⟩⟩

/-- A column of dates takes the double zero, which has no parts. -/
theorem datePart_refuses_zero :
    ¬ ∀ (w : World) (stage : StageId) (field : Field) (value : Json) (part : String),
      field.type = .date → value.isNull = false → (partOf? (Text.lower part)).isSome = true →
        ((w.run (field.refusal? stage value)).1 = none ↔
          ∃ r, datePart [.str part, value] = .ok r) := by
  intro alike
  let field : Field := { name := "at", type := .date }
  let world : World := { now := ⟨0, 0, 0⟩, ids := fun _ => "" }
  let zero : Json := .num (.float 0.0)
  have known : (partOf? (Text.lower "year")).isSome = true := by decide +kernel
  have taken : (world.run (field.refusal? ⟨1⟩ zero)).1 = none :=
    (run_refusal?_date rfl rfl).mpr (.inl rfl)
  obtain ⟨r, found⟩ := (alike world ⟨1⟩ field zero "year" rfl rfl known).mp taken
  obtain ⟨t, -, stands, -⟩ := (datePart_eq_ok_iff rfl).mp found
  cases stands

end Functions

end RecordQuery
