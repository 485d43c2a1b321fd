import RecordQuery.Calendar.Reader
import RecordQuery.Proofs.NumberTexts
import Mathlib.Algebra.Order.Floor.Semifield
import Mathlib.Data.Option.Basic
import Mathlib.Data.Rat.Floor

/-!
Texts of instants. `TimeStamp.Spells` is the grammar of time stamps with an offset: which date, time
of day, fraction and offset a text gives. A text is read as a full time stamp if and only if it is
spelled by one whose fields exist (`readStamp?_eq_some_iff`), no other form takes such a text
(`read?_of_spells`), and the instant is the one that the fields denote, rounded down to milliseconds
(`TimeStamp.epochMillis_eq`). A date and time without offset is read as its fields say
(`read?_plain`).
-/
namespace RecordQuery.Calendar

open Decimal (digitsValue)

/-! ### Numerals -/

/-- A number in decimal digits, with zeros in front up to the width. -/
structure Numeral (width n : ℕ) (ds : List Char) : Prop where
  length : ds.length = width
  digits : ∀ c ∈ ds, c.isDigit = true
  value : digitsValue ds = n

theorem numeral_pad {width n : ℕ} (positive : 0 < width) (fits : n < 10 ^ width) :
    Numeral width n (Instant.pad width n).toList := by
  have digits := (Nat.length_toDigits_le_iff (by norm_num) positive).mpr fits
  rw [Instant.pad, String.toList_ofList]
  refine ⟨?_, ?_, ?_⟩
  · rw [List.length_append, List.length_replicate]
    omega
  · intro c member
    rcases List.mem_append.mp member with zero | digit
    · obtain rfl := List.eq_of_mem_replicate zero
      rfl
    · exact Nat.isDigit_of_mem_toDigits (by norm_num) (by norm_num) digit
  · rw [Decimal.digitsValue_zeros_append, Decimal.digitsValue_toDigits]

section
variable {width least n : ℕ} {ds : List Char} (numeral : Numeral width n ds)
include numeral

/-- A numeral of the greatest width is read to its end, whatever follows. -/
theorem Numeral.readDigits? (enough : least ≤ width) (rest : List Char) :
    readDigits? least width (ds ++ rest) = some (n, rest) := by
  have front : ((ds ++ rest).take width).takeWhile Char.isDigit = ds := by
    rw [List.take_left' numeral.length]
    exact List.takeWhile_eq_self_iff.mpr numeral.digits
  rw [Calendar.readDigits?, front, numeral.length, if_neg (Nat.not_lt.mpr enough), numeral.value,
    ← numeral.length, List.drop_left]

/-- A numeral begins with a digit. -/
theorem Numeral.exists_cons (positive : 0 < width) :
    ∃ c rest, ds = c :: rest ∧ c.isDigit = true := by
  cases ds with
  | nil => exact absurd numeral.length positive.ne
  | cons c rest => exact ⟨c, rest, rfl, numeral.digits c (List.mem_cons_self ..)⟩

end

/-- A number of fixed width is read where a numeral of this width stands. -/
theorem readDigits?_eq_some_iff {width n : ℕ} {cs rest : List Char} :
    readDigits? width width cs = some (n, rest) ↔ ∃ ds, Numeral width n ds ∧ cs = ds ++ rest := by
  constructor
  · intro read
    simp only [readDigits?] at read
    generalize front : (cs.take width).takeWhile Char.isDigit = ds at read
    have leading : ds <+: cs := by
      rw [← front]
      exact (List.takeWhile_prefix _).trans (List.take_prefix _ _)
    have short : ds.length ≤ width := by
      rw [← front]
      exact ((List.takeWhile_prefix _).length_le).trans (List.length_take_le _ _)
    split at read
    · cases read
    · cases read
      refine ⟨ds, ⟨by omega, ?_, rfl⟩, List.prefix_iff_eq_append.mp leading |>.symm⟩
      rw [← front]
      exact fun c member => List.mem_takeWhile_imp member
  · rintro ⟨ds, numeral, rfl⟩
    exact numeral.readDigits? le_rfl rest

theorem readChar?_eq_some_iff {c : Char} {cs rest : List Char} :
    readChar? c cs = some rest ↔ cs = c :: rest := by
  cases cs with
  | nil => simp [readChar?]
  | cons d tail =>
    by_cases same : c = d
    · simp [readChar?, same]
    · simp [readChar?, same, Ne.symm same]

/-- What stands between date and time. -/
def Separates (c : Char) : Prop := c = 'T' ∨ c = 't' ∨ c = ' '

theorem readSeparator?_eq_some_iff {cs rest : List Char} :
    readSeparator? cs = some rest ↔ ∃ c, Separates c ∧ cs = c :: rest := by
  cases cs with
  | nil => simp [readSeparator?]
  | cons d tail =>
    simp only [readSeparator?, Separates, Bool.or_eq_true, beq_iff_eq,
      Option.ite_none_right_eq_some, Option.some.injEq, List.cons.injEq, or_assoc]
    constructor
    · rintro ⟨separates, rfl⟩
      exact ⟨d, separates, rfl, rfl⟩
    · rintro ⟨c, separates, rfl, rfl⟩
      exact ⟨separates, rfl⟩

/-! ### Reading on

A reader goes on where a piece that stands in front of it ends, and a reader that succeeds has read
such a piece.
-/

section
variable {α : Type} {width n : ℕ} {c : Char} {ds cs : List Char} {a : α}

theorem Numeral.bind_readDigits? (numeral : Numeral width n ds) (rest : List Char)
    (f : ℕ × List Char → Option α) :
    (Calendar.readDigits? width width (ds ++ rest)).bind f = f (n, rest) := by
  rw [numeral.readDigits? le_rfl, Option.bind_some]

theorem bind_readChar? (c : Char) (rest : List Char) (f : List Char → Option α) :
    (readChar? c (c :: rest)).bind f = f rest := by
  rw [readChar?_eq_some_iff.mpr rfl, Option.bind_some]

theorem Separates.bind_readSeparator? (between : Separates c) (rest : List Char)
    (f : List Char → Option α) : (readSeparator? (c :: rest)).bind f = f rest := by
  rw [readSeparator?_eq_some_iff.mpr ⟨c, between, rfl⟩, Option.bind_some]

theorem exists_numeral {f : ℕ × List Char → Option α}
    (read : (readDigits? width width cs).bind f = some a) :
    ∃ n ds rest, Numeral width n ds ∧ cs = ds ++ rest ∧ f (n, rest) = some a := by
  obtain ⟨⟨n, rest⟩, digits, next⟩ := Option.bind_eq_some_iff.mp read
  obtain ⟨ds, numeral, split⟩ := readDigits?_eq_some_iff.mp digits
  exact ⟨n, ds, rest, numeral, split, next⟩

theorem exists_char {f : List Char → Option α} (read : (readChar? c cs).bind f = some a) :
    ∃ rest, cs = c :: rest ∧ f rest = some a := by
  obtain ⟨rest, char, next⟩ := Option.bind_eq_some_iff.mp read
  exact ⟨rest, readChar?_eq_some_iff.mp char, next⟩

theorem exists_separator {f : List Char → Option α} (read : (readSeparator? cs).bind f = some a) :
    ∃ c rest, Separates c ∧ cs = c :: rest ∧ f rest = some a := by
  obtain ⟨rest, separated, next⟩ := Option.bind_eq_some_iff.mp read
  obtain ⟨c, between, split⟩ := readSeparator?_eq_some_iff.mp separated
  exact ⟨c, rest, between, split, next⟩

end

/-! ### Fractions and offsets -/

/-- The fraction of a second: a point and digits, or nothing. -/
inductive FractionText : ℚ → List Char → Prop where
  | none : FractionText 0 []
  | point {ds : List Char} (some : ds ≠ []) (digits : ∀ c ∈ ds, c.isDigit = true) :
      FractionText (digitsValue ds / 10 ^ ds.length) ('.' :: ds)

/-- The offset from universal time in seconds: the letter of universal time, or hours and minutes
with a sign; the minus may be a hyphen or the mathematical sign. -/
inductive OffsetText : ℤ → List Char → Prop where
  | universal {c : Char} (letter : c = 'Z' ∨ c = 'z') : OffsetText 0 [c]
  | ahead {hours minutes : ℕ} {hs ms : List Char} (hour : Numeral 2 hours hs) (day : hours < 24)
      (minute : Numeral 2 minutes ms) (hourly : minutes < 60) :
      OffsetText (hours * 3600 + minutes * 60) ('+' :: (hs ++ ':' :: ms))
  | behind {c : Char} {hours minutes : ℕ} {hs ms : List Char} (minus : c = '-' ∨ c = '\u2212')
      (hour : Numeral 2 hours hs) (day : hours < 24) (minute : Numeral 2 minutes ms)
      (hourly : minutes < 60) : OffsetText (-(hours * 3600 + minutes * 60)) (c :: (hs ++ ':' :: ms))

/-- The nanoseconds of a fraction that was cut after its ninth digit. -/
theorem nanos_eq_floor (ds : List Char) (digits : ∀ c ∈ ds, c.isDigit = true) :
    digitsValue (ds.take 9) * 10 ^ (9 - (ds.take 9).length) =
      ⌊(digitsValue ds / 10 ^ ds.length : ℚ) * 10 ^ 9⌋₊ := by
  have whole : (digitsValue ds / 10 ^ ds.length : ℚ) * 10 ^ 9 =
      (digitsValue ds * 10 ^ 9 : ℕ) / (10 ^ ds.length : ℕ) := by
    push_cast
    ring
  rw [whole, Nat.floor_div_eq_div]
  by_cases short : ds.length ≤ 9
  · have scale : 10 ^ 9 = 10 ^ (9 - ds.length) * 10 ^ ds.length := by
      rw [← pow_add, Nat.sub_add_cancel short]
    rw [List.take_of_length_le short, scale, ← Nat.mul_assoc,
      Nat.mul_div_cancel _ (Nat.pow_pos (by norm_num))]
  · have length : (ds.take 9).length = 9 := by
      rw [List.length_take]
      omega
    have below : digitsValue (ds.drop 9) < 10 ^ (ds.drop 9).length :=
      Decimal.digitsValue_lt fun c member => digits c (List.mem_of_mem_drop member)
    have split : ds.length = 9 + (ds.drop 9).length := by
      rw [List.length_drop]
      omega
    have value : digitsValue ds =
        digitsValue (ds.take 9) * 10 ^ (ds.drop 9).length + digitsValue (ds.drop 9) := by
      rw [← Decimal.digitsValue_append, List.take_append_drop]
    have power : 0 < 10 ^ (ds.drop 9).length := Nat.pow_pos (by norm_num)
    calc digitsValue (ds.take 9) * 10 ^ (9 - (ds.take 9).length)
        = digitsValue (ds.take 9) := by rw [length, Nat.sub_self, pow_zero, Nat.mul_one]
      _ = digitsValue ds / 10 ^ (ds.drop 9).length := by
          rw [value, Nat.mul_comm, Nat.mul_add_div power, Nat.div_eq_of_lt below, Nat.add_zero]
      _ = digitsValue ds * 10 ^ 9 / 10 ^ ds.length := by
          rw [split, pow_add, Nat.mul_comm (10 ^ 9), Nat.mul_div_mul_right _ _ (by norm_num)]

theorem FractionText.readFraction? {x : ℚ} {fs : List Char} (fraction : FractionText x fs)
    {rest : List Char} (ends : ∀ c ∈ rest.head?, c.isDigit = false ∧ c ≠ '.') :
    readFraction? (fs ++ rest) = some (⌊x * 10 ^ 9⌋₊, rest) := by
  cases fraction with
  | none =>
    rw [List.nil_append, readFraction?.eq_def]
    split
    · exact absurd rfl (ends '.' rfl).2
    · simp
  | @point ds some digits =>
    have front := Decimal.spanDigits_of_digits ds rest digits fun c first => (ends c first).1
    rw [List.cons_append, Calendar.readFraction?, front, ← nanos_eq_floor ds digits]
    cases ds with
    | nil => exact absurd rfl some
    | cons c tail => rfl

theorem exists_fractionText {cs rest : List Char} {nano : ℕ}
    (read : readFraction? cs = some (nano, rest)) :
    ∃ x fs, FractionText x fs ∧ cs = fs ++ rest ∧ nano = ⌊x * 10 ^ 9⌋₊ := by
  rw [readFraction?.eq_def] at read
  split at read
  · rename_i tail
    split at read
    · cases read
    · rename_i ds after some spanned
      cases read
      have parts := Decimal.spanDigits_append tail
      have digits : ∀ c ∈ ds, c.isDigit = true := by
        have front : tail.takeWhile Char.isDigit = ds := congrArg Prod.fst spanned
        rw [← front]
        exact fun c member => List.mem_takeWhile_imp member
      rw [spanned] at parts
      have nonempty : ds ≠ [] := some
      exact ⟨_, _, .point nonempty digits, by rw [List.cons_append, parts],
        nanos_eq_floor ds digits⟩
  · cases read
    exact ⟨0, [], .none, rfl, by simp⟩

/-- An offset begins with a letter or a sign. -/
theorem OffsetText.exists_cons {offset : ℤ} {os : List Char} (text : OffsetText offset os) :
    ∃ c rest, os = c :: rest ∧ c.isDigit = false ∧ c ≠ '.' := by
  cases text with
  | universal letter => rcases letter with rfl | rfl <;> exact ⟨_, _, rfl, by decide, by decide⟩
  | ahead => exact ⟨_, _, rfl, by decide, by decide⟩
  | behind minus =>
    rcases minus with rfl | rfl <;> exact ⟨_, _, rfl, by decide, by decide⟩

theorem readOffset?_eq_some_iff {cs rest : List Char} {offset : ℤ} :
    readOffset? (readChar? ':') cs = some (offset, rest) ↔
      ∃ os, OffsetText offset os ∧ cs = os ++ rest := by
  constructor
  · intro read
    cases cs with
    | nil => cases read
    | cons c tail =>
      simp only [readOffset?, Bool.or_eq_true, beq_iff_eq] at read
      split at read
      · rename_i letter
        cases read
        exact ⟨[c], .universal letter, rfl⟩
      · split at read
        · rename_i sign
          simp only [Option.bind_eq_bind, Option.bind_eq_some_iff, Prod.exists,
            readDigits?_eq_some_iff, readChar?_eq_some_iff, Option.guard_eq_some',
            Bool.and_eq_true, decide_eq_true_eq] at read
          obtain ⟨hours, _, ⟨hs, hour, rfl⟩, _, rfl, minutes, _, ⟨ms, minute, rfl⟩, _,
            ⟨day, hourly⟩, same⟩ := read
          by_cases plus : c = '+'
          · subst plus
            cases same
            exact ⟨_, .ahead hour day minute hourly, by simp⟩
          · rw [if_neg plus] at same
            cases same
            have minus : c = '-' ∨ c = '\u2212' := by tauto
            exact ⟨_, .behind minus hour day minute hourly, by simp⟩
        · cases read
  · rintro ⟨os, text, rfl⟩
    cases text with
    | universal letter => rcases letter with rfl | rfl <;> rfl
    | ahead hour day minute hourly =>
      simp [readOffset?, hour.readDigits? le_rfl, minute.readDigits? le_rfl, readChar?, day, hourly,
        guard]
    | behind minus hour day minute hourly =>
      rcases minus with rfl | rfl <;>
        simp [readOffset?, hour.readDigits? le_rfl, minute.readDigits? le_rfl, readChar?, day,
          hourly, guard]

/-! ### Time stamps -/

/-- A date with four digits of the year and two of month and day. -/
inductive DateText : Date → List Char → Prop where
  | intro {year month day : ℕ} {ys ms ds : List Char} (years : Numeral 4 year ys)
      (months : Numeral 2 month ms) (days : Numeral 2 day ds) :
      DateText ⟨year, month, day⟩ (ys ++ '-' :: (ms ++ '-' :: ds))

/-- A time of day with two digits of hour, minute and second. -/
inductive ClockText : ℕ → ℕ → ℕ → List Char → Prop where
  | intro {hour minute second : ℕ} {hs ms ss : List Char} (hours : Numeral 2 hour hs)
      (minutes : Numeral 2 minute ms) (seconds : Numeral 2 second ss) :
      ClockText hour minute second (hs ++ ':' :: (ms ++ ':' :: ss))

/-- A local date and time with the offset of the local time from universal time in seconds. -/
structure TimeStamp where
  date : Date
  hour : ℕ
  minute : ℕ
  second : ℕ
  /-- The part of the second that has passed. -/
  fraction : ℚ
  offset : ℤ

namespace TimeStamp

/-- The text gives the fields of the time stamp. -/
inductive Spells : TimeStamp → List Char → Prop where
  | intro {st : TimeStamp} {days clock fs os : List Char} {separator : Char}
      (date : DateText st.date days) (between : Separates separator)
      (time : ClockText st.hour st.minute st.second clock) (fraction : FractionText st.fraction fs)
      (offset : OffsetText st.offset os) :
      Spells st (days ++ separator :: (clock ++ (fs ++ os)))

/-- The milliseconds from the start of day 0 to the time stamp. -/
def millis (st : TimeStamp) : ℚ :=
  ((st.date.toDay * 86400 + st.hour * 3600 + st.minute * 60 + st.second - st.offset : ℤ) +
    st.fraction) * 1000

/-- The instant of the time stamp, in whole nanoseconds, if its fields exist. -/
def instant? (st : TimeStamp) : Option Instant :=
  Instant.ofLocal? st.date st.hour st.minute st.second ⌊st.fraction * 10 ^ 9⌋₊ st.offset

end TimeStamp

section
variable {date : Date} {hour minute second : ℕ} {days clock rest : List Char} {separator : Char}

/-- The full form from its fraction on. -/
theorem readStamp?_of_texts (dated : DateText date days) (between : Separates separator)
    (timed : ClockText hour minute second clock) (rest : List Char) :
    readStamp? (days ++ separator :: (clock ++ rest)) =
      (readFraction? rest).bind fun (nano, rest) =>
        (readOffset? (readChar? ':') rest).bind fun (offset, rest) =>
          Option.bind (guard rest.isEmpty) fun _ =>
            Instant.ofLocal? date hour minute second nano offset := by
  obtain ⟨years, months, days⟩ := dated
  obtain ⟨hours, minutes, seconds⟩ := timed
  simp only [List.append_assoc, List.cons_append]
  rw [readStamp?]
  refine (years.bind_readDigits? _ _).trans ?_
  refine (bind_readChar? _ _ _).trans ?_
  refine (months.bind_readDigits? _ _).trans ?_
  refine (bind_readChar? _ _ _).trans ?_
  refine (days.bind_readDigits? _ _).trans ?_
  refine (between.bind_readSeparator? _ _).trans ?_
  refine (hours.bind_readDigits? _ _).trans ?_
  refine (bind_readChar? _ _ _).trans ?_
  refine (minutes.bind_readDigits? _ _).trans ?_
  refine (bind_readChar? _ _ _).trans ?_
  exact seconds.bind_readDigits? _ _

/-! ### Dates and times without offset -/

theorem isBlank_of_isDigit {c : Char} (digit : c.isDigit = true) : Text.isBlank c = false := by
  have range := Char.isDigit_iff_toNat.mp digit
  simp only [Char.reduceToNat] at range
  rw [Bool.eq_false_iff, ne_eq]
  simp only [Text.isBlank, Bool.or_eq_true, Bool.and_eq_true, decide_eq_true_eq, beq_iff_eq]
  omega

/-- No blanks stand before a numeral. -/
theorem Numeral.trimLeft {width n : ℕ} {ds : List Char} (numeral : Numeral width n ds)
    (positive : 0 < width) (rest : List Char) : Text.trimLeft (ds ++ rest) = ds ++ rest := by
  obtain ⟨c, tail, rfl, digit⟩ := numeral.exists_cons positive
  rw [Text.trimLeft, List.cons_append, List.dropWhile_cons_of_neg]
  simp [isBlank_of_isDigit digit]

theorem Numeral.bind_readPart? {α : Type} {n : ℕ} {ds : List Char} (numeral : Numeral 2 n ds)
    (rest : List Char) (f : ℕ × List Char → Option α) :
    (readPart? (ds ++ rest)).bind f = f (n, rest) := by
  rw [readPart?, numeral.trimLeft (by norm_num), numeral.readDigits? (by norm_num),
    Option.bind_some]

theorem Numeral.bind_readYear? {α : Type} {n : ℕ} {ds : List Char} (numeral : Numeral 4 n ds)
    (rest : List Char) (f : ℤ × List Char → Option α) :
    (readYear? (ds ++ rest)).bind f = f (n, rest) := by
  have read : Calendar.readDigits? 1 4 (ds ++ rest) = some (n, rest) :=
    numeral.readDigits? (by norm_num) rest
  obtain ⟨c, tail, rfl, digit⟩ := numeral.exists_cons (by norm_num)
  rw [readYear?, numeral.trimLeft (by norm_num)]
  split
  · rename_i same
    obtain rfl : c = '-' := (List.cons.inj same).1
    cases digit
  · rename_i same
    obtain rfl : c = '+' := (List.cons.inj same).1
    cases digit
  · rw [read]
    rfl

theorem DateText.bind_readDate? {α : Type} (dated : DateText date days) (rest : List Char)
    (f : Date × List Char → Option α) : (readDate? id (days ++ rest)).bind f = f (date, rest) := by
  suffices read : readDate? id (days ++ rest) = some (date, rest) by rw [read, Option.bind_some]
  obtain ⟨years, months, days⟩ := dated
  simp only [List.append_assoc, List.cons_append]
  rw [readDate?]
  refine (years.bind_readYear? _ _).trans ?_
  refine (bind_readChar? _ _ _).trans ?_
  refine (months.bind_readPart? _ _).trans ?_
  refine (bind_readChar? _ _ _).trans ?_
  exact days.bind_readPart? _ _

theorem ClockText.bind_readTime? {α : Type} (timed : ClockText hour minute second clock)
    (rest : List Char) (f : ℕ × ℕ × ℕ × List Char → Option α) :
    (readTime? id (clock ++ rest)).bind f = f (hour, minute, second, rest) := by
  suffices read : readTime? id (clock ++ rest) = some (hour, minute, second, rest) by
    rw [read, Option.bind_some]
  obtain ⟨hours, minutes, seconds⟩ := timed
  simp only [List.append_assoc, List.cons_append]
  rw [readTime?]
  refine (hours.bind_readPart? _ _).trans ?_
  refine (bind_readChar? _ _ _).trans ?_
  refine (minutes.bind_readPart? _ _).trans ?_
  refine (bind_readChar? _ _ _).trans ?_
  exact seconds.bind_readPart? _ _

/-- A date and time without offset ends with its seconds and has no letter between its parts. -/
theorem readDateTime?_of_texts (dated : DateText date days) (between : Separates separator)
    (timed : ClockText hour minute second clock) (rest : List Char) :
    readDateTime? (days ++ separator :: (clock ++ rest)) =
      if separator = ' ' ∧ rest = [] then Instant.ofLocal? date hour minute second 0 0
      else none := by
  rw [readDateTime?]
  refine (dated.bind_readDate? _ _).trans ?_
  have apart : Text.trimLeft (clock ++ rest) = clock ++ rest := by
    obtain ⟨hours, -, -⟩ := timed
    rw [List.append_assoc]
    exact hours.trimLeft (by norm_num) _
  rcases between with rfl | rfl | rfl
  · rfl
  · rfl
  · have blank : Text.trimLeft (' ' :: (clock ++ rest)) = clock ++ rest :=
      (List.dropWhile_cons_of_pos (by decide)).trans apart
    dsimp only
    rw [blank]
    refine (timed.bind_readTime? _ _).trans ?_
    cases rest <;> rfl

/-- Nothing follows a date alone. -/
theorem readDay?_of_texts (dated : DateText date days) (c : Char) (rest : List Char) :
    readDay? (days ++ c :: rest) = none := by
  rw [readDay?]
  exact dated.bind_readDate? _ _

/-- A text of date and time without offset is read as its fields say, in universal time. -/
theorem read?_plain (dated : DateText date days) (timed : ClockText hour minute second clock) :
    read? (String.ofList (days ++ ' ' :: clock)) =
      Instant.ofLocal? date hour minute second 0 0 := by
  have between : Separates ' ' := .inr (.inr rfl)
  have full : readStamp? (days ++ ' ' :: (clock ++ [])) = none :=
    readStamp?_of_texts dated between timed []
  have plain := readDateTime?_of_texts dated between timed []
  rw [if_pos ⟨rfl, rfl⟩] at plain
  rw [List.append_nil] at full plain
  simp [read?, String.toList_ofList, full, plain, readDay?_of_texts dated]

end

/-! ### Reading time stamps -/

namespace TimeStamp
variable {st : TimeStamp} {cs : List Char}

theorem Spells.readStamp? (spelled : st.Spells cs) : readStamp? cs = st.instant? := by
  obtain ⟨dated, between, timed, fraction, offset⟩ := spelled
  rename_i os _
  have ends : ∀ c ∈ os.head?, c.isDigit = false ∧ c ≠ '.' := by
    obtain ⟨c, rest, rfl, plain⟩ := offset.exists_cons
    intro d first
    obtain rfl : c = d := Option.some.inj first
    exact plain
  have offsetRead : readOffset? (readChar? ':') os = some (st.offset, []) :=
    readOffset?_eq_some_iff.mpr ⟨os, offset, (List.append_nil os).symm⟩
  rw [readStamp?_of_texts dated between timed, fraction.readFraction? ends, Option.bind_some]
  dsimp only
  rw [offsetRead]
  rfl

/-- No other form takes the text of a time stamp. -/
theorem read?_of_spells {s : String} (spelled : st.Spells s.toList) : read? s = st.instant? := by
  have full := spelled.readStamp?
  rw [read?]
  generalize s.toList = cs at spelled full
  obtain ⟨dated, between, timed, fraction, offset⟩ := spelled
  obtain ⟨c, rest, rfl, -⟩ := offset.exists_cons
  rw [full, readDateTime?_of_texts dated between timed, readDay?_of_texts dated, if_neg]
  · simp
  · simp

end TimeStamp

/-- A text is read as a full time stamp if and only if it spells one whose fields exist. -/
theorem readStamp?_eq_some_iff {cs : List Char} {t : Instant} :
    readStamp? cs = some t ↔ ∃ st : TimeStamp, st.Spells cs ∧ st.instant? = some t := by
  constructor
  · intro read
    -- each step of the reader gives the piece that stood in front and reads on behind it
    obtain ⟨year, ys, _, years, rfl, fromYear⟩ := exists_numeral read
    obtain ⟨_, rfl, fromHyphen⟩ := exists_char fromYear
    obtain ⟨month, ms, _, months, rfl, fromMonth⟩ := exists_numeral fromHyphen
    obtain ⟨_, rfl, fromHyphen'⟩ := exists_char fromMonth
    obtain ⟨day, ds, _, days, rfl, fromDay⟩ := exists_numeral fromHyphen'
    obtain ⟨separator, _, between, rfl, fromDate⟩ := exists_separator fromDay
    obtain ⟨hour, hs, _, hours, rfl, fromHour⟩ := exists_numeral fromDate
    obtain ⟨_, rfl, fromColon⟩ := exists_char fromHour
    obtain ⟨minute, mis, _, minutes, rfl, fromMinute⟩ := exists_numeral fromColon
    obtain ⟨_, rfl, fromColon'⟩ := exists_char fromMinute
    obtain ⟨second, ss, _, seconds, rfl, fromSecond⟩ := exists_numeral fromColon'
    obtain ⟨⟨nano, _⟩, fractionRead, fromFraction⟩ := Option.bind_eq_some_iff.mp fromSecond
    obtain ⟨fraction, fs, fractionText, rfl, rfl⟩ := exists_fractionText fractionRead
    obtain ⟨⟨offset, _⟩, offsetRead, fromOffset⟩ := Option.bind_eq_some_iff.mp fromFraction
    obtain ⟨os, offsetText, rfl⟩ := readOffset?_eq_some_iff.mp offsetRead
    obtain ⟨_, ended, located⟩ := Option.bind_eq_some_iff.mp fromOffset
    obtain rfl := List.isEmpty_iff.mp ((Option.guard_eq_some' _).mp ended)
    let st : TimeStamp := ⟨⟨year, month, day⟩, hour, minute, second, fraction, offset⟩
    have spelled : st.Spells _ := .intro (.intro years months days) between
      (.intro hours minutes seconds) fractionText offsetText
    refine ⟨st, ?_, located⟩
    simpa using spelled
  · rintro ⟨st, spelled, exists'⟩
    rw [spelled.readStamp?, exists']

/-! ### Located instants -/

namespace Instant

/-- A local date and time is an instant if its fields exist and the instant is on a day in range. -/
structure Locates (date : Date) (hour minute second nano : ℕ) (offset : ℤ) (t : Instant) :
    Prop where
  dated : date.valid = true
  start : inRange date.toDay = true
  hours : hour < 24
  minutes : minute < 60
  seconds : second ≤ 60
  day : inRange t.day = true
  below : t.second < 86400
  time : t.day * 86400 + t.second =
    date.toDay * 86400 + hour * 3600 + minute * 60 + min second 59 - offset
  nanos : t.nano = if second = 60 then nano + 1000000000 else nano

theorem ofLocal?_eq_some_iff {date : Date} {hour minute second nano : ℕ} {offset : ℤ}
    {t : Instant} :
    ofLocal? date hour minute second nano offset = some t ↔
      Locates date hour minute second nano offset t := by
  simp only [ofLocal?, secondsPerDay, nanosPerSecond, Nat.cast_ofNat, Option.ite_none_right_eq_some,
    Bool.and_eq_true, decide_eq_true_eq, beq_iff_eq, Option.some.injEq]
  constructor
  · rintro ⟨⟨⟨⟨⟨valid, start⟩, hours⟩, minutes⟩, seconds⟩, day, rfl⟩
    exact ⟨valid, start, hours, minutes, seconds, day, by dsimp only; omega,
      by dsimp only; push_cast; omega, rfl⟩
  · rintro ⟨valid, start, hours, minutes, seconds, day, below, time, nanos⟩
    have same : (date.toDay * 86400 + (hour * 3600 + minute * 60 + min second 59 : ℕ) - offset) /
        86400 = t.day := by
      omega
    rw [same]
    refine ⟨⟨⟨⟨⟨valid, start⟩, hours⟩, minutes⟩, seconds⟩, day, ?_⟩
    obtain ⟨d, s, n⟩ := t
    dsimp only at below time nanos
    rw [mk.injEq]
    exact ⟨rfl, by omega, nanos.symm⟩

end Instant

/-- The fraction is a part of a second. -/
theorem FractionText.bounds {x : ℚ} {fs : List Char} (fraction : FractionText x fs) :
    0 ≤ x ∧ x < 1 := by
  cases fraction with
  | none => exact ⟨le_rfl, one_pos⟩
  | @point ds _ digits =>
    have power : (0 : ℚ) < 10 ^ ds.length := by positivity
    refine ⟨by positivity, (div_lt_one power).mpr ?_⟩
    exact_mod_cast Decimal.digitsValue_lt digits

/-- Where the second is no leap second, the milliseconds of the instant are those of the time stamp,
rounded down, and the nanoseconds stay below a second. -/
theorem TimeStamp.epochMillis_eq {st : TimeStamp} {cs : List Char} (spelled : st.Spells cs)
    {t : Instant} (located : st.instant? = some t) (plain : st.second ≠ 60) :
    t.epochMillis = ⌊st.millis⌋ ∧ t.nano < 1000000000 := by
  obtain ⟨-, -, -, fraction, -⟩ := spelled
  obtain ⟨nonneg, below⟩ := fraction.bounds
  have locates := Instant.ofLocal?_eq_some_iff.mp located
  have nanos : t.nano = ⌊st.fraction * 10 ^ 9⌋₊ := by rw [locates.nanos, if_neg plain]
  have seconds := locates.seconds
  have time : t.day * 86400 + t.second = st.date.toDay * 86400 + st.hour * 3600 +
      st.minute * 60 + st.second - st.offset := by
    have time := locates.time
    omega
  have millis : t.nano / 1000000 = ⌊st.fraction * 1000⌋₊ := by
    have cut := Nat.floor_div_natCast (st.fraction * 10 ^ 9) 1000000
    rw [nanos, ← cut]
    congr 1
    push_cast
    ring
  constructor
  · have apart : st.millis = ((t.day * 86400 + t.second) * 1000 : ℤ) + st.fraction * 1000 := by
      rw [TimeStamp.millis, ← time]
      push_cast
      ring
    rw [apart, Int.floor_intCast_add, ← Int.natCast_floor_eq_floor (by positivity), ← millis]
    rfl
  · rw [nanos, Nat.floor_lt (by positivity)]
    push_cast
    linarith

end RecordQuery.Calendar
