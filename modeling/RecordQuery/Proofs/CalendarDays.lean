import RecordQuery.Calendar.Date
import Mathlib.Algebra.BigOperators.Group.List.Basic
import Mathlib.Algebra.GroupWithZero.Nat

/-!
The numbering of dates. Each day falls in one year (`yearOf_eq_iff`) and has one date, which exists
and has the number of the day (`Date.valid_ofDay`, `Date.toDay_ofDay`), and each date that exists is
the date of its number (`Date.ofDay_toDay`). So the date of the next day is the next date of the
calendar (`Date.ofDay_add_one`): the numbering is the count of days from 1970-01-01 on and back.
-/
namespace RecordQuery.Calendar

/-! ### Years -/

/-- A year ends after 365 or 366 days. -/
theorem firstDay_add_one (year : Int) :
    firstDay (year + 1) = firstDay year + if isLeap year then 366 else 365 := by
  simp only [firstDay, isLeap, Bool.and_eq_true, Bool.or_eq_true, beq_iff_eq, bne_iff_ne]
  split <;> omega

/-- The years before a year have their mean length, up to less than two days. -/
theorem firstDay_bounds (year : Int) :
    146097 * (year - 1) - 591 ≤ 400 * (firstDay year + 719162) ∧
      400 * (firstDay year + 719162) ≤ 146097 * (year - 1) + 288 := by
  simp only [firstDay]
  omega

theorem firstDay_mono {earlier later : Int} (order : earlier ≤ later) :
    firstDay earlier ≤ firstDay later := by
  have first := firstDay_bounds earlier
  have second := firstDay_bounds later
  rcases Int.le_iff_lt_or_eq.mp order with before | rfl
  · omega
  · exact Int.le_refl _

theorem yearOf_bounds (day : Int) :
    firstDay (yearOf day) ≤ day ∧ day < firstDay (yearOf day + 1) := by
  simp only [yearOf]
  generalize estimate : (day + 719162) * 400 / 146097 + 1 = guess
  have here := firstDay_bounds guess
  have next := firstDay_add_one guess
  have second := firstDay_add_one (guess + 1)
  -- the years before the estimate are longer than their mean by less than a day: it is never late
  rw [if_neg (by omega)]
  by_cases early : firstDay (guess + 1) ≤ day
  · rw [if_pos early]
    refine ⟨early, ?_⟩
    rw [second, next]
    split <;> split <;> omega
  · rw [if_neg early]
    exact ⟨by omega, by omega⟩

/-- A day falls in the year between whose first day and the next it lies. -/
theorem yearOf_eq_iff (day year : Int) :
    yearOf day = year ↔ firstDay year ≤ day ∧ day < firstDay (year + 1) := by
  constructor
  · rintro rfl
    exact yearOf_bounds day
  · rintro ⟨from', until'⟩
    obtain ⟨first, last⟩ := yearOf_bounds day
    by_contra other
    rcases Int.lt_or_gt_of_ne other with before | behind
    · have early := firstDay_mono (Int.add_one_le_of_lt before)
      omega
    · have late := firstDay_mono (Int.add_one_le_of_lt behind)
      omega

/-! ### Months -/

/-- The months of a year make up its days. -/
theorem firstDay_add_sum (year : Int) :
    firstDay (year + 1) = firstDay year + (monthLengths year).sum := by
  rw [firstDay_add_one]
  cases leap : isLeap year <;> simp [monthLengths, leap]

theorem sum_take_month {year : Int} {i length : Nat}
    (there : (monthLengths year)[i]? = some length) :
    ((monthLengths year).take (i + 1)).sum = ((monthLengths year).take i).sum + length := by
  obtain ⟨bound, rfl⟩ := List.getElem?_eq_some_iff.mp there
  exact List.sum_take_succ _ i bound

theorem sum_take_le (year : Int) (i : Nat) :
    ((monthLengths year).take i).sum ≤ (monthLengths year).sum := by
  have parts := List.sum_take_add_sum_drop (monthLengths year) i
  omega

theorem monthLengths_bounds {year : Int} {length : Nat} (member : length ∈ monthLengths year) :
    0 < length ∧ length ≤ 31 := by
  cases leap : isLeap year <;> simp [monthLengths, leap] at member <;> omega

/-- A day of the year falls in the month before whose end it lies, on the day of the month that is
counted from the end of the months before. -/
theorem splitMonth_eq {lengths : List Nat} {i length past : Nat} (there : lengths[i]? = some length)
    (start : (lengths.take i).sum ≤ past) (stop : past < (lengths.take i).sum + length)
    (month : Nat) :
    splitMonth lengths month past = (month + i, past - (lengths.take i).sum + 1) := by
  induction lengths generalizing i month past with
  | nil => simp at there
  | cons first rest ih =>
    cases i with
    | zero =>
      obtain rfl : first = length := by simpa using there
      have here : past < first := by simpa using stop
      simp [splitMonth, here]
    | succ i =>
      rw [List.take_succ_cons, List.sum_cons] at start stop ⊢
      have later : ¬ past < first := by omega
      rw [splitMonth, if_neg later, ih (by simpa using there) (by omega) (by omega)]
      exact Prod.ext (by omega) (by omega)

/-- Each day of a year falls in one of its months. -/
theorem exists_month {lengths : List Nat} {past : Nat} (inside : past < lengths.sum) :
    ∃ i length, lengths[i]? = some length ∧ (lengths.take i).sum ≤ past ∧
      past < (lengths.take i).sum + length := by
  induction lengths generalizing past with
  | nil => simp at inside
  | cons first rest ih =>
    by_cases here : past < first
    · exact ⟨0, first, rfl, Nat.zero_le _, by simpa using here⟩
    · rw [List.sum_cons] at inside
      obtain ⟨i, length, there, start, stop⟩ := @ih (past - first) (by omega)
      refine ⟨i + 1, length, there, ?_, ?_⟩ <;> rw [List.take_succ_cons, List.sum_cons] <;> omega

namespace Date

/-! ### The date of a day and the day of a date -/

theorem valid_iff (date : Date) :
    date.valid = true ↔ ∃ i length, date.month = i + 1 ∧
      (monthLengths date.year)[i]? = some length ∧ 1 ≤ date.day ∧ date.day ≤ length := by
  obtain ⟨year, month, day⟩ := date
  cases month with
  | zero => simp [valid]
  | succ i => cases there : (monthLengths year)[i]? <;> simp [valid, there]

/-- Months and days have two digits. -/
theorem bounds_of_valid {date : Date} (valid : date.valid = true) :
    date.month ≤ 12 ∧ date.day ≤ 31 := by
  obtain ⟨i, length, month, there, -, last⟩ := (valid_iff _).mp valid
  obtain ⟨bound, rfl⟩ := List.getElem?_eq_some_iff.mp there
  have twelve : i < 12 := bound
  have long := (monthLengths_bounds (List.getElem_mem bound)).2
  omega

theorem toDay_mk (year : Int) (i day : Nat) :
    toDay ⟨year, i + 1, day⟩ = firstDay year + ((monthLengths year).take i).sum + day - 1 := by
  rw [toDay, daysBefore, Nat.add_sub_cancel, List.sum_eq_foldl]

/-- A date that exists is the date of its number. -/
theorem ofDay_toDay {date : Date} (valid : date.valid = true) : ofDay date.toDay = date := by
  obtain ⟨year, month, day⟩ := date
  obtain ⟨i, length, rfl, there, first, last⟩ := (valid_iff _).mp valid
  dsimp only at there first last
  have whole : ((monthLengths year).take i).sum + length ≤ (monthLengths year).sum :=
    (sum_take_month there).symm.trans_le (sum_take_le year _)
  have number := toDay_mk year i day
  have same : yearOf (toDay ⟨year, i + 1, day⟩) = year := by
    rw [yearOf_eq_iff, number, firstDay_add_sum]
    omega
  have past : (toDay ⟨year, i + 1, day⟩ - firstDay year).toNat =
      ((monthLengths year).take i).sum + (day - 1) := by
    omega
  have start : ((monthLengths year).take i).sum ≤ ((monthLengths year).take i).sum + (day - 1) :=
    Nat.le_add_right _ _
  have split := splitMonth_eq there start (by omega) 1
  rw [ofDay, same]
  dsimp only
  rw [past, split, mk.injEq]
  omega

/-- The date of a day exists and has its number. -/
theorem valid_ofDay_and_toDay_ofDay (day : Int) :
    (ofDay day).valid = true ∧ (ofDay day).toDay = day := by
  obtain ⟨first, last⟩ := yearOf_bounds day
  generalize year_eq : yearOf day = year at first last
  rw [firstDay_add_sum] at last
  have inside : (day - firstDay year).toNat < (monthLengths year).sum := by omega
  obtain ⟨i, length, there, start, stop⟩ := exists_month inside
  have date : ofDay day =
      ⟨year, i + 1, (day - firstDay year).toNat - ((monthLengths year).take i).sum + 1⟩ := by
    rw [ofDay, year_eq]
    dsimp only
    rw [splitMonth_eq there start stop, Nat.add_comm 1 i]
  rw [date]
  constructor
  · rw [valid_iff]
    exact ⟨i, length, rfl, there, Nat.le_add_left 1 _, by dsimp only; omega⟩
  · rw [toDay_mk]
    omega

theorem valid_ofDay (day : Int) : (ofDay day).valid = true := (valid_ofDay_and_toDay_ofDay day).1

theorem toDay_ofDay (day : Int) : (ofDay day).toDay = day := (valid_ofDay_and_toDay_ofDay day).2

/-! ### The next day -/

/-- The date after a date: the next day of its month, or the first of the next month, or the first
of the next year. -/
def next (date : Date) : Date :=
  if date.day < (monthLengths date.year).getD (date.month - 1) 0 then
    { date with day := date.day + 1 }
  else if date.month < 12 then ⟨date.year, date.month + 1, 1⟩
  else ⟨date.year + 1, 1, 1⟩

/-- The date after one that exists is the date of the next number. -/
theorem ofDay_toDay_add_one {date : Date} (valid : date.valid = true) :
    ofDay (date.toDay + 1) = date.next := by
  obtain ⟨year, month, day⟩ := date
  obtain ⟨i, length, rfl, there, first, last⟩ := (valid_iff _).mp valid
  dsimp only at there first last
  have long : (monthLengths year).getD i 0 = length := by
    rw [List.getD_eq_getElem?_getD, there, Option.getD_some]
  -- it suffices that the next date exists and has the next number
  suffices later : (next ⟨year, i + 1, day⟩).valid = true ∧
      (next ⟨year, i + 1, day⟩).toDay = toDay ⟨year, i + 1, day⟩ + 1 by
    rw [← later.2, ofDay_toDay later.1]
  simp only [next, Nat.add_sub_cancel, long]
  by_cases within : day < length
  · rw [if_pos within, valid_iff, toDay_mk, toDay_mk]
    exact ⟨⟨i, length, rfl, there, Nat.le_add_left 1 _, within⟩, by omega⟩
  · have full := sum_take_month there
    rw [if_neg within]
    by_cases more : i + 1 < 12
    · obtain ⟨later, month⟩ : ∃ later, (monthLengths year)[i + 1]? = some later :=
        ⟨_, List.getElem?_eq_getElem more⟩
      have some := (monthLengths_bounds (List.mem_of_getElem? month)).1
      rw [if_pos more, valid_iff, toDay_mk, toDay_mk]
      exact ⟨⟨i + 1, later, rfl, month, Nat.le_refl 1, some⟩, by omega⟩
    · have bound : i < 12 := (List.getElem?_eq_some_iff.mp there).1
      obtain rfl : i = 11 := by omega
      have whole : ((monthLengths year).take (11 + 1)).sum = (monthLengths year).sum := rfl
      rw [if_neg more, valid_iff, toDay_mk, toDay_mk, firstDay_add_sum]
      refine ⟨⟨0, 31, rfl, rfl, Nat.le_refl 1, Nat.le_add_left 1 30⟩, ?_⟩
      rw [List.take_zero, List.sum_nil]
      omega

/-- Days follow each other as dates do. -/
theorem ofDay_add_one (day : Int) : ofDay (day + 1) = (ofDay day).next := by
  rw [← ofDay_toDay_add_one (valid_ofDay day), toDay_ofDay]

example : ofDay 0 = ⟨1970, 1, 1⟩ := by decide

end Date
end RecordQuery.Calendar
