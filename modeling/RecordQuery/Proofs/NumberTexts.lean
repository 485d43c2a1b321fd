import RecordQuery.Decimal.Reading
import RecordQuery.Json.Printer
import RecordQuery.Proofs.ShortestDecimals
import Mathlib.Data.List.Induction
import Mathlib.Data.List.TakeWhile

/-!
The texts of numbers. What is laid out reads as the number that its digits stand for
(`Decimal.Layout.denotes_write`), so the text of a double stands for a number in the rounding
interval of this double, and no other double has that number in its interval. Texts of integers are
told from texts of doubles by their characters: only these have a point or an exponent. So different
numbers have different texts (`Number.text_injective`).
-/
namespace RecordQuery
namespace Decimal

/-! ### Reading what is laid out -/

theorem digitsValue_append (front back : List Char) :
    digitsValue (front ++ back) = digitsValue front * 10 ^ back.length + digitsValue back := by
  induction back using List.reverseRecOn with
  | nil => simp [digitsValue]
  | append_singleton back c ih =>
    have last : ∀ cs, digitsValue (cs ++ [c]) = 10 * digitsValue cs + (c.toNat - '0'.toNat) := by
      intro cs
      rw [digitsValue, List.foldl_append]
      rfl
    rw [← List.append_assoc, last, last, ih, List.length_append, List.length_singleton, pow_succ]
    ring

theorem digitsValue_append_zeros (ds : List Char) (n : ℕ) :
    digitsValue (ds ++ List.replicate n '0') = digitsValue ds * 10 ^ n := by
  rw [digitsValue, ← Nat.ofDigitChars_eq_foldl, Nat.ofDigitChars_append,
    Nat.ofDigitChars_replicate_zero, Nat.mul_comm]
  rfl

theorem digitsValue_zeros_append (n : ℕ) (ds : List Char) :
    digitsValue (List.replicate n '0' ++ ds) = digitsValue ds := by
  rw [digitsValue, ← Nat.ofDigitChars_eq_foldl, Nat.ofDigitChars_append,
    Nat.ofDigitChars_replicate_zero, Nat.mul_zero]
  rfl

theorem digitsValue_lt {ds : List Char} (digits : ∀ c ∈ ds, c.isDigit = true) :
    digitsValue ds < 10 ^ ds.length := by
  induction ds with
  | nil => exact Nat.one_pos
  | cons c rest ih =>
    have below := ih fun d member => digits d (List.mem_cons_of_mem _ member)
    have digit : digitsValue [c] ≤ 9 := by
      have range := Char.isDigit_iff_toNat.mp (digits c (List.mem_cons_self ..))
      simp only [Char.reduceToNat] at range
      simp only [digitsValue, List.foldl_cons, List.foldl_nil, Char.reduceToNat]
      omega
    calc digitsValue (c :: rest)
        = digitsValue [c] * 10 ^ rest.length + digitsValue rest := digitsValue_append [c] rest
      _ < 9 * 10 ^ rest.length + 10 ^ rest.length :=
          Nat.add_lt_add_of_le_of_lt (Nat.mul_le_mul_right _ digit) below
      _ = 10 ^ (c :: rest).length := by rw [List.length_cons, pow_succ]; ring

theorem digitsValue_toDigits (n : ℕ) : digitsValue (Nat.toDigits 10 n) = n :=
  Nat.ofDigitChars_toDigits (by norm_num) (by norm_num)

/-- What has a property up to where a text ends is told from what stands behind it. -/
theorem span_of_ends {p : Char → Bool} {front rest : List Char} (all : ∀ c ∈ front, p c = true)
    (ends : ∀ c ∈ rest.head?, p c = false) :
    (front ++ rest).takeWhile p = front ∧ (front ++ rest).dropWhile p = rest := by
  rw [List.takeWhile_append_of_pos all, List.dropWhile_append_of_pos all]
  cases rest with
  | nil => simp
  | cons c cs =>
    have stop : ¬ p c = true := by simp [ends c rfl]
    rw [List.takeWhile_cons_of_neg stop, List.dropWhile_cons_of_neg stop, List.append_nil]
    exact ⟨rfl, rfl⟩

theorem append_inj_of_ends {p : Char → Bool} {front front' rest rest' : List Char}
    (all : ∀ c ∈ front, p c = true) (all' : ∀ c ∈ front', p c = true)
    (ends : ∀ c ∈ rest.head?, p c = false) (ends' : ∀ c ∈ rest'.head?, p c = false)
    (same : front ++ rest = front' ++ rest') : front = front' ∧ rest = rest' := by
  obtain ⟨taken, dropped⟩ := span_of_ends all ends
  rw [same, (span_of_ends all' ends').1] at taken
  rw [same, (span_of_ends all' ends').2] at dropped
  exact ⟨taken.symm, dropped.symm⟩

section
variable {ds whole fraction rest tail : List Char} {e : ℤ}

theorem spanDigits_of_digits (ds rest : List Char) (digits : ∀ c ∈ ds, c.isDigit = true)
    (ends : ∀ c ∈ rest.head?, c.isDigit = false) : spanDigits (ds ++ rest) = (ds, rest) := by
  obtain ⟨front, behind⟩ := span_of_ends digits ends
  rw [spanDigits, front, behind]

theorem spanDigits_digits (digits : ∀ c ∈ ds, c.isDigit = true) : spanDigits ds = (ds, []) := by
  have whole := spanDigits_of_digits ds [] digits (by simp)
  rwa [List.append_nil] at whole

/-- An exponent begins with its letter. -/
theorem head_of_readExponent? (ends : readExponent? tail = some e) :
    ∀ c ∈ tail.head?, c = 'e' ∨ c = 'E' := by
  intro c first
  cases tail with
  | nil => cases first
  | cons c' rest =>
    obtain rfl : c' = c := Option.some.inj first
    by_contra other
    rw [readExponent?.eq_def] at ends
    simp [other] at ends

theorem readExponent?_toDigits (sign : Char) (signed : sign = '-' ∨ sign = '+') (n : ℕ) :
    readExponent? ('e' :: sign :: Nat.toDigits 10 n) =
      some (if sign = '-' then -(n : ℤ) else n) := by
  have digits : spanDigits (Nat.toDigits 10 n) = (Nat.toDigits 10 n, []) :=
    spanDigits_digits fun c => Nat.isDigit_of_mem_toDigits (by norm_num) (by norm_num)
  obtain ⟨first, rest, shape⟩ :=
    List.exists_cons_of_ne_nil (Nat.toDigits_ne_nil (n := n) (b := 10))
  rw [shape] at digits
  rcases signed with rfl | rfl
  · rw [readExponent?, if_pos (by decide), shape]
    simp only [digits]
    rw [← shape, digitsValue_toDigits]
  · rw [readExponent?, if_pos (by decide), shape]
    simp only [digits]
    rw [← shape, digitsValue_toDigits]
    rfl

/-- Text stands for a number if it is read as digits and an exponent that do. -/
def Denotes (cs : List Char) (x : ℚ) : Prop := ∃ d, decimal? cs = some d ∧ d.value = x

theorem Denotes.unique {cs : List Char} {x y : ℚ} (first : Denotes cs x) (second : Denotes cs y) :
    x = y := by
  obtain ⟨d, read, rfl⟩ := first
  obtain ⟨d', again, rfl⟩ := second
  rw [Option.some.inj (read.symm.trans again)]

/-- Digits with a point among them and an exponent behind. -/
theorem denotes_point (whole fraction tail : List Char) (nonempty : whole ≠ [])
    (digits : ∀ c ∈ whole ++ fraction, c.isDigit = true) (ends : readExponent? tail = some e) :
    Denotes (whole ++ '.' :: (fraction ++ tail))
      (digitsValue (whole ++ fraction) * 10 ^ (e - fraction.length)) := by
  have stop : ∀ c ∈ tail.head?, c.isDigit = false := by
    intro c first
    rcases head_of_readExponent? ends c first with rfl | rfl <;> decide
  have front := spanDigits_of_digits whole ('.' :: (fraction ++ tail))
    (fun c member => digits c (List.mem_append_left _ member)) (by simp)
  have back := spanDigits_of_digits fraction tail
    (fun c member => digits c (List.mem_append_right _ member)) stop
  refine ⟨⟨digitsValue (whole ++ fraction), e - fraction.length⟩, ?_, rfl⟩
  rw [decimal?, front]
  simp only [back]
  simp [nonempty, ends]

/-- Digits without a point and an exponent behind. -/
theorem denotes_whole (whole tail : List Char) (nonempty : whole ≠ [])
    (digits : ∀ c ∈ whole, c.isDigit = true)
    (ends : readExponent? tail = some e) :
    Denotes (whole ++ tail) (digitsValue whole * 10 ^ e) := by
  have stop : ∀ c ∈ tail.head?, c.isDigit = false := by
    intro c first
    rcases head_of_readExponent? ends c first with rfl | rfl <;> decide
  have front := spanDigits_of_digits whole tail digits stop
  refine ⟨⟨digitsValue whole, e⟩, ?_, rfl⟩
  rw [decimal?, front]
  dsimp only
  split
  · cases head_of_readExponent? ends '.' rfl with
    | inl other => cases other
    | inr other => cases other
  · simp [nonempty, ends]

end

section
variable {ds : List Char} (nonempty : ds ≠ []) (digits : ∀ c ∈ ds, c.isDigit = true)

include digits in
theorem isDigit_append_zeros (n : ℕ) : ∀ c ∈ ds ++ List.replicate n '0', c.isDigit = true := by
  intro c member
  rcases List.mem_append.mp member with own | zero
  · exact digits c own
  · rw [List.eq_of_mem_replicate zero]
    decide

include digits

/-- A number below one is written with zeros between the point and the digits. -/
theorem denotes_below_one (n : ℕ) :
    Denotes ('0' :: '.' :: (List.replicate n '0' ++ ds))
      (digitsValue ds * 10 ^ (-(n + ds.length : ℕ) : ℤ)) := by
  have padded : ∀ c ∈ ['0'] ++ (List.replicate n '0' ++ ds), c.isDigit = true := by
    intro c member
    rw [← List.append_assoc] at member
    rcases List.mem_append.mp member with zero | own
    · have first : ∀ c ∈ ['0'], c.isDigit = true := by simp
      exact isDigit_append_zeros first n c zero
    · exact digits c own
  have read := denotes_point ['0'] (List.replicate n '0' ++ ds) [] (e := 0) (by simp) padded rfl
  have same : digitsValue (['0'] ++ (List.replicate n '0' ++ ds)) = digitsValue ds :=
    digitsValue_zeros_append (n + 1) ds
  rw [same, List.append_nil, List.length_append, List.length_replicate, zero_sub] at read
  exact read

include nonempty

/-- Up to a place for the point, the digits are filled up with zeros. -/
theorem denotes_pointed {before : ℕ} (some : 0 < before) {padded : List Char}
    (filled : padded = ds ++ List.replicate (before - ds.length) '0') :
    Denotes (padded.take before ++ '.' ::
        (if (padded.drop before).isEmpty then ['0'] else padded.drop before))
      (digitsValue ds * 10 ^ ((before : ℤ) - ds.length)) := by
  by_cases long : before < ds.length
  · -- The point stands among the digits.
    obtain rfl : padded = ds := by simp [filled, Nat.sub_eq_zero_of_le long.le]
    have first : padded.take before ≠ [] := by
      simp only [ne_eq, List.take_eq_nil_iff, not_or]
      exact ⟨by omega, nonempty⟩
    have rest : (padded.drop before).isEmpty = false := by simpa using long
    have read := denotes_point (padded.take before) (padded.drop before) [] (e := 0) first
      (by rwa [List.take_append_drop]) rfl
    have behind : (0 : ℤ) - (padded.drop before).length = before - padded.length := by
      rw [List.length_drop]
      omega
    rw [List.take_append_drop, List.append_nil, behind] at read
    rw [rest]
    exact read
  · -- The digits end before the point, and a zero stands behind it.
    have size : padded.length = before := by
      rw [filled, List.length_append, List.length_replicate]
      omega
    have last : padded ++ ['0'] = ds ++ List.replicate (before - ds.length + 1) '0' := by
      rw [filled, List.append_assoc, List.replicate_succ']
    have read := denotes_point padded ['0'] [] (e := 0) (by simp [filled, nonempty])
      (by rw [last]; exact isDigit_append_zeros digits _) rfl
    have scaled : ((10 : ℚ) ^ (before - ds.length + 1)) * 10 ^ (0 - ([('0')].length : ℤ)) =
        10 ^ ((before : ℤ) - ds.length) := by
      rw [← zpow_natCast, ← zpow_add₀ (by norm_num)]
      congr 1
      simp
      omega
    rw [last, digitsValue_append_zeros, Nat.cast_mul, Nat.cast_pow, Nat.cast_ofNat, mul_assoc,
      scaled, List.append_nil] at read
    rw [List.drop_of_length_le size.le, List.take_of_length_le size.le]
    exact read

/-- Digits with one of them before the point, and an exponent. -/
theorem denotes_scientific (leading : ℤ) :
    Denotes (ds.take 1 ++ (if (ds.drop 1).isEmpty then [] else '.' :: ds.drop 1) ++
        'e' :: (if leading < 0 then '-' else '+') :: Nat.toDigits 10 leading.natAbs)
      (digitsValue ds * 10 ^ (leading + 1 - ds.length)) := by
  obtain ⟨first, rest, rfl⟩ := List.exists_cons_of_ne_nil nonempty
  have ends : readExponent?
      ('e' :: (if leading < 0 then '-' else '+') :: Nat.toDigits 10 leading.natAbs) =
        some leading := by
    by_cases negative : leading < 0
    · rw [if_pos negative, readExponent?_toDigits '-' (.inl rfl), if_pos rfl]
      congr 1
      omega
    · rw [if_neg negative, readExponent?_toDigits '+' (.inr rfl), if_neg (by decide)]
      congr 1
      omega
  have place : leading - (rest.length : ℤ) = leading + 1 - (first :: rest).length := by
    simp
  cases rest with
  | nil =>
    have read := denotes_whole [first] _ nonempty digits ends
    rw [← place]
    simpa using read
  | cons second more =>
    have read := denotes_point [first] (second :: more) _ (by simp) digits ends
    rw [place] at read
    simpa using read

theorem Layout.denotes_write {layout : Layout} (signed : layout.plus = "+") (leading : ℤ) :
    Denotes (layout.write ds leading).toList
      (digitsValue ds * 10 ^ (leading + 1 - ds.length)) := by
  rw [Layout.write]
  split
  · split
    · have read := denotes_below_one digits (-leading - 1).toNat
      have place : (-((-leading - 1).toNat + ds.length : ℕ) : ℤ) = leading + 1 - ds.length := by
        omega
      rw [place] at read
      simpa using read
    · have read := denotes_pointed nonempty digits (Nat.succ_pos leading.toNat) rfl
      have place : ((leading.toNat + 1 : ℕ) : ℤ) = leading + 1 := by omega
      rw [place] at read
      simpa using read
  · have read := denotes_scientific nonempty digits leading
    by_cases negative : leading < 0
    · simpa [negative, apply_ite String.toList] using read
    · simpa [negative, signed, apply_ite String.toList] using read

end

theorem Denotes.head_ne_minus {cs : List Char} {x : ℚ} (denotes : Denotes ('-' :: cs) x) :
    False := by
  obtain ⟨d, read, -⟩ := denotes
  have front : spanDigits ('-' :: cs) = ([], '-' :: cs) :=
    spanDigits_of_digits [] ('-' :: cs) (by simp) (by simp)
  rw [decimal?, front] at read
  simp at read

/-- Only zeros are missing at the end. -/
theorem stripZeros_append (ds : List Char) : ∃ n, ds = stripZeros ds ++ List.replicate n '0' := by
  refine ⟨(ds.reverse.takeWhile (· == '0')).length, ?_⟩
  have zeros : ds.reverse.takeWhile (· == '0') =
      List.replicate (ds.reverse.takeWhile (· == '0')).length '0' := by
    refine List.eq_replicate_of_mem fun c member => ?_
    simpa using List.mem_takeWhile_imp member
  calc ds = (ds.reverse.takeWhile (· == '0') ++ ds.reverse.dropWhile (· == '0')).reverse := by
        rw [List.takeWhile_append_dropWhile, List.reverse_reverse]
    _ = stripZeros ds ++ List.replicate (ds.reverse.takeWhile (· == '0')).length '0' := by
        rw [List.reverse_append, ← stripZeros, zeros, List.reverse_replicate, List.length_replicate]

/-- The number that the text of a double stands for, its sign apart. -/
def Parts.written (p : Parts) : ℚ := if p.mantissa = 0 then 0 else (shortest p).value

/-- The text of a double without its sign. -/
def Layout.unsigned (layout : Layout) (p : Parts) : String :=
  if p.mantissa = 0 then layout.write ['0'] 0
  else
    let digits := Nat.toDigits 10 (shortest p).digits
    layout.write (stripZeros digits) ((shortest p).exponent + digits.length - 1)

theorem Layout.text_eq (layout : Layout) (p : Parts) :
    layout.text p = (if p.negative then "-" else "") ++ layout.unsigned p := by
  rw [Layout.text, Layout.unsigned, apply_ite ((if p.negative then "-" else "") ++ ·)]

theorem isDigit_stripZeros (n : ℕ) : ∀ c ∈ stripZeros (Nat.toDigits 10 n), c.isDigit = true := by
  intro c member
  obtain ⟨zeros, stripped⟩ := stripZeros_append (Nat.toDigits 10 n)
  have listed : c ∈ Nat.toDigits 10 n := by
    rw [stripped]
    exact List.mem_append_left _ member
  exact Nat.isDigit_of_mem_toDigits (by norm_num) (by norm_num) listed

theorem Layout.denotes_unsigned {layout : Layout} (signed : layout.plus = "+") {p : Parts}
    (canonical : p.Canonical) : Denotes (layout.unsigned p).toList p.written := by
  rw [Layout.unsigned, Parts.written]
  by_cases zero : p.mantissa = 0
  · rw [if_pos zero, if_pos zero]
    have one : ∀ c ∈ ['0'], c.isDigit = true := by simp
    have read := Layout.denotes_write (List.cons_ne_nil _ _) one signed 0
    simpa [digitsValue] using read
  · rw [if_neg zero, if_neg zero]
    have inside := shortest_inside canonical (Nat.pos_of_ne_zero zero)
    have positive := Interval.pos_of_contains (Nat.pos_of_ne_zero zero) inside
    obtain ⟨found, same⟩ : ∃ found, found = shortest p := ⟨_, rfl⟩
    rw [← same] at positive ⊢
    obtain ⟨ds, digits⟩ : ∃ ds, ds = Nat.toDigits 10 found.digits := ⟨_, rfl⟩
    rw [← digits]
    obtain ⟨n, stripped⟩ := stripZeros_append ds
    have value : found.digits = digitsValue (stripZeros ds) * 10 ^ n := by
      rw [← digitsValue_append_zeros, ← stripped, digits, digitsValue_toDigits]
    have nonempty : stripZeros ds ≠ [] := by
      intro empty
      rw [empty] at value
      simp [Digits.value, value, digitsValue] at positive
    have all : ∀ c ∈ stripZeros ds, c.isDigit = true := by
      rw [digits]
      exact isDigit_stripZeros found.digits
    have size : ds.length = (stripZeros ds).length + n := by
      conv_lhs => rw [stripped, List.length_append, List.length_replicate]
    have place : found.exponent + ds.length - 1 + 1 - (stripZeros ds).length =
        n + found.exponent := by
      rw [size]
      push_cast
      ring
    have read := Layout.denotes_write nonempty all signed (found.exponent + ds.length - 1)
    have same : (digitsValue (stripZeros ds) : ℚ) * 10 ^ (n + found.exponent) = found.value := by
      rw [Digits.value, value, zpow_add₀ (by norm_num), zpow_natCast]
      push_cast
      ring
    rw [place, same] at read
    exact read

theorem Parts.written_pos {p : Parts} (canonical : p.Canonical) (positive : 0 < p.mantissa) :
    (Interval.ofParts p).Contains p.written ∧ 0 < p.written := by
  rw [written, if_neg positive.ne']
  have inside := shortest_inside canonical positive
  exact ⟨inside, Interval.pos_of_contains positive inside⟩

/-- Doubles that are not equal in size are written as different numbers. -/
theorem Parts.eq_of_written {p q : Parts} (first : p.Canonical) (second : q.Canonical)
    (same : p.written = q.written) : p.mantissa = q.mantissa ∧ p.shift = q.shift := by
  have zeroShift {p : Parts} (canonical : p.Canonical) (zero : p.mantissa = 0) : p.shift = 0 := by
    by_contra shifted
    have := canonical.normal (Nat.pos_of_ne_zero shifted)
    omega
  have zeroWritten {p : Parts} (zero : p.mantissa = 0) : p.written = 0 := by
    rw [written, if_pos zero]
  by_cases zero : p.mantissa = 0
  · by_cases also : q.mantissa = 0
    · exact ⟨zero.trans also.symm, (zeroShift first zero).trans (zeroShift second also).symm⟩
    · have := (Parts.written_pos second (Nat.pos_of_ne_zero also)).2
      rw [← same, zeroWritten zero] at this
      exact absurd this (lt_irrefl 0)
  · obtain ⟨inside, positive⟩ := Parts.written_pos first (Nat.pos_of_ne_zero zero)
    by_cases also : q.mantissa = 0
    · rw [same, zeroWritten also] at positive
      exact absurd positive (lt_irrefl 0)
    · have other := (Parts.written_pos second (Nat.pos_of_ne_zero also)).1
      rw [← same] at other
      exact Interval.apart first second inside other

/-- A sign is told from what stands behind it. -/
theorem Denotes.signed_injective {cs cs' : List Char} {x y : ℚ} {negative negative' : Bool}
    (first : Denotes cs x) (second : Denotes cs' y)
    (same : (if negative then ['-'] else []) ++ cs = (if negative' then ['-'] else []) ++ cs') :
    negative = negative' ∧ x = y := by
  cases negative with
  | false =>
    cases negative' with
    | false =>
      obtain rfl : cs = cs' := same
      exact ⟨rfl, first.unique second⟩
    | true =>
      obtain rfl : cs = '-' :: cs' := same
      exact first.head_ne_minus.elim
  | true =>
    cases negative' with
    | false =>
      obtain rfl : '-' :: cs = cs' := same
      exact second.head_ne_minus.elim
    | true =>
      obtain rfl : cs = cs' := (List.cons.inj same).2
      exact ⟨rfl, first.unique second⟩

/-- Different doubles have different texts. -/
theorem Layout.text_injective {layout : Layout} (signed : layout.plus = "+") {p q : Parts}
    (first : p.Canonical) (second : q.Canonical) (same : layout.text p = layout.text q) : p = q := by
  have texts := congrArg String.toList same
  rw [text_eq, text_eq, String.toList_append, String.toList_append, apply_ite String.toList,
    apply_ite String.toList] at texts
  obtain ⟨signs, numbers⟩ := Denotes.signed_injective (denotes_unsigned signed first)
    (denotes_unsigned signed second) texts
  obtain ⟨mantissas, shifts⟩ := Parts.eq_of_written first second numbers
  obtain ⟨sign, m, s⟩ := p
  obtain ⟨sign', m', s'⟩ := q
  cases signs
  cases mantissas
  cases shifts
  rfl

/-! ### Characters -/

/-- The characters that the text of a number is made of. -/
def isNumeral (c : Char) : Bool := c.isDigit || c == '-' || c == '+' || c == '.' || c == 'e'

theorem isNumeral_of_isDigit {c : Char} (digit : c.isDigit = true) : isNumeral c = true := by
  simp [isNumeral, digit]

theorem Layout.isNumeral_write {layout : Layout} (signed : layout.plus = "+") {ds : List Char}
    (digits : ∀ c ∈ ds, c.isDigit = true) (leading : ℤ) :
    ∀ c ∈ (layout.write ds leading).toList, isNumeral c = true := by
  have own : ∀ c ∈ ds, isNumeral c = true := fun c member => isNumeral_of_isDigit (digits c member)
  have filled (n : ℕ) : ∀ c ∈ ds ++ List.replicate n '0', isNumeral c = true :=
    fun c member => isNumeral_of_isDigit (isDigit_append_zeros digits n c member)
  have zeros (n : ℕ) : ∀ c ∈ List.replicate n '0', isNumeral c = true := by
    intro c member
    rw [List.eq_of_mem_replicate member]
    decide
  have exponent (n : ℕ) : ∀ c ∈ (toString n).toList, isNumeral c = true := by
    intro c member
    rw [Nat.toString_eq_repr, Nat.toList_repr] at member
    exact isNumeral_of_isDigit (Nat.isDigit_of_mem_toDigits (by norm_num) (by norm_num) member)
  rw [Layout.write]
  split
  · split
    · simp only [String.toList_append, String.toList_ofList, List.forall_mem_append]
      exact ⟨by simp [isNumeral], zeros _, own⟩
    · simp only [String.toList_append, String.toList_ofList, List.forall_mem_append]
      refine ⟨⟨fun c member => filled _ c (List.mem_of_mem_take member), by simp [isNumeral]⟩, ?_⟩
      split
      · simp [isNumeral]
      · exact fun c member => filled _ c (List.mem_of_mem_drop member)
  · simp only [String.toList_append, String.toList_ofList, List.forall_mem_append]
    have first : ∀ c ∈ ds.take 1, isNumeral c = true :=
      fun c member => own c (List.mem_of_mem_take member)
    refine ⟨⟨⟨⟨first, ?_⟩, by simp [isNumeral]⟩, ?_⟩, exponent _⟩
    · split
      · simp
      · simp only [String.toList_append, String.toList_ofList, List.forall_mem_append]
        exact ⟨by simp [isNumeral], fun c member => own c (List.mem_of_mem_drop member)⟩
    · split
      · simp [isNumeral]
      · simp [signed, isNumeral]

theorem Layout.write_marked (layout : Layout) (ds : List Char) (leading : ℤ) :
    '.' ∈ (layout.write ds leading).toList ∨ 'e' ∈ (layout.write ds leading).toList := by
  rw [Layout.write]
  split
  · left
    split
    · simp
    · simp
  · right
    simp

theorem Layout.exists_write (layout : Layout) (p : Parts) :
    ∃ ds leading, (∀ c ∈ ds, c.isDigit = true) ∧ layout.unsigned p = layout.write ds leading := by
  rw [Layout.unsigned]
  split
  · exact ⟨['0'], 0, by simp, rfl⟩
  · exact ⟨_, _, isDigit_stripZeros _, rfl⟩

end Decimal

namespace Number
open Decimal

/-- Infinities and the not-a-number value are no numbers that data can hold. -/
def Finite : Number → Prop
  | .int _ => True
  | .float x => (Parts.ofFloat? x).isSome = true

instance : (n : Number) → Decidable n.Finite
  | .int _ => .isTrue trivial
  | .float x => inferInstanceAs (Decidable ((Parts.ofFloat? x).isSome = true))

theorem toList_int_text (i : ℤ) : (Number.int i).text.toList =
    (if decide (i < 0) then ['-'] else []) ++ Nat.toDigits 10 i.natAbs := by
  rw [text, Int.toString_eq_repr, Int.repr_eq_if]
  by_cases negative : i < 0
  · have size : (-i).toNat = i.natAbs := by omega
    rw [if_neg (by omega), String.toList_append, Nat.toList_repr, size]
    simp [negative]
  · have size : i.toNat = i.natAbs := by omega
    rw [if_pos (by omega), Nat.toList_repr, size]
    simp [negative]

theorem denotes_toDigits (n : ℕ) : Denotes (Nat.toDigits 10 n) n := by
  have read := denotes_whole (Nat.toDigits 10 n) [] (e := 0) Nat.toDigits_ne_nil
    (fun c => Nat.isDigit_of_mem_toDigits (by norm_num) (by norm_num)) rfl
  simpa [digitsValue_toDigits] using read

theorem int_text_injective {i j : ℤ} (same : (Number.int i).text = (Number.int j).text) :
    i = j := by
  have texts := congrArg String.toList same
  rw [toList_int_text, toList_int_text] at texts
  obtain ⟨signs, sizes⟩ := Denotes.signed_injective (denotes_toDigits _) (denotes_toDigits _) texts
  have magnitudes : i.natAbs = j.natAbs := by exact_mod_cast sizes
  have negative := decide_eq_decide.mp signs
  omega

theorem isNumeral_text {n : Number} (finite : n.Finite) :
    ∀ c ∈ n.text.toList, isNumeral c = true := by
  cases n with
  | int i =>
    rw [toList_int_text, List.forall_mem_append]
    refine ⟨?_, fun c member => isNumeral_of_isDigit ?_⟩
    · split
      · simp [isNumeral]
      · simp
    · exact Nat.isDigit_of_mem_toDigits (by norm_num) (by norm_num) member
  | float x =>
    obtain ⟨p, found⟩ := Option.isSome_iff_exists.mp finite
    obtain ⟨ds, leading, digits, written⟩ := layout.exists_write p
    rw [text, found]
    simp only
    rw [Layout.text_eq, written, String.toList_append, List.forall_mem_append]
    refine ⟨?_, Layout.isNumeral_write rfl digits leading⟩
    split
    · simp [isNumeral]
    · simp

/-- The text of a double has a point or an exponent. -/
theorem marked_float_text {x : Float} (finite : (Number.float x).Finite) :
    '.' ∈ (Number.float x).text.toList ∨ 'e' ∈ (Number.float x).text.toList := by
  obtain ⟨p, found⟩ := Option.isSome_iff_exists.mp finite
  obtain ⟨ds, leading, -, written⟩ := layout.exists_write p
  rw [text, found]
  simp only
  rw [Layout.text_eq, written, String.toList_append]
  rcases layout.write_marked ds leading with point | exponent
  · exact .inl (List.mem_append_right _ point)
  · exact .inr (List.mem_append_right _ exponent)

theorem unmarked_int_text {i : ℤ} {c : Char} (member : c ∈ (Number.int i).text.toList) :
    c = '-' ∨ c.isDigit = true := by
  rw [toList_int_text] at member
  rcases List.mem_append.mp member with sign | digit
  · split at sign
    · exact .inl (List.mem_singleton.mp sign)
    · cases sign
  · exact .inr (Nat.isDigit_of_mem_toDigits (by norm_num) (by norm_num) digit)

theorem text_ne_nil {n : Number} (finite : n.Finite) : n.text.toList ≠ [] := by
  intro empty
  cases n with
  | int i =>
    rw [toList_int_text] at empty
    exact Nat.toDigits_ne_nil (List.append_eq_nil_iff.mp empty).2
  | float x =>
    rcases marked_float_text finite with point | exponent
    · rw [empty] at point
      cases point
    · rw [empty] at exponent
      cases exponent

theorem int_text_ne_float_text {i : ℤ} {x : Float} (finite : (Number.float x).Finite) :
    (Number.int i).text ≠ (Number.float x).text := by
  intro same
  rcases marked_float_text finite with point | exponent
  · rw [← same] at point
    exact absurd (unmarked_int_text point) (by decide)
  · rw [← same] at exponent
    exact absurd (unmarked_int_text exponent) (by decide)

/-- Different numbers have different texts. -/
theorem text_injective {m n : Number} (first : m.Finite) (second : n.Finite)
    (same : m.text = n.text) : m = n := by
  cases m with
  | int i =>
    cases n with
    | int j => rw [int_text_injective same]
    | float y => exact absurd same (int_text_ne_float_text second)
  | float x =>
    cases n with
    | int j => exact absurd same.symm (int_text_ne_float_text first)
    | float y =>
      obtain ⟨p, found⟩ := Option.isSome_iff_exists.mp first
      obtain ⟨q, also⟩ := Option.isSome_iff_exists.mp second
      rw [text, text, found, also] at same
      have signed : layout.plus = "+" := rfl
      obtain rfl := Layout.text_injective signed (bits_of_ofFloat? found).2
        (bits_of_ofFloat? also).2 same
      rw [ofFloat?_injective found also]

example : (Number.int 1).text = "1" ∧ (Number.float 1.0).text = "1.0" ∧
    (Number.float 1e21).text = "1e+21" := by decide +kernel

end Number

end RecordQuery
