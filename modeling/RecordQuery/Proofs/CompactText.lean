import RecordQuery.Json.Parser
import RecordQuery.Proofs.NumberTexts

/-!
What the compact text of a tree tells of the tree. A quoted text is read back as the text
(`Json.readQuoted?_escape`), a number ends where no character of numbers stands, and the first
character tells the type of a value. So a text that begins with the compact text of a tree does so
with no other (`Json.chars_inj`), and different trees have different texts
(`Json.text_injective`).
-/
namespace RecordQuery.Json

/-! ### Finite trees -/

mutual

/-- The numbers in a tree are finite. -/
def Finite : Json → Prop
  | num n => n.Finite
  | arr items => FiniteItems items
  | obj members => FiniteMembers members
  | _ => True

/-- The numbers in the items of a list are finite. -/
def FiniteItems : List Json → Prop
  | [] => True
  | x :: xs => Finite x ∧ FiniteItems xs

/-- The numbers in the values of members are finite. -/
def FiniteMembers : List (String × Json) → Prop
  | [] => True
  | (_, value) :: rest => Finite value ∧ FiniteMembers rest

end

theorem finiteItems_iff {items : List Json} : FiniteItems items ↔ ∀ x ∈ items, x.Finite := by
  induction items with
  | nil => simp [FiniteItems]
  | cons x xs ih => rw [FiniteItems, ih, List.forall_mem_cons]

theorem finiteMembers_iff {members : List (String × Json)} :
    FiniteMembers members ↔ ∀ member ∈ members, member.2.Finite := by
  induction members with
  | nil => simp [FiniteMembers]
  | cons member rest ih =>
    obtain ⟨key, value⟩ := member
    rw [FiniteMembers, ih, List.forall_mem_cons]

/-! ### Quoted texts -/

theorem hexDigit?_digitChar : ∀ n < 16, hexDigit? (Nat.digitChar n) = some n := by decide

section
variable (rest : List Char)

theorem readQuoted?_letter {letter c : Char} (named : escaped? letter = some c) :
    readQuoted? ('\\' :: letter :: rest) =
      (readQuoted? rest).map fun found => (c :: found.1, found.2) := by
  have other : letter ≠ 'u' := by
    rintro rfl
    cases named
  rw [readQuoted?, named]
  · cases readQuoted? rest <;> rfl
  · exact fun _ _ _ _ _ _ _ _ _ same => absurd same other
  · exact fun _ _ _ _ _ same => absurd same other

theorem readQuoted?_unit {a b c d ch : Char} {unit : ℕ} (digits : hexUnit? a b c d = some unit)
    (stands : unitChar? unit = some ch) :
    readQuoted? ('\\' :: 'u' :: a :: b :: c :: d :: rest) =
      (readQuoted? rest).map fun found => (ch :: found.1, found.2) := by
  by_cases pair : ∃ e f g h tail, rest = '\\' :: 'u' :: e :: f :: g :: h :: tail
  · obtain ⟨e, f, g, h, tail, rfl⟩ := pair
    rw [readQuoted?, digits]
    simp only [Option.bind_eq_bind, Option.bind_some, stands]
    cases readQuoted? ('\\' :: 'u' :: e :: f :: g :: h :: tail) <;> rfl
  · rw [readQuoted?, digits]
    · simp only [Option.bind_eq_bind, Option.bind_some, stands]
      cases readQuoted? rest <;> rfl
    · exact fun e f g h tail same => pair ⟨e, f, g, h, tail, same⟩

theorem readQuoted?_plain {c : Char} (quote : c ≠ '"') (backslash : c ≠ '\\')
    (control : ¬ c.toNat < 0x20) :
    readQuoted? (c :: rest) = (readQuoted? rest).map fun found => (c :: found.1, found.2) := by
  rw [readQuoted?, if_neg (by simp [backslash, control])]
  · cases readQuoted? rest <;> rfl
  · exact quote
  · exact fun _ _ _ _ _ _ _ _ _ same => absurd same backslash
  · exact fun _ _ _ _ _ same => absurd same backslash
  · exact fun _ _ same => absurd same backslash

/-- An escaped character is read back. -/
theorem readQuoted?_escapeChar (c : Char) :
    readQuoted? (escapeChar c ++ rest) =
      (readQuoted? rest).map fun found => (c :: found.1, found.2) := by
  rw [escapeChar]
  iterate 7
    split
    · rename_i same
      rw [same]
      exact readQuoted?_letter rest rfl
  rename_i quote backslash _ _ _ _ _
  split
  · rename_i control
    have high := hexDigit?_digitChar (c.toNat / 16) (by omega)
    have low := hexDigit?_digitChar (c.toNat % 16) (by omega)
    have digits : hexUnit? '0' '0' (Nat.digitChar (c.toNat / 16)) (Nat.digitChar (c.toNat % 16)) =
        some c.toNat := by
      have zero : hexDigit? '0' = some 0 := by decide
      rw [hexUnit?, high, low, zero]
      simp
      omega
    have stands : unitChar? c.toNat = some c := by
      rw [unitChar?, if_neg (by simp; omega), Char.ofNat_toNat]
    exact readQuoted?_unit rest digits stands
  · exact readQuoted?_plain rest quote backslash ‹_›

end

/-- A quoted text is read back up to its closing quote. -/
theorem readQuoted?_escape (cs rest : List Char) :
    readQuoted? (cs.flatMap escapeChar ++ '"' :: rest) = some (cs, rest) := by
  induction cs with
  | nil => rw [List.flatMap_nil, List.nil_append, readQuoted?]
  | cons c cs ih =>
    rw [List.flatMap_cons, List.append_assoc, readQuoted?_escapeChar, ih]
    rfl

/-- Where a quoted text stands at the front, no other one does. -/
theorem quoted_inj {s t : String} {rest rest' : List Char}
    (same : quoted s ++ rest = quoted t ++ rest') : s = t ∧ rest = rest' := by
  have bodies : s.toList.flatMap escapeChar ++ '"' :: rest =
      t.toList.flatMap escapeChar ++ '"' :: rest' := by
    simpa [quoted] using same
  have read := readQuoted?_escape s.toList rest
  rw [bodies, readQuoted?_escape] at read
  obtain ⟨texts, rests⟩ := Prod.mk.inj (Option.some.inj read)
  exact ⟨String.toList_inj.mp texts.symm, rests.symm⟩

/-! ### Trees -/

/-- The type of a value that a character can begin. -/
def opening? (c : Char) : Option Kind :=
  if c = 'n' then some .null
  else if c = 't' ∨ c = 'f' then some .boolean
  else if c = '"' then some .string
  else if c = '[' then some .array
  else if c = '\x7b' then some .object
  else if Decimal.isNumeral c then some .number
  else none

theorem opening?_of_isNumeral {c : Char} (numeral : Decimal.isNumeral c = true) :
    opening? c = some .number := by
  have other {d : Char} (differs : Decimal.isNumeral d = false) : c ≠ d := by
    rintro rfl
    rw [numeral] at differs
    cases differs
  rw [opening?, if_neg (other rfl), if_neg (not_or.mpr ⟨other rfl, other rfl⟩), if_neg (other rfl),
    if_neg (other rfl), if_neg (other rfl), if_pos numeral]

/-- The first character of a value tells its type. -/
theorem opening?_chars {t : Json} (finite : t.Finite) :
    ∃ c rest, chars t = c :: rest ∧ opening? c = some t.kind := by
  cases t with
  | null => exact ⟨_, _, by rw [chars], rfl⟩
  | bool b => cases b <;> exact ⟨_, _, by rw [chars], rfl⟩
  | num n =>
    rw [Finite] at finite
    obtain ⟨c, rest, shape⟩ := List.exists_cons_of_ne_nil (Number.text_ne_nil finite)
    refine ⟨c, rest, by rw [chars, shape], opening?_of_isNumeral ?_⟩
    exact Number.isNumeral_text finite c (by rw [shape]; exact List.mem_cons_self)
  | str s => exact ⟨_, _, by rw [chars, quoted], rfl⟩
  | arr items => cases items <;> exact ⟨_, _, by rw [chars], rfl⟩
  | obj members =>
    cases members with
    | nil => exact ⟨_, _, by rw [chars], rfl⟩
    | cons member rest =>
      obtain ⟨key, value⟩ := member
      exact ⟨_, _, by rw [chars], rfl⟩

/-- Values of different types do not begin alike. -/
theorem kind_eq_of_chars {t u : Json} (first : t.Finite) (second : u.Finite) {rest rest' : List Char}
    (same : chars t ++ rest = chars u ++ rest') : t.kind = u.kind := by
  obtain ⟨c, more, shape, opens⟩ := opening?_chars first
  obtain ⟨d, others, form, begins⟩ := opening?_chars second
  rw [shape, form] at same
  rw [(List.cons.inj same).1, begins] at opens
  exact (Option.some.inj opens).symm

theorem chars_ne_close {t : Json} (finite : t.Finite) {rest rest' : List Char} :
    chars t ++ rest ≠ ']' :: rest' := by
  intro same
  obtain ⟨c, more, shape, opens⟩ := opening?_chars finite
  rw [shape] at same
  rw [(List.cons.inj same).1] at opens
  cases opens

/-- No number goes on in what follows. -/
def Ends (rest : List Char) : Prop := ∀ c ∈ rest.head?, Decimal.isNumeral c = false

theorem ends_moreItems (items : List Json) (rest : List Char) : Ends (moreItems items ++ rest) := by
  cases items with
  | nil => rw [moreItems]; rintro c ⟨⟩; rfl
  | cons x xs => rw [moreItems]; rintro c ⟨⟩; rfl

theorem ends_moreMembers (members : List (String × Json)) (rest : List Char) :
    Ends (moreMembers members ++ rest) := by
  cases members with
  | nil => rw [moreMembers]; rintro c ⟨⟩; rfl
  | cons member more => rw [moreMembers]; rintro c ⟨⟩; rfl

theorem number_inj {m n : Number} (first : m.Finite) (second : n.Finite) {rest rest' : List Char}
    (ends : Ends rest) (ends' : Ends rest') (same : m.text.toList ++ rest = n.text.toList ++ rest') :
    m = n ∧ rest = rest' := by
  obtain ⟨texts, rests⟩ := Decimal.append_inj_of_ends (Number.isNumeral_text first)
    (Number.isNumeral_text second) ends ends' same
  exact ⟨Number.text_injective first second (String.toList_inj.mp texts), rests⟩

theorem moreItems_of_arr {xs ys : List Json} (first : FiniteItems xs) (second : FiniteItems ys)
    {rest rest' : List Char} (same : chars (arr xs) ++ rest = chars (arr ys) ++ rest') :
    moreItems xs ++ rest = moreItems ys ++ rest' := by
  cases xs with
  | nil =>
    cases ys with
    | nil => simpa [chars, moreItems] using same
    | cons y ys =>
      simp only [chars, List.cons_append, List.nil_append, List.append_assoc] at same
      exact absurd (List.cons.inj same).2.symm (chars_ne_close second.1)
  | cons x xs =>
    cases ys with
    | nil =>
      simp only [chars, List.cons_append, List.nil_append, List.append_assoc] at same
      exact absurd (List.cons.inj same).2 (chars_ne_close first.1)
    | cons y ys => simpa [chars, moreItems] using same

theorem moreMembers_of_obj {ms ns : List (String × Json)} {rest rest' : List Char}
    (same : chars (obj ms) ++ rest = chars (obj ns) ++ rest') :
    moreMembers ms ++ rest = moreMembers ns ++ rest' := by
  cases ms with
  | nil =>
    cases ns with
    | nil => simpa [chars, moreMembers] using same
    | cons n ns => simp [chars, quoted] at same
  | cons m ms =>
    cases ns with
    | nil => simp [chars, quoted] at same
    | cons n ns => simpa [chars, moreMembers] using same

mutual

/-- Text that begins with the compact text of a tree does so with no other, where no number goes on
behind it. -/
theorem chars_inj : ∀ t u : Json, t.Finite → u.Finite → ∀ rest rest' : List Char,
    Ends rest → Ends rest' → chars t ++ rest = chars u ++ rest' → t = u ∧ rest = rest'
  | null, u, first, second, rest, rest', ends, ends', same => by
    have kinds := kind_eq_of_chars first second same
    cases u with
    | null => exact ⟨rfl, List.append_cancel_left same⟩
    | _ => cases kinds
  | bool a, u, first, second, rest, rest', ends, ends', same => by
    have kinds := kind_eq_of_chars first second same
    cases u with
    | bool b =>
      cases a <;> cases b
      · exact ⟨rfl, List.append_cancel_left same⟩
      · simp [chars] at same
      · simp [chars] at same
      · exact ⟨rfl, List.append_cancel_left same⟩
    | _ => cases kinds
  | num m, u, first, second, rest, rest', ends, ends', same => by
    have kinds := kind_eq_of_chars first second same
    cases u with
    | num n =>
      rw [chars, chars] at same
      rw [Finite] at first second
      obtain ⟨rfl, rests⟩ := number_inj first second ends ends' same
      exact ⟨rfl, rests⟩
    | _ => cases kinds
  | str s, u, first, second, rest, rest', ends, ends', same => by
    have kinds := kind_eq_of_chars first second same
    cases u with
    | str t =>
      rw [chars, chars] at same
      obtain ⟨rfl, rests⟩ := quoted_inj same
      exact ⟨rfl, rests⟩
    | _ => cases kinds
  | arr items, u, first, second, rest, rest', ends, ends', same => by
    have kinds := kind_eq_of_chars first second same
    cases u with
    | arr others =>
      rw [Finite] at first second
      obtain ⟨rfl, rests⟩ := moreItems_inj items others first second rest rest'
        (moreItems_of_arr first second same)
      exact ⟨rfl, rests⟩
    | _ => cases kinds
  | obj members, u, first, second, rest, rest', ends, ends', same => by
    have kinds := kind_eq_of_chars first second same
    cases u with
    | obj others =>
      rw [Finite] at first second
      obtain ⟨rfl, rests⟩ := moreMembers_inj members others first second rest rest'
        (moreMembers_of_obj same)
      exact ⟨rfl, rests⟩
    | _ => cases kinds

/-- Lists are told by what stands between their brackets. -/
theorem moreItems_inj : ∀ xs ys : List Json, FiniteItems xs → FiniteItems ys →
    ∀ rest rest' : List Char, moreItems xs ++ rest = moreItems ys ++ rest' → xs = ys ∧ rest = rest'
  | [], ys, first, second, rest, rest', same => by
    cases ys with
    | nil => exact ⟨rfl, List.append_cancel_left same⟩
    | cons y ys => simp [moreItems] at same
  | x :: xs, ys, first, second, rest, rest', same => by
    cases ys with
    | nil => simp [moreItems] at same
    | cons y ys =>
      rw [FiniteItems] at first second
      rw [moreItems, moreItems] at same
      simp only [List.cons_append, List.append_assoc, List.cons.injEq, true_and] at same
      obtain ⟨rfl, more⟩ := chars_inj x y first.1 second.1 _ _ (ends_moreItems xs rest)
        (ends_moreItems ys rest') same
      obtain ⟨rfl, rests⟩ := moreItems_inj xs ys first.2 second.2 rest rest' more
      exact ⟨rfl, rests⟩

/-- Objects are told by what stands between their braces. -/
theorem moreMembers_inj : ∀ ms ns : List (String × Json), FiniteMembers ms → FiniteMembers ns →
    ∀ rest rest' : List Char, moreMembers ms ++ rest = moreMembers ns ++ rest' →
      ms = ns ∧ rest = rest'
  | [], ns, first, second, rest, rest', same => by
    cases ns with
    | nil => exact ⟨rfl, List.append_cancel_left same⟩
    | cons n ns => simp [moreMembers] at same
  | (key, value) :: ms, ns, first, second, rest, rest', same => by
    cases ns with
    | nil => simp [moreMembers] at same
    | cons n ns =>
      obtain ⟨key', value'⟩ := n
      rw [FiniteMembers] at first second
      rw [moreMembers, moreMembers] at same
      simp only [List.cons_append, List.append_assoc, List.cons.injEq, true_and] at same
      obtain ⟨rfl, behind⟩ := quoted_inj same
      obtain ⟨rfl, more⟩ := chars_inj value value' first.1 second.1 _ _
        (ends_moreMembers ms rest) (ends_moreMembers ns rest') (List.cons.inj behind).2
      obtain ⟨rfl, rests⟩ := moreMembers_inj ms ns first.2 second.2 rest rest' more
      exact ⟨rfl, rests⟩

end

/-- Different trees have different compact texts. -/
theorem text_injective {t u : Json} (first : t.Finite) (second : u.Finite)
    (same : t.text = u.text) : t = u := by
  have texts : chars t ++ [] = chars u ++ [] := by
    rw [text, text] at same
    rw [String.ofList_inj.mp same]
  exact (chars_inj t u first second [] [] (by simp [Ends]) (by simp [Ends]) texts).1

end RecordQuery.Json
