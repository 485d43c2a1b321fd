import RecordQuery.Expr.Reader
import RecordQuery.Proofs.LowerCase
import RecordQuery.Proofs.Sources

/-!
Trees of expressions. A reader and a writer belong together (`Codec`) if what is canonical is read
back from what is written, and if everything that is read is canonical. Lists, fields that may be
left out and structures are put together from such pairs. An expression is canonical if its names
are in lower case and no object in its literals has a repeated member; its reader and its writer
belong together, at any depth (`Expr.codec`).
-/
namespace RecordQuery

/-- Whatever is read has a property. -/
def Only {α : Type} (P : α → Prop) (o : Option α) : Prop := ∀ a, o = some a → P a

namespace Only
variable {α β : Type} {P : α → Prop} {Q : β → Prop}

theorem any {o : Option α} : Only (fun _ => True) o := fun _ _ => trivial

theorem none : Only P none := fun _ known => by cases known

theorem pure {a : α} (holds : P a) : Only P (Pure.pure a) :=
  fun _ known => Option.some.inj known ▸ holds

theorem bind {o : Option α} {f : α → Option β} (first : Only P o)
    (next : ∀ a, P a → Only Q (f a)) : Only Q (o >>= f) := by
  intro b known
  obtain ⟨a, one, known⟩ := Option.bind_eq_some_iff.mp known
  exact next a (first a one) b known

theorem mapM {f : β → Option α} (each : ∀ b, Only P (f b)) (items : List β) :
    Only (fun found => ∀ a ∈ found, P a) (items.mapM f) := by
  induction items with
  | nil => exact pure (by simp)
  | cons b rest ih =>
    rw [List.mapM_cons]
    exact (each b).bind fun a first => ih.bind fun more later =>
      pure (List.forall_mem_cons.mpr ⟨first, later⟩)

end Only

/-! ### Readers of parts -/

namespace Json
variable {α : Type} {read : Json → Option α} {P : α → Prop} (each : ∀ tree, Only P (read tree))

include each

theorem only_asList? (tree : Json) : Only (fun items => ∀ a ∈ items, P a) (asList? read tree) := by
  rw [asList?.eq_def]
  split
  · exact .mapM each _
  · exact .none

theorem only_required (field : Option Json) : Only P (required read field) :=
  Only.any.bind fun tree _ => each tree

theorem only_optional (field : Option Json) :
    Only (fun o => ∀ a ∈ o, P a) (optional read field) := by
  rw [optional.eq_def]
  split
  · exact .pure (by simp)
  · exact .pure (by simp)
  · rw [Option.map_eq_bind]
    exact (each _).bind fun a holds => .pure (by simpa using holds)

theorem only_defaulted {value : α} (own : P value) (field : Option Json) :
    Only P (defaulted value read field) := by
  cases field with
  | none => exact .pure own
  | some tree => exact each tree

end Json

/-- The tree of a list, unless it is empty. -/
def Json.ofItems? : List Json → Option Json
  | [] => none
  | items => some (.arr items)

/-- A reader and a writer that belong together: what is canonical is read back, and what is read is
canonical. What is written are trees, or members of trees that may be left out. -/
structure Codec {τ α : Type} (read : τ → Option α) (write : α → τ) (Canonical : α → Prop) :
    Prop where
  reads : ∀ a, Canonical a → read (write a) = some a
  canonical : ∀ tree, Only Canonical (read tree)

namespace Codec

/-- What has been read is read again from what is written of it. -/
theorem stable {τ α : Type} {read : τ → Option α} {write : α → τ} {P : α → Prop}
    (codec : Codec read write P) {tree : τ} {a : α} (known : read tree = some a) :
    read (write a) = some a :=
  codec.reads a (codec.canonical tree a known)

theorem text : Codec Json.asText? .str fun _ => True where
  reads _ _ := rfl
  canonical _ := .any

theorem lowerText : Codec Expr.asLower? .str fun s => Text.lower s = s where
  reads s canonical := by rw [Expr.asLower?, Json.asText?, Option.map_some, canonical]
  canonical tree s known := by
    obtain ⟨written, -, rfl⟩ := Option.map_eq_some_iff.mp known
    exact Text.lower_lower written

theorem flag : Codec Json.asBool? .bool fun _ => True where
  reads _ _ := rfl
  canonical _ := .any

theorem count : Codec Json.asCount? Json.ofNat fun n => n < Nat.pow 2 64 where
  reads n small := by
    have fits : (0 ≤ (n : Int) && decide ((n : Int) < Nat.pow 2 64)) = true := by
      simpa using Int.ofNat_lt.mpr small
    rw [Json.ofNat, Json.asCount?, if_pos fits, Int.toNat_natCast]
  canonical tree := by
    rw [Json.asCount?.eq_def]
    split
    · split
      · rename_i fits
        simp only [Bool.and_eq_true, decide_eq_true_eq] at fits
        exact .pure ((Int.toNat_lt fits.1).mpr fits.2)
      · exact .none
    · exact .none

section
variable {α : Type} {read : Json → Option α} {write : α → Json} {P : α → Prop}
  (codec : Codec read write P)

include codec

theorem list : Codec (Json.asList? read) (fun items => .arr (items.map write))
    fun items => ∀ a ∈ items, P a where
  reads items canonical := by
    rw [Json.asList?]
    induction items with
    | nil => rfl
    | cons a rest ih =>
      rw [List.map_cons, List.mapM_cons, codec.reads a (canonical a List.mem_cons_self),
        ih fun b later => canonical b (List.mem_cons_of_mem a later)]
      rfl
  canonical := Json.only_asList? codec.canonical

/-- A field that is always written. -/
theorem required : Codec (Json.required read) (fun a => some (write a)) P where
  reads := codec.reads
  canonical := Json.only_required codec.canonical

/-- A field that is left out if there is nothing to write. -/
theorem optional (given : ∀ a, write a ≠ .null) :
    Codec (Json.optional read) (Option.map write) fun o => ∀ a ∈ o, P a where
  reads
    | none, _ => rfl
    | some a, canonical => by
      rw [Option.map_some, Json.optional.eq_3 _ _ (given a), codec.reads a (canonical a rfl)]
      rfl
  canonical := Json.only_optional codec.canonical

/-- A field that has a value of its own when it is left out, but is always written. -/
theorem defaulted {value : α} (own : P value) :
    Codec (Json.defaulted value read) (fun a => some (write a)) P where
  reads := codec.reads
  canonical := Json.only_defaulted codec.canonical own

/-- A list that is left out if it is empty. -/
theorem items : Codec (Json.defaulted [] (Json.asList? read))
    (fun items => Json.ofItems? (items.map write)) fun items => ∀ a ∈ items, P a where
  reads
    | [], _ => rfl
    | a :: rest, canonical => codec.list.reads (a :: rest) canonical
  canonical := Json.only_defaulted codec.list.canonical (by simp)

end

end Codec

namespace Expr

/-! ### Canonical expressions -/

mutual

/-- The names in an expression are in lower case, and no object in its literals has a repeated
member. -/
def Canonical : Expr → Prop
  | literal value => value.normal = value
  | column source name => Text.lower source = source ∧ Text.lower name = name
  | binary _ left right => Canonical left ∧ Canonical right
  | comparison _ left right => Canonical left ∧ Canonical right
  | logical _ left right => Canonical left ∧ Canonical right
  | not operand => Canonical operand
  | negate operand => Canonical operand
  | isNull operand _ => Canonical operand
  | inList operand items _ => Canonical operand ∧ CanonicalAll items
  | call func args => Text.lower func = func ∧ CanonicalAll args

/-- All expressions of a list are canonical. -/
def CanonicalAll : List Expr → Prop
  | [] => True
  | e :: es => Canonical e ∧ CanonicalAll es

end

theorem canonicalAll_iff (es : List Expr) : CanonicalAll es ↔ ∀ e ∈ es, Canonical e := by
  induction es with
  | nil => simp [CanonicalAll]
  | cons e es ih => simp [CanonicalAll, ih]

theorem canonical_ref (source column : String) : (ref source column).Canonical :=
  ⟨Text.lower_lower source, Text.lower_lower column⟩

theorem canonical_invoke (func : String) {args : List Expr} (each : ∀ e ∈ args, e.Canonical) :
    (invoke func args).Canonical :=
  ⟨Text.lower_lower func, (canonicalAll_iff args).mpr each⟩

/-! ### Reading back -/

theorem asOperator?_arithmetic (op : ArithmeticOp) :
    asOperator? (ArithmeticOp.all.map (·.symbol)) ArithmeticOp.ofSymbol? (.str op.symbol) =
      some op := by
  cases op <;> rfl

theorem asOperator?_comparison (op : ComparisonOp) :
    asOperator? (ComparisonOp.all.map (·.symbol)) ComparisonOp.ofSymbol? (.str op.symbol) =
      some op := by
  cases op <;> rfl

theorem asOperator?_logical (op : LogicalOp) :
    asOperator? (LogicalOp.all.map (·.symbol)) LogicalOp.ofSymbol? (.str op.symbol) = some op := by
  cases op <;> rfl

mutual

/-- An expression is read back from its tree, given steps for its depth. -/
theorem read?_toJson : ∀ e : Expr, e.Canonical → ∀ fuel, e.toJson.depth < fuel → ∀ place,
    read? fuel place e.toJson = some e
  | literal value, canonical, fuel + 1, _, place => by
    rw [Canonical] at canonical
    show some (literal value.normal) = _
    rw [canonical]
  | column source name, canonical, fuel + 1, _, place => by
    obtain ⟨lower, lowerName⟩ := canonical
    show some (column (Text.lower source) (Text.lower name)) = _
    rw [lower, lowerName]
  | binary op left right, canonical, fuel + 1, deep, place => by
    obtain ⟨first, second⟩ := canonical
    simp only [toJson, Json.depth, Json.depthMembers] at deep
    show (do
      return binary (← asOperator? _ _ (.str op.symbol)) (← read? fuel .nested left.toJson)
        (← read? fuel .nested right.toJson)) = _
    rw [asOperator?_arithmetic, read?_toJson left first fuel (by omega),
      read?_toJson right second fuel (by omega)]
    rfl
  | comparison op left right, canonical, fuel + 1, deep, place => by
    obtain ⟨first, second⟩ := canonical
    simp only [toJson, Json.depth, Json.depthMembers] at deep
    show (do
      return comparison (← asOperator? _ _ (.str op.symbol)) (← read? fuel .nested left.toJson)
        (← read? fuel .nested right.toJson)) = _
    rw [asOperator?_comparison, read?_toJson left first fuel (by omega),
      read?_toJson right second fuel (by omega)]
    rfl
  | logical op left right, canonical, fuel + 1, deep, place => by
    obtain ⟨first, second⟩ := canonical
    simp only [toJson, Json.depth, Json.depthMembers] at deep
    show (do
      return logical (← asOperator? _ _ (.str op.symbol)) (← read? fuel .nested left.toJson)
        (← read? fuel .nested right.toJson)) = _
    rw [asOperator?_logical, read?_toJson left first fuel (by omega),
      read?_toJson right second fuel (by omega)]
    rfl
  | not operand, canonical, fuel + 1, deep, place => by
    simp only [toJson, Json.depth, Json.depthMembers] at deep
    show (do return not (← read? fuel .nested operand.toJson)) = _
    rw [read?_toJson operand canonical fuel (by omega)]
    rfl
  | negate operand, canonical, fuel + 1, deep, place => by
    simp only [toJson, Json.depth, Json.depthMembers] at deep
    show (do return negate (← read? fuel .nested operand.toJson)) = _
    rw [read?_toJson operand canonical fuel (by omega)]
    rfl
  | isNull operand negated, canonical, fuel + 1, deep, place => by
    simp only [toJson, Json.depth, Json.depthMembers] at deep
    show (do return isNull (← read? fuel .nested operand.toJson) negated) = _
    rw [read?_toJson operand canonical fuel (by omega)]
    rfl
  | inList operand items negated, canonical, fuel + 1, deep, place => by
    obtain ⟨first, rest⟩ := canonical
    simp only [toJson, Json.depth, Json.depthMembers] at deep
    show (do
      return inList (← read? fuel .nested operand.toJson)
        (← (toJsonAll items).mapM (read? fuel .nested)) negated) = _
    rw [read?_toJson operand first fuel (by omega), mapM_toJsonAll items rest fuel (by omega)]
    rfl
  | call func args, canonical, fuel + 1, deep, place => by
    obtain ⟨lower, rest⟩ := canonical
    simp only [toJson, Json.depth, Json.depthMembers] at deep
    show (do return call (Text.lower func) (← (toJsonAll args).mapM (read? fuel .nested))) = _
    rw [mapM_toJsonAll args rest fuel (by omega), lower]
    rfl

theorem mapM_toJsonAll : ∀ es : List Expr, CanonicalAll es → ∀ fuel,
    Json.depthItems (toJsonAll es) < fuel → (toJsonAll es).mapM (read? fuel .nested) = some es
  | [], _, _, _ => rfl
  | e :: es, canonical, fuel, deep => by
    obtain ⟨first, rest⟩ := canonical
    rw [toJsonAll, Json.depthItems] at deep
    rw [toJsonAll, List.mapM_cons, read?_toJson e first fuel (by omega),
      mapM_toJsonAll es rest fuel (by omega)]
    rfl

end

/-! ### What is read -/

end Expr

namespace Json

theorem normalMembers_eq (members : List (String × Json)) :
    normalMembers members = members.map fun member => (member.1, member.2.normal) := by
  induction members with
  | nil => rfl
  | cons member rest ih => rw [normalMembers, List.map_cons, ih]

mutual

/-- A tree without repeated members stays as it is. -/
theorem normal_normal : ∀ tree : Json, tree.normal.normal = tree.normal
  | null | bool _ | num _ | str _ => rfl
  | arr items => by
    rw [normal, normal, normalItems_normalItems items]
  | obj members => by
    have kept : ∀ member ∈ Dict.ofEntries (normalMembers members),
        (member.1, member.2.normal) = member := fun member listed =>
      normal_of_mem_normalMembers members member (Dict.mem_ofEntries listed)
    rw [normal, normal, normalMembers_eq (Dict.ofEntries _), List.map_congr_left kept,
      List.map_id']
    rw [Dict.ofEntries_of_nodup (Dict.nodup_keys_ofEntries _)]

theorem normalItems_normalItems : ∀ items : List Json,
    normalItems (normalItems items) = normalItems items
  | [] => rfl
  | x :: xs => by
    rw [normalItems, normalItems, normal_normal x, normalItems_normalItems xs]

theorem normal_of_mem_normalMembers : ∀ members : List (String × Json),
    ∀ member ∈ normalMembers members, (member.1, member.2.normal) = member
  | [], _, listed => by cases listed
  | (key, value) :: rest, member, listed => by
    rw [normalMembers] at listed
    rcases List.mem_cons.mp listed with rfl | later
    · exact congrArg (Prod.mk key) (normal_normal value)
    · exact normal_of_mem_normalMembers rest member later

end

end Json

namespace Expr

theorem only_read? (fuel : Nat) : ∀ place tree, Only Canonical (read? fuel place tree) := by
  induction fuel with
  | zero => intro place tree; exact .none
  | succ fuel ih =>
    intro place tree
    have part := Json.only_required (ih .nested)
    have name := Json.only_required Codec.lowerText.canonical
    have all : ∀ items : List Expr, (∀ e ∈ items, e.Canonical) → CanonicalAll items :=
      fun items each => (canonicalAll_iff items).mpr each
    rw [read?]
    refine .bind .any fun (kind, rest) _ => .bind .any fun fields _ => ?_
    dsimp only
    split
    · exact .bind .any fun value _ => .pure (Json.normal_normal value)
    · exact (name _).bind fun source lower => (name _).bind fun column lowerColumn =>
        .pure ⟨lower, lowerColumn⟩
    · exact .bind .any fun op _ => (part _).bind fun left first => (part _).bind fun right second =>
        .pure ⟨first, second⟩
    · exact .bind .any fun op _ => (part _).bind fun left first => (part _).bind fun right second =>
        .pure ⟨first, second⟩
    · exact .bind .any fun op _ => (part _).bind fun left first => (part _).bind fun right second =>
        .pure ⟨first, second⟩
    · exact (part _).bind fun operand canonical => .pure canonical
    · exact (part _).bind fun operand canonical => .pure canonical
    · exact (part _).bind fun operand canonical => .bind .any fun negated _ => .pure canonical
    · exact (part _).bind fun operand canonical =>
        (Json.only_required (Json.only_asList? (ih .nested)) _).bind fun items each =>
          .bind .any fun negated _ => .pure ⟨canonical, all items each⟩
    · exact (name _).bind fun func lower =>
        (Json.only_defaulted (Json.only_asList? (ih .nested)) (by simp) _).bind fun args each =>
          .pure ⟨lower, all args each⟩
    · exact .none

/-- Expressions inside statements, nested to any depth, are read back from their trees. -/
theorem codec : Codec ofNestedJson? toJson Canonical where
  reads e canonical := read?_toJson e canonical _ (Nat.lt_succ_self _) .nested
  canonical tree := only_read? _ .nested tree

end Expr
end RecordQuery
