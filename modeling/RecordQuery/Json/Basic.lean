import RecordQuery.Dict
import RecordQuery.Decimal.Scaled

/-!
# Data trees

The values that records hold and statements compute: null, booleans, numbers, texts, lists and
objects. An integer and a double of the same value are different numbers that compare as equal.
-/
namespace RecordQuery

/-- A number is written as an integer or as a double. -/
inductive Number where
  | int (i : Int)
  | float (x : Float)
  deriving DecidableEq

namespace Number

/-- The number as a double. -/
def toFloat : Number → Float
  | int i => Float.ofInt i
  | float x => x

/-- The number as a double, counted exactly in units of the smallest positive double. -/
def scaled : Number → Int
  | int i => Decimal.scaledInt i
  | float x => (Decimal.scaled? x).getD 0

/-- The number as a double without its fraction. -/
def truncated (n : Number) : Int := n.scaled.tdiv Decimal.unit

/-- The order of two numbers as doubles. -/
def order (m n : Number) : Ordering := compare m.scaled n.scaled

/-- Whether two numbers are written alike: both integers or both doubles, and equal. -/
def same : Number → Number → Bool
  | int i, int j => i == j
  | float x, float y => x == y
  | _, _ => false

/-- Whether an integer fits a signed word of 64 bits. -/
def fitsWord (i : Int) : Bool := -9223372036854775808 ≤ i && i ≤ 9223372036854775807

/-- The number of a double: an integer if it is whole and below `2 ^ 63`; infinities and the
not-a-number value have none. -/
def ofFloat? (x : Float) : Option Number :=
  match Decimal.integer? x with
  | some i => if i.natAbs < Nat.pow 2 63 then some (int i) else some (float x)
  | none => if x.isFinite then some (float x) else none

end Number

/-- A data tree. The members of an object keep their order. -/
inductive Json where
  | null
  | bool (b : Bool)
  | num (n : Number)
  | str (s : String)
  | arr (items : List Json)
  | obj (members : List (String × Json))
  deriving Inhabited

/-- The type of a value, read off its shape. -/
inductive Kind where
  | null | number | string | boolean | array | object
  deriving DecidableEq, Repr

namespace Kind

/-- The name of a type in messages. -/
def name : Kind → String
  | null => "null"
  | number => "number"
  | string => "string"
  | boolean => "boolean"
  | array => "array"
  | object => "object"

/-- The place of a type in the order of values of different types. -/
def rank : Kind → Nat
  | null => 0
  | boolean => 1
  | number => 2
  | string => 3
  | array => 4
  | object => 5

theorem rank_injective {a b : Kind} (h : a.rank = b.rank) : a = b := by
  cases a <;> cases b <;> simp_all [rank]

end Kind

namespace Json

/-- The type of a value. -/
def kind : Json → Kind
  | null => .null
  | bool _ => .boolean
  | num _ => .number
  | str _ => .string
  | arr _ => .array
  | obj _ => .object

/-- Whether a value is null. -/
def isNull : Json → Bool
  | null => true
  | _ => false

/-- The integer as a value. -/
def ofInt (i : Int) : Json := num (.int i)

/-- A natural number as a value. -/
def ofNat (n : Nat) : Json := num (.int n)

/-- The value of a double; null for infinities and the not-a-number value. -/
def ofFloat (x : Float) : Json :=
  match Number.ofFloat? x with
  | some n => num n
  | none => null

/-- A text or null. -/
def ofText? : Option String → Json
  | some s => str s
  | none => null

/-! ## Sameness -/

mutual

/-- Whether two trees are the same; the order of the members of an object does not count. -/
def same : Json → Json → Bool
  | null, null => true
  | bool a, bool b => a == b
  | num m, num n => m.same n
  | str s, str t => s == t
  | arr xs, arr ys => sameItems xs ys
  | obj ms, obj ns => ms.length == ns.length && sameMembers ms ns
  | _, _ => false

/-- Whether two lists hold the same trees in the same order. -/
def sameItems : List Json → List Json → Bool
  | [], [] => true
  | x :: xs, y :: ys => same x y && sameItems xs ys
  | _, _ => false

/-- Whether each member of the first object is in the second. -/
def sameMembers : List (String × Json) → List (String × Json) → Bool
  | [], _ => true
  | (key, value) :: rest, ns =>
    (match Dict.get? ns key with
      | some other => same value other
      | none => false) && sameMembers rest ns

end

instance : BEq Json := ⟨same⟩

/-! ## Depth -/

mutual

/-- How many lists and objects are nested in a tree, at the deepest place. -/
def depth : Json → Nat
  | arr items => depthItems items + 1
  | obj members => depthMembers members + 1
  | _ => 0

/-- The greatest depth in a list. -/
def depthItems : List Json → Nat
  | [] => 0
  | x :: xs => max (depth x) (depthItems xs)

/-- The greatest depth among the values of members. -/
def depthMembers : List (String × Json) → Nat
  | [] => 0
  | (_, value) :: rest => max (depth value) (depthMembers rest)

end

/-! ## Repeated members -/

mutual

/-- The tree in which a repeated member of an object keeps its first place and its last value. -/
def normal : Json → Json
  | arr items => arr (normalItems items)
  | obj members => obj (Dict.ofEntries (normalMembers members))
  | other => other

/-- Normalises each tree of a list. -/
def normalItems : List Json → List Json
  | [] => []
  | x :: xs => normal x :: normalItems xs

/-- Normalises the value of each member. -/
def normalMembers : List (String × Json) → List (String × Json)
  | [] => []
  | (key, value) :: rest => (key, normal value) :: normalMembers rest

end

end Json
end RecordQuery
