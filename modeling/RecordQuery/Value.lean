import RecordQuery.Json.Printer
import RecordQuery.Decimal.Reading
import RecordQuery.Text.Blank
import RecordQuery.Schema.Basic

/-!
# Values

What evaluating an expression yields: a data tree, and the column it was read from. The coercions to
numbers, texts and booleans never fail, and values of one type have an order.
-/
namespace RecordQuery

namespace Json

/-! ## Coercions -/

/-- The value as a double; the not-a-number value if it is none. -/
def toNumber : Json → Float
  | num n => n.toFloat
  | str s => (Decimal.read? (Text.trim s.toList)).getD (0.0 / 0.0)
  | bool b => if b then 1.0 else 0.0
  | _ => 0.0 / 0.0

/-- The text of a number inside texts: a double that is whole and below `10 ^ 15` has no point. -/
def numberText : Number → String
  | .int i => toString i
  | .float x =>
    match Decimal.integer? x with
    | some i => if i.natAbs < Nat.pow 10 15 then toString i else (Number.float x).text
    | none => (Number.float x).text

/-- The value as a text; null is the empty one. -/
def toText : Json → String
  | null => ""
  | str s => s
  | bool b => if b then "true" else "false"
  | num n => numberText n
  | other => other.text

/-- The value as a boolean: null, zero and what is empty are false. -/
def toBool : Json → Bool
  | null => false
  | bool b => b
  | num n => n.scaled != 0
  | str s => !s.isEmpty
  | arr items => !items.isEmpty
  | obj members => !members.isEmpty

/-! ## Order -/

/-- The order of two values of one type: numbers by value, texts by code points, false before true,
others by their texts. -/
def order : Json → Json → Ordering
  | num m, num n => m.order n
  | str s, str t => compare s t
  | bool a, bool b => compare a b
  | a, b => compare a.toText b.toText

/-- The order of any two values: by the rank of their types, and then within the type. -/
def sortOrder (a b : Json) : Ordering :=
  if a.kind = b.kind then order a b else compare a.kind.rank b.kind.rank

end Json

/-- The column that a value was read from; system columns and whole rows have no field. -/
structure Origin where
  typeName : String
  field : Option Field
  deriving DecidableEq

/-- The result of an evaluation. -/
structure Value where
  raw : Json
  origin : Option Origin := none

namespace Value

/-- A value that was read from no column. -/
def of (raw : Json) : Value := { raw }

/-- The null value. -/
def null : Value := of .null

/-- A boolean value. -/
def bool (b : Bool) : Value := of (.bool b)

/-- The value of a double; null if it is not finite. -/
def float (x : Float) : Value := of (.ofFloat x)

/-- A text value. -/
def text (s : String) : Value := of (.str s)

/-- Whether the value is null. -/
def isNull (v : Value) : Bool := v.raw.isNull

/-- The type of the value, which is that of its tree and not of the column. -/
def kind (v : Value) : Kind := v.raw.kind

end Value
end RecordQuery
