import RecordQuery.Json.Basic

/-!
# Reading structures out of data trees

A structure is written as an object whose members are its fields, in any order and among others, or
as the list of its fields in their declared order. One of several structures is told by a member
`kind`, or by the first item of the list.
-/
namespace RecordQuery.Json

/-! ## Scalars -/

/-- A text. -/
def asText? : Json → Option String
  | str s => some s
  | _ => none

/-- A boolean. -/
def asBool? : Json → Option Bool
  | bool b => some b
  | _ => none

/-- A count: an integer from 0 up to the largest word. -/
def asCount? : Json → Option Nat
  | num (.int i) => if 0 ≤ i && i < Nat.pow 2 64 then some i.toNat else none
  | _ => none

/-- A list whose items can all be read. -/
def asList? {α : Type} (read : Json → Option α) : Json → Option (List α)
  | arr items => items.mapM read
  | _ => none

/-- The members of an object, repetitions merged. -/
def asDict? : Json → Option (Dict Json)
  | obj members => some (Dict.ofEntries (normalMembers members))
  | _ => none

/-! ## Fields of a structure -/

/-- How often a key occurs among members. -/
def occurrences (members : List (String × Json)) (key : String) : Nat :=
  (members.filter (·.1 == key)).length

/-- The values of the fields of a structure, `none` for those that are left out. A repeated field
and a list that is too long are refused. -/
def fields? (names : List String) : Json → Option (List (Option Json))
  | obj members =>
    if names.all (occurrences members · ≤ 1) then some (names.map (Dict.get? members)) else none
  | arr items =>
    if items.length ≤ names.length then
      some (items.map some ++ List.replicate (names.length - items.length) none)
    else none
  | _ => none

/-- A field that has to be there. -/
def required {α : Type} (read : Json → Option α) (field : Option Json) : Option α := field.bind read

/-- A field with a value of its own when it is left out. -/
def defaulted {α : Type} (value : α) (read : Json → Option α) : Option Json → Option α
  | none => some value
  | some tree => read tree

/-- A field that may be left out or null. -/
def optional {α : Type} (read : Json → Option α) : Option Json → Option (Option α)
  | none => some none
  | some null => some none
  | some tree => (read tree).map some

/-! ## Choices -/

/-- Whether a tree stands on its own or inside a structure that is told by its kind. -/
inductive Place where
  | alone | nested
  deriving DecidableEq

/-- The one of the given names that a tag stands for; inside another structure a tag may be the
position of the name. -/
def asTag? (place : Place) (names : List String) : Json → Option String
  | str s => if s ∈ names then some s else none
  | num (.int i) => if place = .nested ∧ 0 ≤ i then names[i.toNat]? else none
  | _ => none

/-- Splits a structure into its tag and the tree of its other fields. -/
def tagged? (place : Place) (names : List String) : Json → Option (String × Json)
  | obj members =>
    if occurrences members "kind" = 1 then
      match Dict.get? members "kind" with
      | some tag =>
        (asTag? place names tag).map fun name => (name, obj (members.filter (·.1 != "kind")))
      | none => none
    else none
  | arr (tag :: items) => (asTag? place names tag).map fun name => (name, arr items)
  | _ => none

/-- One of the given names: a text, or an object whose only member has that name and no content. -/
def asName? (place : Place) (names : List String) : Json → Option String
  | str s => if s ∈ names then some s else none
  | obj [(s, null)] => if s ∈ names then some s else none
  | obj [(s, obj [])] => if s ∈ names ∧ place = .nested then some s else none
  | _ => none

/-- The only member of an object. -/
def asSingle? : Json → Option (String × Json)
  | obj [member] => some member
  | _ => none

end RecordQuery.Json
