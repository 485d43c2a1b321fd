/-!
# Dictionaries in order of insertion

A dictionary is the list of its entries. A new key goes to the end, a known key keeps its place,
and a removed entry is replaced by the last one.
-/
namespace RecordQuery

/-- Entries in order of insertion; each key occurs once in a dictionary built by `Dict.insert`. -/
abbrev Dict (α : Type) := List (String × α)

namespace Dict
variable {α : Type}

/-- The value stored under a key. -/
def get? : Dict α → String → Option α
  | [], _ => none
  | (k, v) :: rest, key => if k = key then some v else get? rest key

/-- Whether a key is present. -/
def hasKey (d : Dict α) (key : String) : Bool := (get? d key).isSome

/-- Stores a value under a key: in place if the key is present, else at the end. -/
def insert : Dict α → String → α → Dict α
  | [], key, value => [(key, value)]
  | (k, v) :: rest, key, value =>
    if k = key then (k, value) :: rest else (k, v) :: insert rest key value

/-- The dictionary of a list of entries: a repeated key keeps its first place and its last value. -/
def ofEntries (entries : List (String × α)) : Dict α :=
  entries.foldl (fun d e => insert d e.1 e.2) []

/-- Adds all entries of the second dictionary to the first. -/
def insertAll (d e : Dict α) : Dict α := e.foldl (fun d entry => insert d entry.1 entry.2) d

/-- Removes a key; the last entry moves into the gap. -/
def swapRemove (d : Dict α) (key : String) : Dict α :=
  if hasKey d key then
    match d.getLast? with
    | none => d
    | some last => d.dropLast.map fun entry => if entry.1 = key then last else entry
  else d

/-- The keys in order of insertion. -/
def keys (d : Dict α) : List String := d.map (·.1)

@[simp] theorem get?_nil (key : String) : get? ([] : Dict α) key = none := rfl

theorem get?_insert_self (d : Dict α) (key : String) (value : α) :
    get? (insert d key value) key = some value := by
  induction d with
  | nil => simp [insert, get?]
  | cons entry rest ih =>
    by_cases h : entry.1 = key <;> simp [insert, get?, h, ih]

theorem get?_insert_of_ne (d : Dict α) {key other : String} (value : α) (ne : other ≠ key) :
    get? (insert d key value) other = get? d other := by
  induction d with
  | nil => simp [insert, get?, Ne.symm ne]
  | cons entry rest ih =>
    by_cases h : entry.1 = key
    · simp [insert, get?, h, Ne.symm ne]
    · by_cases ho : entry.1 = other <;> simp [insert, get?, h, ho, ih, ne]

end Dict
end RecordQuery
