import RecordQuery.Calendar.Instant

/-!
# Identifiers of new records

A new record gets an identifier of 32 hexadecimal digits in five groups: the time in milliseconds,
the version 7, and random bits. Identifiers of later milliseconds come later in the order of texts.
-/
namespace RecordQuery.Identifier

open Calendar (Instant)

/-- A number in hexadecimal digits, exactly `width` of them. -/
def hex : Nat → Nat → List Char
  | 0, _ => []
  | width + 1, n => hex width (n / 16) ++ [Nat.digitChar (n % 16)]

/-- The number of random bits in an identifier. -/
def randomBits : Nat := 74

/-- The identifier of a time and random bits. -/
def make (time : Instant) (random : Nat) : String :=
  let millis := time.epochMillis.toNat
  let first := random / Nat.pow 2 62
  let last := Nat.pow 2 63 + random % Nat.pow 2 62
  String.ofList (hex 8 (millis / Nat.pow 2 16) ++ ['-'] ++ hex 4 millis ++ ['-', '7'] ++
    hex 3 first ++ ['-'] ++
    hex 4 (last / Nat.pow 2 48) ++ ['-'] ++ hex 12 last)

end RecordQuery.Identifier
