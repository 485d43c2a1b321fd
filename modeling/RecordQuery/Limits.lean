import RecordQuery.Json.Shape

/-!
# Limits

Bounds on what a statement may read, and their tree in a configuration.
-/
namespace RecordQuery

/-- Bounds on what a statement may read. -/
structure Limits where
  /-- The number of records that are read from one source. -/
  maxScanRows : Nat := 10000
  /-- The length of a LIKE pattern. -/
  maxLikePattern : Nat := 1000
  deriving DecidableEq

namespace Limits

/-- The limits that a tree describes; one that is left out has its usual value. -/
def ofJson? (tree : Json) : Option Limits := do
  match ← Json.fields? ["max_scan_rows", "max_like_pattern"] tree with
  | [scan, pattern] =>
    return {
      maxScanRows := ← Json.defaulted 10000 Json.asCount? scan
      maxLikePattern := ← Json.defaulted 1000 Json.asCount? pattern }
  | _ => none

/-- The limits as a tree. -/
def toJson (l : Limits) : Json :=
  .obj [("max_scan_rows", .ofNat l.maxScanRows), ("max_like_pattern", .ofNat l.maxLikePattern)]

end Limits
end RecordQuery
