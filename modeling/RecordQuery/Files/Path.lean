/-!
# Paths of files

A path is a text of names joined by slashes. One that starts with a slash is absolute. Empty names
and the name `.` do not count, unless `.` is the first name.
-/
namespace RecordQuery.Files

/-- Whether a path does not depend on where it is resolved. -/
def isAbsolute (path : String) : Bool := path.toList.head? == some '/'

/-- Drops names that do not count from the end; the first name of a list is kept unless it is
empty. -/
def dropIdle : List String → List String
  | [] => []
  | first :: rest =>
    let kept := (rest.reverse.dropWhile fun name => name == "" || name == ".").reverse
    if kept.isEmpty && first == "" then [] else first :: kept

/-- The directory that a path lies in; none for the root and the empty path. -/
def parent? (path : String) : Option String :=
  let rooted := isAbsolute path
  let body := if rooted then String.ofList (path.toList.dropWhile (· == '/')) else path
  match dropIdle (body.splitOn "/") with
  | [] => none
  | names =>
    let directory := "/".intercalate (dropIdle names.dropLast)
    some (if rooted then "/" ++ directory else directory)

/-- A path that is resolved from a directory. -/
def join (directory path : String) : String :=
  if isAbsolute path || directory.isEmpty then path
  else if directory.toList.getLast? == some '/' then directory ++ path
  else directory ++ "/" ++ path

/-- The last name of a path; none if it leads upwards or nowhere. -/
def fileName? (path : String) : Option String :=
  match (dropIdle (path.splitOn "/")).getLast? with
  | some name => if name == "" || name == "." || name == ".." then none else some name
  | none => none

/-- What follows the last point of the last name; a point at its start does not count. -/
def extension? (path : String) : Option String := do
  let name ← fileName? path
  let letters := name.toList.reverse
  match letters.dropWhile (· != '.') with
  | _ :: _ :: _ => return String.ofList (letters.takeWhile (· != '.')).reverse
  | _ => none

end RecordQuery.Files
