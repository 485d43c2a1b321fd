import RecordQuery.Dict
import RecordQuery.Files.Path

/-!
# Reading files

Whoever needs a file is given a way to read files, so that the same code works on a disk and on a
directory that is held in memory.
-/
namespace RecordQuery.Files

/-- Why a file cannot be read. -/
inductive ReadError where
  | missing
  | notDirectory
  | isDirectory
  | notText
  | other (detail : String)
  deriving DecidableEq

/-- The description of why a file cannot be read. -/
def ReadError.message : ReadError → String
  | missing => "No such file or directory (os error 2)"
  | notDirectory => "Not a directory (os error 20)"
  | isDirectory => "Is a directory (os error 21)"
  | notText => "stream did not contain valid UTF-8"
  | other detail => detail

/-- A way to read the text of the file at a path. -/
abbrev FileReader (m : Type → Type) := String → m (Except ReadError String)

/-! ## Directories in memory -/

/-- A directory with the texts of the files below it, by their paths inside it. Relative paths are
resolved in it, and so are absolute ones that begin with its own path. -/
structure Directory where
  path : String
  files : Dict String

namespace Directory

/-- The names that lead to each file. -/
def places (d : Directory) : List (List String × String) :=
  d.files.map fun entry => (entry.1.splitOn "/", entry.2)

/-- Whether names lead to a directory. -/
def hasDirectory (d : Directory) (place : List String) : Bool :=
  place.isEmpty ||
    d.places.any fun entry => place.isPrefixOf entry.1 && entry.1.length != place.length

/-- The text of the file that names lead to. -/
def fileAt? (d : Directory) (place : List String) : Option String := d.places.lookup place

/-- Reads the file that the remaining names lead to from a place. -/
def readFrom (d : Directory) (place : List String) : List String → Except ReadError String
  | [] =>
    match d.fileAt? place with
    | some text => .ok text
    | none => .error (if d.hasDirectory place then .isDirectory else .missing)
  | name :: rest =>
    if d.hasDirectory place then
      if name = "" ∨ name = "." then readFrom d place rest
      else if name = ".." then
        if place.isEmpty then .error .missing else readFrom d place.dropLast rest
      else readFrom d (place ++ [name]) rest
    else .error (if (d.fileAt? place).isSome then .notDirectory else .missing)

/-- Reads the file at a path. -/
def read (d : Directory) (path : String) : Except ReadError String :=
  if path.isEmpty then .error .missing
  else
    let names := path.splitOn "/"
    let own := d.path.splitOn "/"
    if !d.path.isEmpty && own.isPrefixOf names then d.readFrom [] (names.drop own.length)
    else if isAbsolute path then .error .missing
    else d.readFrom [] names

end Directory
end RecordQuery.Files
