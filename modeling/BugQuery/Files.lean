import BugQuery.Text.Pieces

/-!
# Paths and files as a run sees them

A path is a row of names with slashes between them. A run reads texts by
path and asks whether a path is a file; what there is to be read is given to
it. A reading that fails says why.
-/
namespace BugQuery.Path

def names (path : String) : List (List Char) := Text.pieces '/' path.toList

def fileName (path : String) : List Char := (names path).getLastD []

/-- What follows the last point of a file name, if something precedes that point. -/
def extension? (path : String) : Option String :=
  match Text.cut? '.' (fileName path).reverse with
  | none | some (_, []) => none
  | some (ext, _) => some (String.ofList ext.reverse)

example : extension? "a/query.json" = some "json" ∧ extension? ".json" = none
    ∧ extension? "..json" = some "json" ∧ extension? "json" = none := by decide +kernel

end BugQuery.Path

namespace BugQuery

/-- Why a file gave no text. -/
inductive ReadError where
  | notFound
  | notDirectory
  | isDirectory
  | nameTooLong
  /-- a path with a NUL character names no file -/
  | nulInPath
  /-- the content is not UTF-8 -/
  | invalidText
  /-- any other reason, in the system's words -/
  | system (reason : String)
  deriving DecidableEq, Repr

def ReadError.message : ReadError → String
  | notFound => "No such file or directory (os error 2)"
  | notDirectory => "Not a directory (os error 20)"
  | isDirectory => "Is a directory (os error 21)"
  | nameTooLong => "File name too long (os error 36)"
  | nulInPath => "file name contained an unexpected NUL byte"
  | invalidText => "stream did not contain valid UTF-8"
  | system reason => reason

/-- What reading each path gives, and which paths are files. -/
structure Files where
  read : String → Except ReadError String
  isFile : String → Bool

end BugQuery
