import BugQuery.Files

/-!
# Files held in memory

A tree of files, given by their paths from its root; the directories above
them exist too. Paths are resolved from the root, name by name: `.` and empty
names stay, `..` goes up, and nothing can be found above the root.
-/
namespace BugQuery

/-- Contents by path, each path a row of names. -/
structure FileTree where
  files : List (List (List Char) × ByteArray)

namespace FileTree

def isBlankName (name : List Char) : Bool := name = [] || name = ['.']

/-- The row of names that a path amounts to, going down from `dir`. -/
def plainNames : List (List Char) → List (List Char) → List (List Char)
  | dir, [] => dir
  | dir, n :: ns =>
    if isBlankName n then plainNames dir ns
    else if n = ['.', '.'] then plainNames dir.dropLast ns
    else plainNames (dir ++ [n]) ns

def ofList (files : List (String × ByteArray)) : FileTree :=
  ⟨files.map fun f => (plainNames [] (Path.names f.1), f.2)⟩

def content? (t : FileTree) (names : List (List Char)) : Option ByteArray := t.files.lookup names

def isDirectory (t : FileTree) (names : List (List Char)) : Bool :=
  names.isEmpty || t.files.any fun f => names.isPrefixOf f.1 && names ≠ f.1

/-- Goes from `dir` along names; the result is a file or a directory of the tree. -/
def walk (t : FileTree) : List (List Char) → List (List Char) → Except ReadError (List (List Char))
  | dir, [] => .ok dir
  | dir, n :: ns =>
    if !t.isDirectory dir then .error .notDirectory
    else if isBlankName n then t.walk dir ns
    else if n = ['.', '.'] then
      if !dir.isEmpty then t.walk dir.dropLast ns
      else if ns.all isBlankName then .ok []
      else .error .notFound
    else if (String.ofList n).utf8ByteSize > 255 then .error .nameTooLong
    else if t.isDirectory (dir ++ [n]) || (t.content? (dir ++ [n])).isSome then
      t.walk (dir ++ [n]) ns
    else .error .notFound

def find (t : FileTree) (path : String) : Except ReadError (List (List Char)) :=
  if '\x00' ∈ path.toList then .error .nulInPath
  else if path.isEmpty || path.toList.head? = some '/' then .error .notFound
  else if path.utf8ByteSize ≥ 4096 then .error .nameTooLong
  else t.walk [] (Path.names path)

def read (t : FileTree) (path : String) : Except ReadError String :=
  match t.find path with
  | .error e => .error e
  | .ok names =>
    match t.content? names with
    | none => .error .isDirectory
    | some bytes =>
      match String.fromUTF8? bytes with
      | none => .error .invalidText
      | some s => .ok s

def isFile (t : FileTree) (path : String) : Bool :=
  match t.find path with
  | .ok names => (t.content? names).isSome
  | .error _ => false

def toFiles (t : FileTree) : Files := ⟨t.read, t.isFile⟩

end FileTree

end BugQuery
