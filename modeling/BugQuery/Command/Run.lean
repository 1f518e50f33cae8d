import BugQuery.Command.Gather
import BugQuery.Command.Line
import BugQuery.Command.Settings
import BugQuery.Query.Compile

/-!
# Running a command

Compiling goes through four stages: load the settings, choose the backend,
gather the options, compile them. The first stage that fails decides, and
nothing is printed then; else the payload is printed as one JSON document
with a line break after it. The listing of backends has a line for each: its
name and aliases, how it writes addresses, and whether it has charts, in
columns.
-/
namespace BugQuery.Listing

/-- `s` with blanks after it, to a width of at least `n` characters. -/
def pad (n : Nat) (s : String) : String := s ++ String.ofList (List.replicate (n - s.length) ' ')

def styleName : EmailStyle → String
  | .plain => "plain"
  | .indexedRoles => "indexed"

def line (b : Backend) : String :=
  pad 18 b.name ++ " aliases: " ++ pad 16 (String.intercalate ", " b.aliases)
    ++ " email: " ++ pad 8 (styleName b.emailStyle)
    ++ " charts: " ++ (if b.supports .booleanQuery then "yes" else "no") ++ "\n"

def text : String := String.join (Backend.all.map line)

end BugQuery.Listing

namespace BugQuery.Command

open CommandLine (Command Invocation)

/-- Compiles gathered options, noting what went in and how much came out. -/
def compile (q : Query) : Traced CommandError Payload := do
  Traced.note (.gatheredOptions q.options.keys)
  let payload ← q.compile.mapError CommandError.query
  Traced.note (.compiledPayload payload.size)
  return payload

/-- The query that a compile command asks for. -/
def query (files : Files) (usual config : Option String) (backend : Option Backend)
    (file : Option String) (given : List String) : Traced CommandError Query := do
  let settings ← Settings.loadOrDefault files usual config
  let chosen ← Traced.ofExcept (settings.resolve backend)
  let options ← Traced.ofExcept (Gather.options files settings.defaults file given)
  return ⟨chosen, options, files⟩

def print (pretty : Bool) (p : Payload) : String :=
  (if pretty then Json.indented p else Json.compact p) ++ "\n"

/-- What a command prints; `usual` is the path of the settings where none is asked for. -/
def run (files : Files) (usual : Option String) (i : Invocation) : Traced CommandError String :=
  match i.command with
  | .backends => .ok Listing.text
  | .compile backend file given pretty => do
    let q ← query files usual i.config backend file given
    return print pretty (← compile q)

/-- The paths that a run of `i` reads, as far as `files` tells: the settings, the options
file, and the file that the gathered options name. -/
def paths (files : Files) (usual : Option String) (i : Invocation) : List String :=
  match i.command with
  | .backends => []
  | .compile backend file given _ =>
    let named := match (query files usual i.config backend file given).result with
      | .ok q => (q.given? .componentsFile).bind OptionValue.text?
      | .error _ => none
    (i.config.or usual).toList ++ file.toList ++ named.toList

end BugQuery.Command
