import BugQuery.Command.Error
import BugQuery.Toml.Document
import BugQuery.Trace

/-!
# Settings

A settings file may name a backend, and options that lie underneath those of
every query. It holds nothing else.

```toml
backend = "rhbugzilla"

[defaults]
product = "Fedora"
bug_status = "DEV"
```
-/
namespace BugQuery

structure Settings where
  backend : Option Backend := none
  defaults : OptionSet := SortedMap.empty

namespace Settings

/-- The backend that a value names: by its exact name or an alias, as a text or as the one
key, without content, of a table. -/
def backend? : Toml.Node → Option Backend
  | .setting (.text name) => Backend.ofExactName? name
  | .table _ [(name, .table _ [])] => Backend.ofExactName? name
  | .table _ [(name, .setting (.list []))] => Backend.ofExactName? name
  | _ => none

def defaults? : Toml.Node → Option OptionSet
  | .table _ es => Toml.Entries.toOptionSet? es
  | .setting _ => none

/-- Adds an entry of the document to the settings. -/
def add (s : Settings) : String × Toml.Node → Option Settings
  | ("backend", n) => (backend? n).map fun b => { s with backend := some b }
  | ("defaults", n) => (defaults? n).map fun o => { s with defaults := o }
  | _ => none

/-- The settings that a document gives. -/
def ofToml? (text : String) : Option Settings :=
  (Toml.document? text).bind fun es => es.foldlM add {}

def load (files : Files) (path : String) : Traced CommandError Settings :=
  match files.read path with
  | .error cause => .error (.configRead path cause)
  | .ok text =>
    match ofToml? text with
    | none => .error (.configSyntax path)
    | some s => do
      Traced.note (.loadedConfig path)
      return s

/-- Loads the file that was asked for, else the usual one where it exists, else nothing. -/
def loadOrDefault (files : Files) (usual explicit : Option String) :
    Traced CommandError Settings :=
  match explicit, usual with
  | some path, _ => load files path
  | none, some path => if files.isFile path then load files path else .ok {}
  | none, none => .ok {}

/-- The backend asked for, else the one of the settings. -/
def resolve (s : Settings) (asked : Option Backend) : Except CommandError Backend :=
  match asked.or s.backend with
  | some b => .ok b
  | none => .error .noBackend

end Settings

end BugQuery
