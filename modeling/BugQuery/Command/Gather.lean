import BugQuery.Command.Error
import BugQuery.Json.Object
import BugQuery.Toml.Document

/-!
# Gathering options

Options come in three layers: those given one by one, those of an options
file, and the defaults of the settings. A name belongs to the first layer
that has it. Given again in the first layer, a name makes a list.
-/
namespace BugQuery.Gather

/-- Reads `name=value`; without `=` the whole is a name, and has no value. -/
def parse (raw : String) : Except CommandError (String × Option String) :=
  let (name, value) := match Text.cut? '=' raw.toList with
    | some (name, value) => (Text.trim name, some (String.ofList value))
    | none => (Text.trim raw.toList, none)
  if name = [] then .error (.invalidOpt raw) else .ok (String.ofList name, value)

/-- Adds what was given: a bare name is a flag, and a name that is there already gets a
further text. -/
def add (o : OptionSet) (name : String) : Option String → OptionSet
  | none => o.insert name (.flag true)
  | some s => if o.contains name then o.push name s else o.insert name (.text s)

/-- Adds all that was given, in turn. -/
def addAll (o : OptionSet) : List String → Except CommandError OptionSet
  | [] => .ok o
  | raw :: raws => do
    let (name, value) ← parse raw
    addAll (add o name value) raws

/-- Reads an options file; its name tells whether it is JSON or TOML. -/
def fromFile (files : Files) (path : String) : Except CommandError OptionSet :=
  match files.read path with
  | .error cause => .error (.optionsRead cause)
  | .ok text =>
    match Path.extension? path with
    | some "json" =>
      match Json.optionSet? text with
      | some o => .ok o
      | none => .error .optionsJson
    | some "toml" =>
      match Toml.optionSet? text with
      | some o => .ok o
      | none => .error (.configSyntax path)
    | _ => .error (.unsupportedOptionsFile path)

/-- The options of all layers. -/
def options (files : Files) (defaults : OptionSet) (file : Option String) (given : List String) :
    Except CommandError OptionSet := do
  let o ← addAll .empty given
  match file with
  | none => return o.withDefaults defaults
  | some path => return (o.withDefaults (← fromFile files path)).withDefaults defaults

end BugQuery.Gather
