import BugQuery.Command.Run

/-!
# The program

Reads what a run asks for, runs, and prints: the result on the standard
output, errors and, if asked for, events on the error output.
-/
namespace BugQuery.Main

open CommandLine (Stop)

def helpText : String :=
  "Compile bug tracker search options into API request payloads

Usage: bzq [OPTIONS] <COMMAND>

Commands:
  compile   Compile query options into a request payload (printed as JSON)
  backends  List supported backends and their aliases
  help      Print this message

Options:
      --config <PATH>        Config file (default: <config dir>/bzq/config.toml)
  -v, --verbose              Log compilation steps to stderr
  -h, --help                 Print help
  -V, --version              Print version

Options of compile:
  -b, --backend <BACKEND>    API generation to compile for (overrides the config file)
      --options <FILE>       Read options from a JSON or TOML file
  -o, --opt <KEY=VALUE>      Set an option; a bare key sets a flag; repeat to build a list
      --pretty               Pretty-print the payload
"

def readError : IO.Error → ReadError
  | .noFileOrDirectory .. => .notFound
  | .inappropriateType _ 21 _ => .isDirectory
  | .inappropriateType .. => .notDirectory
  | e => .system (toString e)

def readText (path : String) : IO (Except ReadError String) := do
  try
    match String.fromUTF8? (← IO.FS.readBinFile path) with
    | some s => return .ok s
    | none => return .error .invalidText
  catch e => return .error (readError e)

/-- The files that have been read, as a run sees them. -/
def filesOf (known : List (String × Except ReadError String)) : Files where
  read path := (known.lookup path).getD (.error .notFound)
  isFile path :=
    match known.lookup path with
    | some (.ok _) | some (.error .invalidText) | some (.error (.system _)) => true
    | _ => false

def readAll (paths : List String) : IO (List (String × Except ReadError String)) :=
  paths.mapM fun path => return (path, ← readText path)

/-- The usual path of the settings. -/
def usualConfig : IO (Option String) := do
  let dir ← match ← IO.getEnv "XDG_CONFIG_HOME" with
    | some dir => pure (some dir)
    | none => pure ((← IO.getEnv "HOME").map (· ++ "/.config"))
  return dir.map (· ++ "/bzq/config.toml")

def eventLine (e : Event) : String :=
  e.level.name ++ " " ++ e.message ++ String.join (e.fields.map fun f => " " ++ f.1 ++ "=" ++ f.2)

def runInvocation (i : CommandLine.Invocation) : IO UInt32 := do
  let usual ← usualConfig
  let known ← readAll (Command.paths (filesOf []) usual i)
  -- what the settings and the options file say may name one more file
  let known ← readAll (Command.paths (filesOf known) usual i)
  let run := Command.run (filesOf known) usual i
  if i.verbose then
    for e in run.events.filter (·.level = .debug) do IO.eprintln (eventLine e)
  match run.result with
  | .ok text =>
    IO.print text
    return 0
  | .error e =>
    IO.eprintln ("error: " ++ e.message)
    return 1

end BugQuery.Main

def main (args : List String) : IO UInt32 := do
  match BugQuery.CommandLine.parse args with
  | .ok i => BugQuery.Main.runInvocation i
  | .error .help =>
    IO.print BugQuery.Main.helpText
    return 0
  | .error .version =>
    IO.print BugQuery.CommandLine.versionText
    return 0
  | .error .usage =>
    IO.eprint BugQuery.Main.helpText
    return 2
