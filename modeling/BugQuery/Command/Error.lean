import BugQuery.Error

/-!
# What can go wrong in a run of the command

The causes beyond those of the query itself, and the text of each.
-/
namespace BugQuery

inductive CommandError where
  | query (e : QueryError)
  /-- an option given without a name -/
  | invalidOpt (raw : String)
  | noBackend
  /-- an options file that is neither JSON nor TOML by its name -/
  | unsupportedOptionsFile (path : String)
  /-- an options file that cannot be read -/
  | optionsRead (cause : ReadError)
  /-- a JSON options file that holds no options -/
  | optionsJson
  /-- settings that cannot be read -/
  | configRead (path : String) (cause : ReadError)
  /-- a TOML file that holds no settings, or no options -/
  | configSyntax (path : String)
  deriving DecidableEq, Repr

def CommandError.message : CommandError → String
  | query e => e.message
  | invalidOpt raw =>
    "invalid --opt '" ++ raw ++ "'\n  hint: use key=value, or a bare key for a flag"
  | noBackend =>
    "no backend selected\n  hint: pass --backend or set `backend` in the config file"
  | unsupportedOptionsFile path =>
    "unsupported options file '" ++ path ++ "'\n  hint: use a .json or .toml file"
  | optionsRead cause => "io error: " ++ cause.message
  | optionsJson => "json error: expected an object of flags, texts and lists of texts"
  | configRead path cause => "config error: failed to read " ++ path ++ ": " ++ cause.message
  | configSyntax path => "config error: failed to parse " ++ path

end BugQuery
