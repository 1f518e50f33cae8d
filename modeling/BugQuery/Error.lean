import BugQuery.Backend
import BugQuery.Expr.Reader
import BugQuery.Files

/-!
# What can be wrong with a query

The causes for which options do not compile, and the text of each.
-/
namespace BugQuery

/-- The kinds of value that options ask for. -/
inductive Expected where
  | text
  | textOrList
  | textOrTexts
  | flag
  deriving DecidableEq, Repr

def Expected.message : Expected → String
  | text => "a string"
  | textOrList => "a string or list"
  | textOrTexts => "a string or list of strings"
  | flag => "a flag"

inductive QueryError where
  | malformedExpression (input : String) (defect : Expr.Defect)
  | unsupportedOption (option backend : String)
  | invalidOptionValue (option : SearchOption) (expected : Expected)
  | fileRead (path : String) (cause : ReadError)
  | unknownBackend (name : String)
  deriving DecidableEq, Repr

def QueryError.message : QueryError → String
  | malformedExpression input defect =>
    "malformed boolean expression '" ++ input ++ "': " ++ defect.message
  | unsupportedOption option backend =>
    "option '" ++ option ++ "' is not supported by the " ++ backend ++ " backend"
  | invalidOptionValue option expected =>
    "invalid value for option '" ++ option.name ++ "'\n  hint: expected " ++ expected.message
  | fileRead path cause => "failed to read " ++ path ++ ": " ++ cause.message
  | unknownBackend name =>
    "unknown backend: '" ++ name ++ "'\n  hint: valid backends are: "
      ++ String.intercalate ", " (Backend.all.map Backend.name)

/-- The backend of this name or alias. -/
def Backend.parse (name : String) : Except QueryError Backend :=
  match ofName? name with
  | some b => .ok b
  | none => .error (.unknownBackend name)

/-- The wire name of an option name. -/
def Backend.wireName (b : Backend) (name : String) : Except QueryError String :=
  match b.fields.get? name with
  | some wire => .ok wire
  | none => .error (.unsupportedOption name b.name)

@[simp] theorem Backend.wireName_eq_ok {b : Backend} {name wire : String} :
    b.wireName name = .ok wire ↔ b.fields.get? name = some wire := by
  unfold Backend.wireName
  cases b.fields.get? name <;> simp

/-- Reads an expression of whole terms. -/
def Expr.parse (input : String) : Except QueryError Expr :=
  (Expr.read input).mapError (.malformedExpression input)

/-- Reads an expression of values for the option `field`. -/
def Expr.parseValues (field operator input : String) : Except QueryError Expr :=
  (Expr.readValues field operator input).mapError (.malformedExpression input)

end BugQuery
