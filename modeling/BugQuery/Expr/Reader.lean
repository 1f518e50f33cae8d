import BugQuery.Expr.Basic
import BugQuery.Expr.Chain
import BugQuery.Text.Pieces

/-!
# Reading boolean expressions

```text
expression := ['!'] term (('&' | '|') term)*
```

A leading `!` negates the whole. In a query of its own a term is
`field-operator-value`, cut at the first two hyphens; given for an option, a
term is a value alone, and the option supplies field and operator. Blanks
around every part are dropped.
-/
namespace BugQuery

/-- Why a text is no boolean expression. -/
inductive Expr.Defect where
  /-- nothing but blanks, or a `!` alone -/
  | emptyExpression
  /-- a separator with nothing on one side -/
  | emptyTerm
  /-- a term with less than two hyphens -/
  | notTriple (term : String)
  /-- a term with nothing before its first or its second hyphen -/
  | missingPart (term : String)
  | unknownOperator (operator : String)
  deriving DecidableEq, Repr

namespace Expr

def Defect.message : Defect → String
  | emptyExpression => "empty expression"
  | emptyTerm => "empty term next to '&' or '|'"
  | notTriple term => "term '" ++ term ++ "' is not of the form field-operator-value"
  | missingPart term => "term '" ++ term ++ "' is missing a field or operator"
  | unknownOperator operator => "unknown search operator '" ++ operator ++ "'"

/-- The text after leading blanks and one `!`, and whether there was a `!`. -/
def body (s : List Char) : Bool × List Char :=
  match Text.trimStart s with
  | '!' :: r => (true, r)
  | r => (false, r)

/-- Reads one segment: trimmed, it must not be empty. -/
def readSegment (term : List Char → Except Defect Term) (s : List Char) : Except Defect Term :=
  match Text.trim s with
  | [] => .error .emptyTerm
  | t => term t

/-- Reads an expression whose terms are read by `term`. -/
def readTerms (term : List Char → Except Defect Term) (s : List Char) : Except Defect Expr :=
  let (negate, b) := body s
  if Text.trim b = [] then .error .emptyExpression
  else do
    let terms ← (Chain.segments b).mapM (readSegment term)
    .ok ⟨negate, terms.rows⟩

/-- A term that names its field and operator: `field-operator-value`. -/
def readTriple (t : List Char) : Except Defect Term :=
  match Text.cut? '-' t with
  | none => .error (.notTriple (String.ofList t))
  | some (field, r) =>
    match Text.cut? '-' r with
    | none => .error (.notTriple (String.ofList t))
    | some (operator, value) =>
      if Text.trim field = [] ∨ Text.trim operator = [] then
        .error (.missingPart (String.ofList t))
      else
        .ok { field := .verbatim (String.ofList (Text.trim field))
              operator := String.ofList (Text.trim operator)
              value := String.ofList (Text.trim value) }

/-- A term that is a value; field and operator are given. -/
def readValue (field operator : String) (t : List Char) : Except Defect Term :=
  .ok { field := .shortcut field, operator := operator, value := String.ofList t }

/-- Reads an expression of whole terms. -/
def read (input : String) : Except Defect Expr := readTerms readTriple input.toList

/-- Reads an expression of values for the option `field`; the operator must be known. -/
def readValues (field operator input : String) : Except Defect Expr :=
  if operator ∈ operators then readTerms (readValue field operator) input.toList
  else .error (.unknownOperator operator)

end Expr

end BugQuery
