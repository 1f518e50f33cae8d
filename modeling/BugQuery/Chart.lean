import BugQuery.Error
import BugQuery.Payload
import BugQuery.Trace

/-!
# Charts: expressions on the wire

An expression becomes a numbered chart: three keys for every term, which
carry the term's position, and one more if the expression is negated.

```text
field{c}-{r}-{k}   type{c}-{r}-{k}   value{c}-{r}-{k}   negate{c}
```
-/
namespace BugQuery

/-- A key for the term at position `p`. -/
def Position.key (p : Position) (stem : String) : String := stem ++ p.text

/-- The wire name of a term's field: what is written stands, an option's name is looked up. -/
def TermField.wire? (fields : FieldTable) : TermField → Option String
  | verbatim name => some name
  | shortcut name => fields.get? name

namespace Chart

def negateKey (chart : Nat) : String := "negate" ++ toString chart

/-- The entries of a term whose field is named `field` on the wire. -/
def termEntries (p : Position) (field : String) (t : Term) : List (String × PayloadValue) :=
  [(p.key "field", .text field), (p.key "type", .text t.operator), (p.key "value", .text t.value)]

/-- The entries of terms, in order; the first shortcut without a wire name is an error. -/
def encodeTerms (fields : FieldTable) (backend : String) (chart : Nat) :
    List (Nat × Nat × Term) → Traced QueryError (List (String × PayloadValue))
  | [] => .ok []
  | (row, column, t) :: ts =>
    match t.field.wire? fields with
    | none => .error (.unsupportedOption t.field.name backend)
    | some field => do
      let p : Position := ⟨chart, row, column⟩
      Traced.note (.chartTerm p field t.operator)
      let rest ← encodeTerms fields backend chart ts
      return termEntries p field t ++ rest

/-- The entries of a whole expression as the chart of this number. -/
def encode (fields : FieldTable) (backend : String) (chart : Nat) (e : Expr) :
    Traced QueryError Payload := do
  let entries ← encodeTerms fields backend chart e.positionedTerms
  let negation := if e.negate then [(negateKey chart, PayloadValue.int 1)] else []
  return SortedMap.ofList (entries ++ negation)

end Chart

end BugQuery
