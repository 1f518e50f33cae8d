/-!
# Boolean expressions

An expression is a conjunction of rows, each a disjunction of terms, and may
be negated as a whole. A term compares a field with a value by an operator.

```text
a-substring-1 & b-substring-2 | c-substring-3
└── row 0 ──┘   └────────── row 1 ─────────┘
                └─ col 0 ─┘   └─ col 1 ────┘
```
-/
namespace BugQuery

/-- Where the field of a term comes from. -/
inductive TermField where
  /-- written in the expression, a wire name already -/
  | verbatim (name : String)
  /-- the name of the option that the expression was given for -/
  | shortcut (name : String)
  deriving DecidableEq, Repr

def TermField.name : TermField → String
  | verbatim name => name
  | shortcut name => name

structure Term where
  field : TermField
  operator : String
  value : String
  deriving DecidableEq, Repr

structure Expr where
  negate : Bool
  rows : List (List Term)
  deriving DecidableEq, Repr

namespace Expr

/-- The operators that the search interface knows. -/
def operators : List String :=
  ["equals", "notequals", "anyexact", "substring", "casesubstring", "notsubstring",
   "anywordssubstr", "allwordssubstr", "nowordssubstr", "regexp", "notregexp", "lessthan",
   "lessthaneq", "greaterthan", "greaterthaneq", "anywords", "allwords", "nowords",
   "changedbefore", "changedafter", "changedfrom", "changedto", "changedby", "matches",
   "notmatches", "isempty", "isnotempty"]

def termCount (e : Expr) : Nat := e.rows.flatten.length

/-- The members of a row with their column numbers, which start at `column`. -/
def numbered {α : Type} (column : Nat) : List α → List (Nat × α)
  | [] => []
  | x :: xs => (column, x) :: numbered (column + 1) xs

/-- The members of rows with their row and column numbers, row after row. -/
def positions {α : Type} (row : Nat) : List (List α) → List (Nat × Nat × α)
  | [] => []
  | r :: rs => (numbered 0 r).map (fun (column, x) => (row, column, x)) ++ positions (row + 1) rs

/-- Every term with its row and column, in the order of the text. -/
def positionedTerms (e : Expr) : List (Nat × Nat × Term) := positions 0 e.rows

theorem length_numbered {α : Type} : ∀ (k : Nat) (xs : List α), (numbered k xs).length = xs.length
  | _, [] => rfl
  | k, _ :: xs => by simp [numbered, length_numbered (k + 1) xs]

theorem length_positions {α : Type} : ∀ (k : Nat) (rs : List (List α)),
    (positions k rs).length = rs.flatten.length
  | _, [] => rfl
  | k, r :: rs => by simp [positions, length_numbered, length_positions (k + 1) rs]

theorem length_positionedTerms (e : Expr) : e.positionedTerms.length = e.termCount :=
  length_positions 0 e.rows

end Expr

end BugQuery
