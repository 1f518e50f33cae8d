import BugQuery.Text.Pieces

/-!
# Statuses

A status value is an alias or literal codes. One alias stands for every
status, others for groups of codes; an alias has to be the whole value.
Anything else is a comma list of codes, and a value without a code means
nothing.
-/
namespace BugQuery

/-- What a status value asks for. -/
inductive StatusChoice where
  /-- every status: no condition at all -/
  | any
  | codes (codes : List String)
  deriving DecidableEq, Repr

/-- The alias of every status, and the aliases of groups of codes. -/
structure StatusTable where
  anyAlias : String
  groups : List (String × List String)

namespace StatusTable

def aliases (t : StatusTable) : List String := t.anyAlias :: t.groups.map Prod.fst

/-- The codes of a comma list. -/
def literals (s : List Char) : List String := (Text.entries ',' s).map String.ofList

def expand? (t : StatusTable) (raw : String) : Option StatusChoice :=
  let s := Text.trim raw.toList
  if String.ofList s = t.anyAlias then some .any
  else match t.groups.lookup (String.ofList s) with
    | some codes => some (.codes codes)
    | none =>
      match literals s with
      | [] => none
      | codes => some (.codes codes)

theorem expand?_eq_any {t : StatusTable} {raw : String} :
    t.expand? raw = some .any ↔ String.ofList (Text.trim raw.toList) = t.anyAlias := by
  unfold expand?
  dsimp only
  split
  · simp_all
  · split
    · simp_all
    · split <;> simp_all

/-- The aliases that every backend knows. -/
def standard : StatusTable where
  anyAlias := "ALL"
  groups := [
    ("DEV", ["NEW", "ASSIGNED", "NEEDINFO", "ON_DEV", "MODIFIED", "POST", "REOPENED"]),
    ("QE", ["ASSIGNED", "ON_QA", "FAILS_QA", "PASSES_QA"]),
    ("EOL", ["VERIFIED", "RELEASE_PENDING", "CLOSED"]),
    ("OPEN", ["NEW", "ASSIGNED", "MODIFIED", "ON_DEV", "ON_QA", "VERIFIED", "RELEASE_PENDING",
      "POST"])]

end StatusTable

end BugQuery
