import BugQuery.SortedMap

/-!
# Option values and option sets

An option's value is a flag, a text or a list of texts. An `OptionSet` files
values under the names callers gave, known or not; the order in which they
were given leaves no trace.

* `get?_push`: what a repeated option becomes.
* `get?_withDefaults`: defaults only fill gaps.
-/
namespace BugQuery

inductive OptionValue where
  | flag (on : Bool)
  | text (text : String)
  | list (items : List String)
  deriving DecidableEq, Repr

namespace OptionValue

/-- The value as a list: a text counts as a list of one, a flag as none. -/
def toList? : OptionValue → Option (List String)
  | flag _ => none
  | text s => some [s]
  | list items => some items

def text? : OptionValue → Option String
  | text s => some s
  | _ => none

def flag? : OptionValue → Option Bool
  | flag on => some on
  | _ => none

/-- A further text for a value already there: a list grows, a text becomes a
list of two, a flag gives way. -/
def push (s : String) : OptionValue → OptionValue
  | flag _ => list [s]
  | text t => list [t, s]
  | list items => list (items ++ [s])

end OptionValue

/-- Option values by name. -/
abbrev OptionSet := SortedMap OptionValue

namespace OptionSet

/-- Adds a text to the option `name`, which starts as an empty list. -/
def push (o : OptionSet) (name s : String) : OptionSet :=
  o.insert name (((o.get? name).getD (.list [])).push s)

/-- Takes from `defaults` the options that are not given. -/
def withDefaults (o defaults : OptionSet) : OptionSet := SortedMap.merge defaults o

theorem get?_push (o : OptionSet) (name s k : String) :
    (o.push name s).get? k =
      if name = k then some (((o.get? k).getD (.list [])).push s) else o.get? k := by
  unfold push
  rw [SortedMap.get?_insert]
  by_cases h : name = k <;> simp [h]

theorem get?_withDefaults (o defaults : OptionSet) (k : String) :
    (o.withDefaults defaults).get? k = (o.get? k).or (defaults.get? k) :=
  SortedMap.get?_merge defaults o k

end OptionSet

end BugQuery
