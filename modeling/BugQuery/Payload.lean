import BugQuery.SortedMap

/-!
# Request payloads and their edits

The body of a search request: wire keys with flat values. Mappings never
nest, and numbers are signed words of 64 bits.

What one option does to a payload is an edit: it clears keys and sets keys.
An edit is made as a whole, clearing first, or not at all.

* `Edit.get?_apply`: what a look-up finds after an edit.
-/
namespace BugQuery

inductive PayloadValue where
  | bool (b : Bool)
  | int (n : Int64)
  | text (s : String)
  | list (items : List String)
  deriving DecidableEq, Repr

namespace PayloadValue

def text? : PayloadValue → Option String
  | text s => some s
  | _ => none

def list? : PayloadValue → Option (List String)
  | list items => some items
  | _ => none

end PayloadValue

/-- Wire values by key. -/
abbrev Payload := SortedMap PayloadValue

/-! ## Edits -/

structure Edit where
  /-- entries to set -/
  entries : Payload := SortedMap.empty
  /-- keys to clear before -/
  cleared : List String := []

namespace Edit

/-- The edit that changes nothing. -/
def none : Edit := {}

/-- Sets one key. -/
def set (key : String) (v : PayloadValue) : Edit := { entries := SortedMap.empty.insert key v }

/-- Sets a key to a list; an empty list sets nothing. -/
def setList (key : String) : List String → Edit
  | [] => none
  | items => set key (.list items)

/-- Sets the keys of all pairs. -/
def setAll (es : List (String × PayloadValue)) : Edit := { entries := SortedMap.ofList es }

/-- Clears one key. -/
def clear (key : String) : Edit := { cleared := [key] }

def apply (e : Edit) (p : Payload) : Payload := (e.cleared.foldl SortedMap.erase p).merge e.entries

theorem get?_foldl_erase (k : String) : ∀ (ks : List String) (p : Payload),
    (ks.foldl SortedMap.erase p).get? k = if k ∈ ks then Option.none else p.get? k
  | [], p => by simp
  | x :: ks, p => by
    rw [List.foldl_cons, get?_foldl_erase k ks, SortedMap.get?_erase]
    by_cases hk : k ∈ ks
    · simp [hk]
    · by_cases hx : x = k
      · simp [hk, hx]
      · simp [hk, hx, Ne.symm hx]

theorem get?_apply (e : Edit) (p : Payload) (k : String) :
    (e.apply p).get? k =
      (e.entries.get? k).or (if k ∈ e.cleared then Option.none else p.get? k) := by
  rw [apply, SortedMap.get?_merge, get?_foldl_erase]

@[simp] theorem apply_none (p : Payload) : none.apply p = p := SortedMap.merge_empty p

end Edit

end BugQuery
