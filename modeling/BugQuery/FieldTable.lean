/-!
# Field name tables

A table gives names their wire names. It is a stack of layers: the last
layer that knows a name decides, and inside a layer the first entry of that
name. A name that no layer knows has no wire name, and translates to itself.

* `get?_append`: of two stacks of layers the upper one decides for the names that it knows.
-/
namespace BugQuery

/-- Layers of pairs (name, wire name), the deciding layer last. -/
structure FieldTable where
  layers : List (List (String × String))
  deriving DecidableEq, Repr

namespace FieldTable

/-- The wire name of `name`, if the table knows it. -/
def get? (t : FieldTable) (name : String) : Option String :=
  t.layers.reverse.findSome? fun layer => layer.lookup name

def contains (t : FieldTable) (name : String) : Bool := (t.get? name).isSome

/-- The wire name of `name`, or `name` where the table does not know it. -/
def translate (t : FieldTable) (name : String) : String := (t.get? name).getD name

theorem get?_single (layer : List (String × String)) (name : String) :
    (FieldTable.mk [layer]).get? name = layer.lookup name := by
  unfold get?
  cases h : layer.lookup name <;> simp [h]

theorem get?_append (lower upper : List (List (String × String))) (name : String) :
    (FieldTable.mk (lower ++ upper)).get? name =
      ((FieldTable.mk upper).get? name).or ((FieldTable.mk lower).get? name) := by
  unfold get?
  rw [List.reverse_append, List.findSome?_append]

end FieldTable

end BugQuery
