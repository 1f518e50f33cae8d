import BugQuery.FieldTable

/-!
# Which entry of a table decides

Two orders meet in a table: of the layers the last one that knows a name
decides, and in that layer the first entry of the name. They are one order
in the table of a single layer that has all entries, the last layer in
front.

* `lookup_eq_some`, `isSome_lookup`: what a layer finds.
* `lookup_flatten`: one layer with the entries of many finds what the first of them finds.
* `get?_eq_some`, `contains_iff`: what a table finds.
* `get?_insert_layer`: below a layer that knows a name, a new layer has no say about it.
* `get?_precedence`: the order of layers and entries, and what follows for translations.
-/
namespace BugQuery.FieldTable

/-- The layer has an entry for the name. -/
def Knows (layer : List (String × String)) (name : String) : Prop := name ∈ layer.map Prod.fst

/-- The first entry for `name` in the layer gives `wire`. -/
def FirstEntry (layer : List (String × String)) (name wire : String) : Prop :=
  ∃ front back, layer = front ++ (name, wire) :: back ∧ ¬ Knows front name

/-! ## One layer -/

theorem isSome_lookup {layer : List (String × String)} {name : String} :
    (layer.lookup name).isSome = true ↔ Knows layer name := by
  unfold Knows
  simp only [List.lookup_isSome_iff, List.mem_map, beq_iff_eq, eq_comm (a := name)]

theorem lookup_eq_none {layer : List (String × String)} {name : String} :
    layer.lookup name = none ↔ ¬ Knows layer name := by
  rw [← isSome_lookup, Option.not_isSome_iff_eq_none]

theorem lookup_eq_some {layer : List (String × String)} {name wire : String} :
    layer.lookup name = some wire ↔ FirstEntry layer name wire := by
  unfold FirstEntry
  simp only [List.lookup_eq_some_iff, ← lookup_eq_none, List.lookup_eq_none_iff]

theorem lookup_flatten (layers : List (List (String × String))) (name : String) :
    layers.flatten.lookup name = layers.findSome? fun layer => layer.lookup name := by
  induction layers with
  | nil => rfl
  | cons layer layers ih =>
    rw [List.flatten_cons, List.lookup_append, ih, List.findSome?_cons]
    cases layer.lookup name <;> rfl

/-! ## Layers on one another -/

variable {layers lower upper : List (List (String × String))} {name : String}

theorem contains_iff : (FieldTable.mk layers).contains name = true ↔
    ∃ layer ∈ layers, Knows layer name := by
  unfold contains get?
  simp only [List.findSome?_isSome_iff, List.mem_reverse, isSome_lookup]

theorem get?_eq_some {wire : String} : (FieldTable.mk layers).get? name = some wire ↔
    ∃ lower layer upper, layers = lower ++ layer :: upper ∧ FirstEntry layer name wire ∧
      ∀ above ∈ upper, ¬ Knows above name := by
  unfold get?
  simp only [List.findSome?_eq_some_iff, lookup_eq_some, lookup_eq_none]
  -- the search meets the upper layers first, so its past is what lies above
  constructor
  · intro hex
    obtain ⟨past, layer, rest, hlayers, hfirst, hpast⟩ := hex
    refine ⟨rest.reverse, layer, past.reverse, ?_, hfirst, by simpa using hpast⟩
    rw [List.reverse_eq_iff.1 hlayers]
    simp
  · intro hex
    obtain ⟨lower, layer, upper, rfl, hfirst, hupper⟩ := hex
    exact ⟨upper.reverse, layer, lower.reverse, by simp, hfirst, by simpa using hupper⟩

/-- What a layer says is not heard where one above it knows the name. -/
theorem get?_insert_layer (h : ∃ above ∈ upper, Knows above name)
    (layer : List (String × String)) :
    (FieldTable.mk (lower ++ layer :: upper)).get? name =
      (FieldTable.mk (lower ++ upper)).get? name := by
  obtain ⟨wire, hwire⟩ := Option.isSome_iff_exists.1 (contains_iff.2 h)
  rw [List.append_cons, get?_append, get?_append lower upper, hwire, Option.some_or,
    Option.some_or]

/-- How the layers of a table answer for a name. -/
structure Precedence (layers : List (List (String × String))) (name : String) : Prop where
  /-- all entries in one layer, those of the last layer in front -/
  single : (FieldTable.mk layers).get? name =
    (FieldTable.mk [layers.reverse.flatten]).get? name
  /-- the last layer that knows the name decides, by its first entry -/
  found : ∀ wire, (FieldTable.mk layers).get? name = some wire ↔
    ∃ lower layer upper, layers = lower ++ layer :: upper ∧ FirstEntry layer name wire ∧
      ∀ above ∈ upper, ¬ Knows above name
  known : (FieldTable.mk layers).contains name = true ↔ ∃ layer ∈ layers, Knows layer name
  appended : ∀ layer wire, FirstEntry layer name wire →
    (FieldTable.mk (layers ++ [layer])).get? name = some wire
  kept : ∀ layer, ¬ Knows layer name →
    (FieldTable.mk (layers ++ [layer])).get? name = (FieldTable.mk layers).get? name
  inserted : ∀ lower layer upper, layers = lower ++ upper → (∃ above ∈ upper, Knows above name) →
    (FieldTable.mk (lower ++ layer :: upper)).get? name = (FieldTable.mk layers).get? name
  translated : (FieldTable.mk layers).contains name = true →
    (FieldTable.mk layers).get? name = some ((FieldTable.mk layers).translate name)
  untranslated : (FieldTable.mk layers).contains name = false →
    (FieldTable.mk layers).translate name = name

/-- Every table answers for every name by its last layer with the name, and in that layer by the
first entry. -/
theorem get?_precedence (layers : List (List (String × String))) (name : String) :
    Precedence layers name where
  single := by
    rw [get?_single, lookup_flatten]
    rfl
  found wire := get?_eq_some
  known := contains_iff
  appended layer wire h := by rw [get?_append, get?_single, lookup_eq_some.2 h, Option.some_or]
  kept layer h := by rw [get?_append, get?_single, lookup_eq_none.2 h, Option.none_or]
  inserted lower layer upper h hknown := by rw [h, get?_insert_layer hknown]
  translated h := by
    obtain ⟨wire, hwire⟩ := Option.isSome_iff_exists.1 h
    rw [translate, hwire, Option.getD_some]
  untranslated h := by
    have hnone := Option.isNone_iff_eq_none.1 (Option.isSome_eq_false_iff.1 h)
    rw [translate, hnone, Option.getD_none]

/-- A name that both layers have, and has twice in the upper one. -/
example : (FieldTable.mk [[("flag", "a"), ("cc", "b")], [("flag", "c"), ("flag", "d")]]).get? "flag" =
    some "c" := by decide

end BugQuery.FieldTable
