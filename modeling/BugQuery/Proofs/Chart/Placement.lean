import BugQuery.Proofs.Chart.Entries
import BugQuery.Proofs.Expr.Grammar
import BugQuery.Proofs.Expr.Segments

/-!
# The chart of a text

Where a term comes to stand on the wire can be told from the text alone: its
row is the number of `&` before its segment, and its column the number of `|`
since the last of them. The chart of a text that was read has three entries
for every segment, at the segment's place, and one more for a leading `!`.

* `Triple`, `term_of_fits`: the three parts of a whole term, in the segment as it was written.
* `Shows`: what the chart of a text holds.
* `encode_shows`: the chart of every text that is read is one of that kind.
-/
namespace BugQuery

open Text (trim isBlank)

namespace Expr

/-- The segment `s` writes a whole term: its first two hyphens stand between the parts. -/
structure Triple (s field operator value : List Char) : Prop where
  text : s = field ++ '-' :: (operator ++ '-' :: value)
  field : '-' ∉ field
  operator : '-' ∉ operator

theorem hyphen_not_mem_of_isBlank {w : List Char} (h : ∀ c ∈ w, isBlank c = true) : '-' ∉ w :=
  fun hm => absurd (h _ hm) (by decide)

/-- A segment with the form of a whole term is a triple, blanks and all, and the term is made of
its parts. -/
theorem term_of_fits {s : List Char} (h : wholeTerm.Fits (trim s)) : ∃ field operator value,
    Triple s field operator value ∧ wholeTerm.term (trim s) =
      { field := .verbatim (String.ofList (trim field))
        operator := String.ofList (trim operator)
        value := String.ofList (trim value) } := by
  obtain ⟨-, htwo, -, -⟩ := h
  obtain ⟨w, w', hw, hw', hs⟩ := Text.exists_trim_between s
  have hfirst : '-' ∈ trim s := List.count_pos_iff.1 (by omega)
  obtain ⟨field, r, ht, hfield⟩ := List.eq_append_cons_of_mem hfirst
  rw [ht, count_append_hyphen hfield] at htwo
  have hsecond : '-' ∈ r := List.count_pos_iff.1 (by omega)
  obtain ⟨operator, value, rfl, hoperator⟩ := List.eq_append_cons_of_mem hsecond
  refine ⟨w ++ field, operator, value ++ w', ⟨?_, ?_, hoperator⟩, ?_⟩
  · rw [hs, ht]
    simp
  · rw [List.mem_append, not_or]
    exact ⟨hyphen_not_mem_of_isBlank hw, hfield⟩
  · rw [wholeTerm, ht]
    simp only [beforeHyphen_append hfield, afterHyphen_append hfield,
      beforeHyphen_append hoperator, afterHyphen_append hoperator, Text.trim_blanks_append hw,
      Text.trim_append_of_isBlank hw']

/-- The terms of a text by row and column, if every segment has the form. -/
theorem term?_of_rows {form : TermForm} {e : Expr} {b : List Char}
    (h : e.rows = (cells b).map (List.map form.term)) (r k : Nat) :
    e.term? r k = (cell? b r k).map form.term := by
  rw [term?, cell?, h, List.getElem?_map]
  cases (cells b)[r]? <;> simp

end Expr

namespace Chart

open BugQuery.Expr (Segment rowNumber columnNumber Triple)

/-- The place of a segment after the text `before`, in chart number `c`. -/
def placeOf (c : Nat) (before : List Char) : Position := ⟨c, rowNumber before, columnNumber before⟩

/-- The payload `p` is chart number `c` of a text with the body `b`: every segment has its parts,
trimmed, at its place, and but for the mark of a negation there is nothing else. -/
structure Shows (c : Nat) (negate : Bool) (b : List Char) (p : Payload) : Prop where
  segments : ∀ before s after, Segment b before s after → ∃ field operator value,
    Triple s field operator value ∧
    p.get? ((placeOf c before).key "field") = some (.text (String.ofList (trim field))) ∧
    p.get? ((placeOf c before).key "type") = some (.text (String.ofList (trim operator))) ∧
    p.get? ((placeOf c before).key "value") = some (.text (String.ofList (trim value)))
  negation : p.get? (negateKey c) = if negate then some (.int 1) else none
  keys : ∀ k ∈ p.keys, k = negateKey c ∨ ∃ before s after, Segment b before s after ∧
    k ∈ ["field", "type", "value"].map (placeOf c before).key
  size : p.size = 3 * (1 + b.count '&' + b.count '|') + if negate then 1 else 0

theorem shows_fragment {fields : FieldTable} {c : Nat} {e : Expr} {b : List Char}
    (hrows : e.rows = (Expr.cells b).map (List.map Expr.wholeTerm.term))
    (hfits : ∀ t ∈ Expr.segmentsOf b, Expr.wholeTerm.Fits t) :
    Shows c e.negate b (fragment fields (c, e)) where
  segments before s after h := by
    have hcell : Expr.cell? b (rowNumber before) (columnNumber before) = some (trim s) :=
      Expr.cell?_eq_some.2 ⟨before, s, after, h, rfl, rfl, rfl⟩
    have hmem : trim s ∈ Expr.segmentsOf b := by
      obtain ⟨row, hrow, hs⟩ := Option.bind_eq_some_iff.1 hcell
      rw [← Expr.flatten_cells]
      exact List.mem_flatten.2 ⟨row, List.mem_of_getElem? hrow, List.mem_of_getElem? hs⟩
    obtain ⟨field, operator, value, htriple, hterm⟩ := Expr.term_of_fits (hfits _ hmem)
    have hheld : e.term? (rowNumber before) (columnNumber before) = some
        { field := .verbatim (String.ofList (trim field))
          operator := String.ofList (trim operator)
          value := String.ofList (trim value) } := by
      rw [Expr.term?_of_rows hrows, hcell, Option.map_some, hterm]
    refine ⟨field, operator, value, htriple, ?_, ?_, ?_⟩
    · refine (get?_key_fragment fields (c, e) (s := .field (placeOf c before)) rfl).trans ?_
      simp [Slot.held?, placeOf, hheld, TermField.wireName]
    · refine (get?_key_fragment fields (c, e) (s := .type (placeOf c before)) rfl).trans ?_
      simp [Slot.held?, placeOf, hheld]
    · refine (get?_key_fragment fields (c, e) (s := .value (placeOf c before)) rfl).trans ?_
      simp [Slot.held?, placeOf, hheld]
  negation := get?_key_fragment fields (c, e) (s := .negate c) rfl
  keys k hk := by
    obtain ⟨v, hv⟩ := Option.isSome_iff_exists.1 (SortedMap.mem_keys.1 hk)
    obtain ⟨slot, rfl, rfl, hheld⟩ := get?_fragment.1 hv
    cases slot with
    | negate n => exact .inl rfl
    | field p | type p | value p =>
      obtain ⟨t, ht, -⟩ := Option.map_eq_some_iff.1 hheld
      rw [Expr.term?_of_rows hrows] at ht
      obtain ⟨x, hx, -⟩ := Option.map_eq_some_iff.1 ht
      obtain ⟨before, s, after, h, hrow, hcolumn, -⟩ := Expr.cell?_eq_some.1 hx
      have hplace : placeOf p.chart before = p := by rw [placeOf, hrow, hcolumn]
      exact .inr ⟨before, s, after, h, by simp [Slot.key, Slot.chart, hplace]⟩
  size := by
    rw [size_fragment, Expr.termCount, hrows, ← List.map_flatten, List.length_map,
      Expr.flatten_cells, Expr.length_segmentsOf]

/-- Encoding the expression of a text never fails, and the chart shows the body of the text, which
is what follows the leading blanks and a `!`: it is negated if the first character that is not
blank is a `!`. -/
theorem encode_shows {input : String} {e : Expr} (h : Expr.parse input = .ok e)
    (fields : FieldTable) (backend : String) (c : Nat) : ∃ negate b p,
      Expr.Opened input.toList negate b ∧
      (negate = true ↔ input.toList.find? (!isBlank ·) = some '!') ∧
      (encode fields backend c e).result = .ok p ∧ Shows c negate b p := by
  have hopened := Expr.opened_body input.toList
  have hdescribes := Expr.describes_parse input
  obtain ⟨hnegate, hrows⟩ := hdescribes.expression e h
  obtain ⟨-, hfits⟩ := hdescribes.accepts.1 ⟨e, h⟩
  have hknown : ∀ t ∈ e.rows.flatten, (t.field.wire? fields).isSome = true := by
    intro t ht
    obtain ⟨name, hname⟩ := Expr.field_of_parse h ht
    rw [hname]
    rfl
  exact ⟨_, _, fragment fields (c, e), hopened, hopened.negate_iff,
    result_encode_of_known hknown backend c, hnegate ▸ shows_fragment hrows hfits⟩

/-- A negated text of three segments; the last of them is in the second row and column. -/
def placedText : String := " !a-equals-1&b-regexp-x-y| c - substring-"

/-- What `placedText` is read as. -/
def placedExpr : Expr where
  negate := true
  rows := [[⟨.verbatim "a", "equals", "1"⟩],
    [⟨.verbatim "b", "regexp", "x-y"⟩, ⟨.verbatim "c", "substring", ""⟩]]

theorem encode_shows_placed :
    Expr.parse placedText = .ok placedExpr ∧
    ∃ p, (encode Backend.extendedRolesV4.fields "extended-roles-v4" 3 placedExpr).result = .ok p ∧
      p.size = 10 ∧ p.get? "negate3" = some (.int 1) ∧
      p.get? "type3-1-1" = some (.text "substring") := by
  have hread : Expr.parse placedText = .ok placedExpr := by rfl
  obtain ⟨negate, b, p, hopened, hbang, hp, hshows⟩ :=
    encode_shows hread Backend.extendedRolesV4.fields "extended-roles-v4" 3
  obtain ⟨rfl, rfl⟩ := Prod.mk.inj (Expr.body_of_opened hopened)
  have hsegment : Segment (Expr.body placedText.toList).2 "a-equals-1&b-regexp-x-y|".toList
      " c - substring-".toList [] := by
    refine ⟨by decide, ⟨by decide, by decide⟩, fun c hc => ?_, by simp⟩
    obtain rfl : '|' = c := Option.some.inj hc
    decide
  obtain ⟨field, operator, value, htriple, -, htype, -⟩ := hshows.segments _ _ _ hsegment
  obtain ⟨-, hrest⟩ := append_hyphen_injective (a := " c ".toList) htriple.text (by decide)
    htriple.field
  obtain ⟨rfl, -⟩ := append_hyphen_injective (a := " substring".toList) hrest (by decide)
    htriple.operator
  exact ⟨hread, p, hp, hshows.size, hshows.negation, htype⟩

end Chart

end BugQuery
