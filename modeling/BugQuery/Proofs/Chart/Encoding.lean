import BugQuery.Proofs.Chart.Slots
import BugQuery.Query.Step

/-!
# Encoding charts

Encoding fails on the first shortcut that the table does not know, and else
gives the entries of the expression. For the options of a backend it never
fails: every chart option has a wire name, and terms that are written out
need none.

* `result_encode`: how the encoding of any expression ends.
* `result_charts`, `result_chartEdit`: the charts of an option's entries, and its edit, where
  the table knows the option.
-/
namespace BugQuery

open FirstFailure

namespace Chart

/-- The table does not know the field of a term. -/
def unknown (fields : FieldTable) (x : Nat × Nat × Term) : Bool :=
  (x.2.2.field.wire? fields).isNone

theorem result_encodeTerms (fields : FieldTable) (backend : String) (n : Nat) :
    ∀ ts : List (Nat × Nat × Term), (encodeTerms fields backend n ts).result =
      match ts.find? (unknown fields) with
      | some x => .error (.unsupportedOption x.2.2.field.name backend)
      | none => .ok (ts.flatMap fun x =>
          termEntries ⟨n, x.1, x.2.1⟩ (x.2.2.field.wireName fields) x.2.2)
  | [] => rfl
  | (row, column, t) :: ts => by
    have ih := result_encodeTerms fields backend n ts
    unfold encodeTerms
    cases hw : t.field.wire? fields with
    | none => simp [unknown, hw]
    | some wire =>
      simp only [Traced.bind_eq, Traced.result_bind, Traced.result_note, Except.bind, ih]
      rw [List.find?_cons_of_neg (by simp [unknown, hw])]
      cases ts.find? (unknown fields) with
      | some x => rfl
      | none => simp [TermField.wireName_of_wire? hw]

theorem result_encode (fields : FieldTable) (backend : String) (n : Nat) (e : Expr) :
    (encode fields backend n e).result =
      match e.positionedTerms.find? (unknown fields) with
      | some x => .error (.unsupportedOption x.2.2.field.name backend)
      | none => .ok (SortedMap.ofList (entries fields n e)) := by
  unfold encode
  simp only [Traced.bind_eq, Traced.result_bind, result_encodeTerms]
  cases e.positionedTerms.find? (unknown fields) <;> rfl

theorem result_encode_of_known {fields : FieldTable} {e : Expr}
    (h : ∀ t ∈ e.rows.flatten, (t.field.wire? fields).isSome = true) (backend : String) (n : Nat) :
    (encode fields backend n e).result = .ok (SortedMap.ofList (entries fields n e)) := by
  have hnone : e.positionedTerms.find? (unknown fields) = none := by
    refine List.find?_eq_none.2 fun x hx => ?_
    have := h x.2.2 (Expr.mem_flatten_of_mem_positionedTerms (r := x.1) (k := x.2.1) hx)
    simp [unknown, Option.isSome_iff_ne_none.1 this]
  rw [result_encode, hnone]

end Chart

namespace Query

/-- Every term of an expression that a chart option's entry writes has a wire name. -/
theorem wire?_of_chartExpr {fields : FieldTable} {o : SearchOption} {form : ChartForm}
    {operator raw : String} {e : Expr} (hf : form = .values → (fields.get? o.name).isSome = true)
    (h : chartExpr o form operator raw = .ok e) :
    ∀ t ∈ e.rows.flatten, (t.field.wire? fields).isSome = true := by
  intro t ht
  cases form with
  | terms =>
    obtain ⟨name, hn⟩ := Expr.field_of_parse h ht
    rw [hn]
    rfl
  | values =>
    rw [(Expr.term_of_parseValues h ht).1]
    exact hf rfl

/-- Where the table knows the option, its charts fail only as one of its entries does. -/
theorem result_charts {q : Query} {o : SearchOption} {form : ChartForm}
    (hf : form = .values → (q.backend.fields.get? o.name).isSome = true) (operator : String) :
    ∀ (raws : List String) (n : Nat), (q.charts o form operator raws n).result =
      (raws.mapM (chartExpr o form operator)).map fun es =>
        SortedMap.ofList (Chart.entriesFrom q.backend.fields n es)
  | [], _ => rfl
  | raw :: raws, n => by
    unfold charts
    rw [List.mapM_cons]
    cases he : chartExpr o form operator raw with
    | error x => rfl
    | ok e =>
      have henc := Chart.result_encode_of_known (wire?_of_chartExpr hf he) q.backend.name n
      simp only [Traced.bind_eq, Traced.result_bind, Traced.result_ofExcept, Traced.result_note,
        Except.bind, henc, result_charts hf operator raws (n + 1)]
      cases raws.mapM (chartExpr o form operator) with
      | error x => rfl
      | ok es =>
        simp only [Except.map, bind, Except.bind, pure, Except.pure, Traced.ok,
          Chart.entriesFrom, SortedMap.ofList_append]

/-- The edit that adds expressions as charts, the first of which has number `n`. -/
def chartsEdit (fields : FieldTable) (n : Nat) (es : List Expr) : Edit where
  entries :=
    let entries := SortedMap.ofList (Chart.entriesFrom fields n es)
    if es.isEmpty then entries else entries.insert advancedMark.1 advancedMark.2

theorem result_chartEdit {q : Query} {o : SearchOption} {form : ChartForm}
    (hf : form = .values → (q.backend.fields.get? o.name).isSome = true) (v : OptionValue)
    (n : Numbering) : (q.chartEdit o form v n).result = do
      let operator ← q.modifierText .booleanType
      let raws ← textsOf o v
      let es ← raws.mapM (chartExpr o form operator)
      return (chartsEdit q.backend.fields n.chart es, { n with chart := n.chart + es.length }) := by
  unfold chartEdit
  simp only [Traced.bind_eq, Traced.result_bind, Traced.result_ofExcept, result_charts hf]
  cases q.modifierText .booleanType with
  | error x => rfl
  | ok operator =>
    cases textsOf o v with
    | error x => rfl
    | ok raws =>
      simp only [Except.bind, bind]
      cases hm : raws.mapM (chartExpr o form operator) with
      | error x => rfl
      | ok es =>
        have hlen := length_of_mapM hm
        have hempty : raws.isEmpty = es.isEmpty := by
          cases raws <;> cases es <;> first | rfl | cases hlen
        simp only [Except.map, hempty, ← hlen]
        rfl

end Query

end BugQuery
