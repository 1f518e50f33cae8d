import BugQuery.Proofs.Query.SameEdits

/-!
# Queries with another modifier

A modifier that is sound has an edit that changes nothing, and every other
option is judged as it is alone, which no modifier has a part in. So queries
that differ in a sound modifier compile, or fail in the same way. What they
may differ in is the edits of the options that the modifier tunes.

* `tuned`: a query with a text for a modifier, or with none.
* `editOf_tuned`: options that the modifier does not tune have the edits that they had.
* `editOf_tuned_chart`, `editOf_tuned_email`: the edits of those that it tunes.
* `result_compile_tuned`: the queries compile alike, up to their payloads.
-/
namespace BugQuery

open FirstFailure

/-- The text can be given for a modifier: any match type, and the operators that are known. -/
def Modifier.Accepts (kind : Modifier) (s : String) : Prop := kind = .operator → s ∈ Expr.operators

namespace Query

/-- The query with a text for the modifier `m`, or with none. -/
def tuned (q : Query) (m : SearchOption) : Option String → Query
  | none => q.without m
  | some s => q.giving m (.text s)

variable {q : Query} {m o : SearchOption} {kind : Modifier} {t u : Option String}

@[simp] theorem backend_tuned (q : Query) (m : SearchOption) (t : Option String) :
    (q.tuned m t).backend = q.backend := by cases t <;> rfl

theorem given?_tuned_self (q : Query) (m : SearchOption) (t : Option String) :
    (q.tuned m t).given? m = t.map .text := by
  cases t with
  | none => exact q.given?_without_self m
  | some s => exact q.given?_giving_self m (.text s)

theorem given?_tuned (q : Query) (h : o ≠ m) (t : Option String) :
    (q.tuned m t).given? o = q.given? o := by
  cases t with
  | none => exact q.given?_without_of_ne h
  | some s => exact q.given?_giving_of_ne h (.text s)

theorem modifierText_tuned (q : Query) (m : SearchOption) (t : Option String) :
    (q.tuned m t).modifierText m = .ok (t.getD defaultMatch) := by
  have hgiven := q.given?_tuned_self m t
  cases t with
  | none => exact modifierText_of_not_given hgiven
  | some s => exact modifierText_of_given hgiven

/-! ## Edits -/

theorem modifierEdit_of_accepts (m : SearchOption) {s : String} (h : kind.Accepts s) :
    modifierEdit m kind (.text s) = .ok .none := by
  cases kind with
  | matchType => rfl
  | operator =>
    have hs : s ∈ Expr.operators := h rfl
    simp only [modifierEdit, textOf, OptionValue.text?, ok_bind, if_pos hs]
    rfl

/-- A sound modifier changes nothing itself. -/
theorem editOf_tuned_self (hm : m.handling = .modifier kind) (ht : ∀ s ∈ t, kind.Accepts s)
    (n : Numbering) : (q.tuned m t).editOf m n = .ok (.none, n) := by
  have hgiven := q.given?_tuned_self m t
  cases t with
  | none => exact editOf_of_not_given hgiven n
  | some s =>
    rw [editOf_of_given hgiven]
    simp only [edit, hm, Traced.result_ofExcept, modifierEdit_of_accepts m (ht s rfl)]
    rfl

/-- An option that the modifier does not tune has the edit that it had. -/
theorem editOf_tuned (ho : o ≠ m) (hmod : q.backend.modifier? o ≠ some m) (t : Option String)
    (n : Numbering) : (q.tuned m t).editOf o n = q.editOf o n := by
  have hne : ∀ a, q.backend.modifier? o = some a → a ≠ m := by
    rintro a ha rfl
    exact hmod ha
  cases t with
  | none =>
    exact editOf_withOptions (q.given?_without_of_ne ho)
      (fun a ha => q.given?_without_of_ne (hne a ha)) n
  | some s =>
    exact editOf_withOptions (q.given?_giving_of_ne ho _)
      (fun a ha => q.given?_giving_of_ne (hne a ha) _) n

/-- The edit of a chart option, which reads its values with the operator. -/
theorem editOf_tuned_chart {form : ChartForm} {v : OptionValue} (ho : o ∈ q.backend.order)
    (hh : o.handling = .chart form) (hv : q.given? o = some v) (t : Option String)
    (n : Numbering) : (q.tuned .booleanType t).editOf o n = do
      let raws ← textsOf o v
      let es ← raws.mapM (chartExpr o form (t.getD defaultMatch))
      return (chartsEdit q.backend.fields n.chart es, { n with chart := n.chart + es.length }) := by
  have hne : o ≠ .booleanType := by rintro rfl; cases hh
  have ho' : o ∈ (q.tuned .booleanType t).backend.order := by rwa [backend_tuned]
  rw [editOf_of_chart ho' hh ((q.given?_tuned hne t).trans hv), modifierText_tuned, ok_bind,
    backend_tuned]

/-- The edit of a role, which writes the match type beside the address. -/
theorem editOf_tuned_email {v : OptionValue} (hs : q.backend.emailStyle = .indexedRoles)
    (hh : o.handling = .email) (hv : q.given? o = some v) (t : Option String) (n : Numbering) :
    (q.tuned .emailType t).editOf o n = (textOf o v).map fun address =>
      (.setAll (indexedRole n.address o.name address (t.getD defaultMatch)),
        { n with address := n.address + 1 }) := by
  have hne : o ≠ .emailType := by rintro rfl; cases hh
  rw [editOf_of_given ((q.given?_tuned hne t).trans hv)]
  simp only [edit, hh, Traced.result_ofExcept, emailEdit, backend_tuned, hs, modifierText_tuned,
    Backend.wireName_of_email hh, ok_bind]
  cases textOf o v <;> rfl

/-! ## How a compilation ends -/

theorem aloneVerdict_tuned (h : o ≠ m) (t : Option String) :
    (q.tuned m t).aloneVerdict o = q.aloneVerdict o := by
  have halone : ∀ v, (q.tuned m t).alone o v = q.alone o v := fun v => by cases t <;> rfl
  rw [aloneVerdict, aloneVerdict, q.given?_tuned h]
  simp only [halone]

theorem aloneVerdict_tuned_self (hx : m ∈ q.backend.order) (hm : m.handling = .modifier kind)
    (ht : ∀ s ∈ t, kind.Accepts s) : (q.tuned m t).aloneVerdict m = .ok () := by
  have hgiven := q.given?_tuned_self m t
  cases t with
  | none => rw [aloneVerdict, hgiven, Option.map_none]
  | some s =>
    have hpass : (q.alone m (.text s)).verdict m = .ok () := by
      have hself := @editOf_tuned_self (q.withOptions .empty) m kind (some s) hm ht {}
      exact congrArg (Except.map fun _ => ()) hself
    rw [aloneVerdict, hgiven, Option.map_some]
    dsimp only
    rw [result_compile_alone (by rwa [backend_tuned])]
    exact hpass

/-- Queries that differ in a sound modifier compile alike, or fail with the same error. -/
theorem result_compile_tuned (hx : m ∈ q.backend.order) (hm : m.handling = .modifier kind)
    (ht : ∀ s ∈ t, kind.Accepts s) (hu : ∀ s ∈ u, kind.Accepts s) :
    (q.tuned m u).compile.result.map (fun _ => ()) =
      (q.tuned m t).compile.result.map fun _ => () := by
  have hnames : (q.tuned m u).unsupported? = (q.tuned m t).unsupported? := by
    refine unsupported?_congr (by simp) fun name hname => ?_
    have hne : name ≠ m.name := by
      rintro rfl
      rw [backend_tuned, supportsName_iff.2 ⟨m, hx, rfl⟩] at hname
      cases hname
    have hsame : ∀ v : Option String, (q.tuned m v).options.get? name = q.options.get? name := by
      intro v
      cases v with
      | none => exact q.differsIn_erase m name hne
      | some s => exact q.differsIn_insert m (.text s) name hne
    rw [SortedMap.mem_keys, SortedMap.mem_keys, hsame, hsame]
  cases ht' : (q.tuned m t).unsupported? with
  | some name =>
    rw [ht'] at hnames
    rw [result_compile, result_compile, compileOnto_of_unsupported ht',
      compileOnto_of_unsupported hnames, backend_tuned, backend_tuned]
  | none =>
    rw [ht'] at hnames
    rw [result_compile_eq_alone (unsupported?_eq_none.1 ht'),
      result_compile_eq_alone (unsupported?_eq_none.1 hnames), backend_tuned, backend_tuned]
    refine forM_congr fun before o after hsplit _ => ?_
    by_cases ho : o = m
    · rw [ho, aloneVerdict_tuned_self hx hm hu, aloneVerdict_tuned_self hx hm ht]
    · rw [aloneVerdict_tuned ho, aloneVerdict_tuned ho]

end Query

end BugQuery
