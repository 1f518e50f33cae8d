import BugQuery.Proofs.Query.Verdict

/-!
# The keys that options set

An option that reads no modifier sets fixed keys, under its wire name or the
returned fields. Addresses and charts set keys with running numbers, and the
mark of an advanced query beside them.

* `within_copyEdit`, `statusEdit_eq_ok`, `outputEdit_format_eq_ok`: the edits of options that
  read no modifier.
* `get?_chartsEdit`: what the edit of a chart option sets.
* `made_of_editOf`: the four ways in which the edit of an option comes about, with all that
  each sets.
-/
namespace BugQuery

open FirstFailure

/-- An edit that clears nothing, and sets no keys but these. -/
structure Edit.Within (e : Edit) (keys : List String) : Prop where
  cleared : e.cleared = []
  keys : ∀ k x, e.entries.get? k = some x → k ∈ keys

namespace Edit

theorem within_none (keys : List String) : none.Within keys where
  cleared := rfl
  keys k x h := by cases h

theorem within_set {key : String} {keys : List String} (h : key ∈ keys) (v : PayloadValue) :
    (set key v).Within keys where
  cleared := rfl
  keys k x hk := by
    by_cases he : key = k
    · exact he ▸ h
    · simp [set, he] at hk

theorem within_setList {key : String} {keys : List String} (h : key ∈ keys) (items : List String) :
    (setList key items).Within keys := by
  cases items with
  | nil => exact within_none keys
  | cons item items => exact within_set h _

theorem mem_of_get?_setAll {es : List (String × PayloadValue)} {k : String} {x : PayloadValue}
    (h : (setAll es).entries.get? k = some x) : (k, x) ∈ es := by
  simp only [setAll, SortedMap.get?_ofList] at h
  exact List.mem_reverse.1 (SortedMap.mem_of_find h)

theorem within_setAll (es : List (String × PayloadValue)) :
    (setAll es).Within (es.map Prod.fst) where
  cleared := rfl
  keys k x h := List.mem_map.2 ⟨(k, x), mem_of_get?_setAll h, rfl⟩

end Edit

/-- The keys for a value of this shape, where `wire` is the name on the wire. -/
def Shape.keys (wire : String) : Shape → List String
  | longText => [wire, wire ++ "_type"]
  | verbatim | list | commaList | file => [wire]

/-- The keys that an option sets without a number. -/
def Backend.fixedKeys (b : Backend) (o : SearchOption) : List String :=
  match o.handling with
  | .direct shape => shape.keys (b.fields.translate o.name)
  | .status => [b.fields.translate o.name]
  | .email =>
    match b.emailStyle with
    | .plain => [b.fields.translate o.name]
    | .indexedRoles => []
  | .chart _ | .modifier _ => []
  | .output _ => [Query.includeFieldsKey]

theorem Backend.translate_of_wireName {b : Backend} {name wire : String}
    (h : b.wireName name = .ok wire) : b.fields.translate name = wire := by
  rw [FieldTable.translate, wireName_eq_ok.1 h]
  rfl

namespace Query

/-! ## Options that read no modifier -/

theorem within_copyEdit {q : Query} {o : SearchOption} {shape : Shape} {v : OptionValue} {e : Edit}
    (h : q.copyEdit o shape v = .ok e) :
    e.Within (shape.keys (q.backend.fields.translate o.name)) := by
  unfold copyEdit at h
  obtain ⟨key, hw, h⟩ := bind_eq_ok.1 h
  rw [Backend.translate_of_wireName hw]
  cases shape with
  | verbatim => cases v <;> cases h <;> exact Edit.within_set (by simp [Shape.keys]) _
  | list =>
    obtain ⟨items, -, h⟩ := bind_eq_ok.1 h
    cases h
    exact Edit.within_setList (by simp [Shape.keys]) items
  | commaList =>
    obtain ⟨items, -, h⟩ := bind_eq_ok.1 h
    cases h
    exact Edit.within_setList (by simp [Shape.keys]) _
  | file =>
    obtain ⟨path, -, h⟩ := bind_eq_ok.1 h
    cases hr : q.files.read path with
    | error cause => simp [hr] at h
    | ok content =>
      simp only [hr, pure_eq_ok] at h
      rw [← h]
      exact Edit.within_setList (by simp [Shape.keys]) _
  | longText =>
    obtain ⟨s, -, h⟩ := bind_eq_ok.1 h
    cases h
    exact Edit.within_setAll _

theorem statusEdit_eq_ok {q : Query} {o : SearchOption} {v : OptionValue} {e : Edit}
    (h : q.statusEdit o v = .ok e) : ∃ raw, v = .text raw ∧
      (q.backend.statuses.expand? raw = some .any ∧
        e = .clear (q.backend.fields.translate o.name) ∨
      ∃ codes, q.backend.statuses.expand? raw = some (.codes codes) ∧
        e = .set (q.backend.fields.translate o.name) (.list codes)) := by
  unfold statusEdit at h
  obtain ⟨key, hw, h1⟩ := bind_eq_ok.1 h
  obtain ⟨raw, hr, h2⟩ := bind_eq_ok.1 h1
  rw [Backend.translate_of_wireName hw]
  refine ⟨raw, textOf_eq_ok.1 hr, ?_⟩
  split at h2
  · rename_i hx
    cases h2
    exact .inl ⟨hx, rfl⟩
  · rename_i codes hx
    cases h2
    exact .inr ⟨codes, hx, rfl⟩
  · cases h2

theorem eq_none_of_modifierEdit {o : SearchOption} {kind : Modifier} {v : OptionValue} {e : Edit}
    (h : modifierEdit o kind v = .ok e) : e = .none := by
  unfold modifierEdit at h
  obtain ⟨s, -, h⟩ := bind_eq_ok.1 h
  cases kind with
  | matchType => cases h; rfl
  | operator =>
    dsimp only at h
    split at h
    · cases h; rfl
    · cases h

theorem within_outputEdit_oneline {q : Query} {o : SearchOption} {v : OptionValue} {e : Edit}
    (h : q.outputEdit o .oneline v = .ok e) : e.Within [includeFieldsKey] := by
  unfold outputEdit at h
  dsimp only at h
  split at h
  · cases h
    exact Edit.within_set (by simp) _
  · cases h
    exact Edit.within_none _
  · cases h

theorem outputEdit_format_eq_ok {q : Query} {o : SearchOption} {v : OptionValue} {e : Edit}
    (h : q.outputEdit o .format v = .ok e) : ∃ format, v = .text format ∧
      (q.backend.outputFields = none ∧ e = .clear includeFieldsKey ∨
      ∃ aliases, q.backend.outputFields = some aliases ∧
        e = .set includeFieldsKey (.list (selectedFields aliases format))) := by
  unfold outputEdit at h
  obtain ⟨format, hf, h1⟩ := bind_eq_ok.1 h
  refine ⟨format, textOf_eq_ok.1 hf, ?_⟩
  split at h1
  · rename_i aliases hx
    cases h1
    exact .inr ⟨aliases, hx, rfl⟩
  · rename_i hx
    cases h1
    exact .inl ⟨hx, rfl⟩

/-! ## Charts -/

/-- The charts of expressions set what their slots hold, and the mark if there is a chart. -/
theorem get?_chartsEdit (fields : FieldTable) (n : Nat) (es : List Expr) (k : String) :
    (chartsEdit fields n es).entries.get? k =
      if k = advancedMark.1 ∧ es ≠ [] then some advancedMark.2
      else (SortedMap.ofList (Chart.entriesFrom fields n es)).get? k := by
  unfold chartsEdit
  cases es with
  | nil => simp
  | cons e es =>
    simp only [List.isEmpty_cons, Bool.false_eq_true, if_false, SortedMap.get?_insert, ne_eq,
      reduceCtorEq, not_false_eq_true, and_true, eq_comm]

/-! ## How edits come about -/

/-- How the edit of an option comes about, and the numbers that are next after it. -/
inductive Made (q : Query) (o : SearchOption) (n : Numbering) : Edit → Numbering → Prop where
  | absent (hv : q.given? o = none) : Made q o n .none n
  | fixed {v : OptionValue} {e : Edit} (hv : q.given? o = some v)
      (hm : q.backend.modifier? o = none)
      (hkeys : ∀ k x, e.entries.get? k = some x → k ∈ q.backend.fixedKeys o)
      (hcleared : o ≠ .bugStatus → o ≠ .outputFormat → e.cleared = []) : Made q o n e n
  | address {role address matchType : String} (hv : q.given? o = some (.text address))
      (hh : o.handling = .email) (hs : q.backend.emailStyle = .indexedRoles)
      (hw : q.backend.wireName o.name = .ok role)
      (hm : q.modifierText .emailType = .ok matchType) :
      Made q o n (.setAll (indexedRole n.address role address matchType))
        { n with address := n.address + 1 }
  | charts {v : OptionValue} {form : ChartForm} {operator : String} {raws : List String}
      {es : List Expr} (hv : q.given? o = some v) (hh : o.handling = .chart form)
      (hraws : v.toList? = some raws) (hm : q.modifierText .booleanType = .ok operator)
      (hes : raws.mapM (chartExpr o form operator) = .ok es) :
      Made q o n (chartsEdit q.backend.fields n.chart es) { n with chart := n.chart + es.length }

theorem made_of_emailEdit {q : Query} {o : SearchOption} {v : OptionValue} {n m : Numbering}
    {e : Edit} (hv : q.given? o = some v) (hh : o.handling = .email)
    (h : q.emailEdit o v n = .ok (e, m)) : q.Made o n e m := by
  unfold emailEdit at h
  obtain ⟨role, hw, h1⟩ := bind_eq_ok.1 h
  obtain ⟨address, ha, h2⟩ := bind_eq_ok.1 h1
  rw [textOf_eq_ok] at ha
  subst ha
  split at h2
  · rename_i hs
    cases h2
    have hrole : role ∈ q.backend.fixedKeys o := by
      simp [Backend.fixedKeys, hh, hs, Backend.translate_of_wireName hw]
    exact .fixed hv (by simp [Backend.modifier?, hh, hs]) (Edit.within_set hrole _).keys
      fun _ _ => rfl
  · rename_i hs
    obtain ⟨matchType, hm, h3⟩ := bind_eq_ok.1 h2
    cases h3
    exact .address hv hh hs hw hm

theorem made_of_chartEdit {q : Query} {o : SearchOption} {form : ChartForm} {v : OptionValue}
    {n m : Numbering} {e : Edit} (ho : o ∈ q.backend.order) (hv : q.given? o = some v)
    (hh : o.handling = .chart form) (h : (q.chartEdit o form v n).result = .ok (e, m)) :
    q.Made o n e m := by
  rw [result_chartEdit (Backend.isSome_of_chart ho hh)] at h
  obtain ⟨operator, hm, h⟩ := bind_eq_ok.1 h
  obtain ⟨raws, hraws, h⟩ := bind_eq_ok.1 h
  obtain ⟨es, hes, h⟩ := bind_eq_ok.1 h
  cases h
  exact .charts hv hh (textsOf_eq_ok.1 hraws) hm hes

theorem made_of_editOf {q : Query} {o : SearchOption} {n m : Numbering} {e : Edit}
    (ho : o ∈ q.backend.order) (h : q.editOf o n = .ok (e, m)) : q.Made o n e m := by
  cases hv : q.given? o with
  | none =>
    rw [editOf_of_not_given hv] at h
    cases h
    exact .absent hv
  | some v =>
    rw [editOf_of_given hv] at h
    have within {e' : Edit} (hm : q.backend.modifier? o = none)
        (hw : e'.Within (q.backend.fixedKeys o)) : q.Made o n e' n :=
      .fixed hv hm hw.keys fun _ _ => hw.cleared
    unfold edit at h
    split at h
    case h_1 shape hh =>
      obtain ⟨e', h', he⟩ := map_eq_ok.1 h
      cases he
      have hkeys : q.backend.fixedKeys o = shape.keys (q.backend.fields.translate o.name) := by
        simp [Backend.fixedKeys, hh]
      exact within (by simp [Backend.modifier?, hh]) (hkeys ▸ within_copyEdit h')
    case h_2 hh =>
      obtain ⟨e', h', he⟩ := map_eq_ok.1 h
      cases he
      obtain ⟨raw, -, ⟨-, rfl⟩ | ⟨codes, -, rfl⟩⟩ := statusEdit_eq_ok h'
      · refine .fixed hv (by simp [Backend.modifier?, hh]) (Edit.within_none _).keys ?_
        intro hs
        exact absurd (SearchOption.handling_eq_status.1 hh) hs
      · refine within (by simp [Backend.modifier?, hh]) (Edit.within_set ?_ _)
        simp [Backend.fixedKeys, hh]
    case h_3 hh => exact made_of_emailEdit hv hh h
    case h_4 form hh => exact made_of_chartEdit ho hv hh h
    case h_5 kind hh =>
      obtain ⟨e', h', he⟩ := map_eq_ok.1 h
      cases he
      obtain rfl := eq_none_of_modifierEdit h'
      exact within (by simp [Backend.modifier?, hh]) (Edit.within_none _)
    case h_6 choice hh =>
      obtain ⟨e', h', he⟩ := map_eq_ok.1 h
      cases he
      have hm : q.backend.modifier? o = none := by simp [Backend.modifier?, hh]
      have hkeys : q.backend.fixedKeys o = [includeFieldsKey] := by simp [Backend.fixedKeys, hh]
      cases choice with
      | oneline => exact within hm (hkeys ▸ within_outputEdit_oneline h')
      | format =>
        obtain ⟨format, -, ⟨-, rfl⟩ | ⟨aliases, -, rfl⟩⟩ := outputEdit_format_eq_ok h'
        · refine .fixed hv hm (Edit.within_none _).keys ?_
          intro _ hf
          exact absurd (SearchOption.handling_eq_format.1 hh) hf
        · exact within hm (Edit.within_set (by simp [hkeys]) _)

/-- Of all options only two clear a key. -/
theorem Made.cleared {q : Query} {o : SearchOption} {n m : Numbering} {e : Edit}
    (h : q.Made o n e m) (hs : o ≠ .bugStatus) (hf : o ≠ .outputFormat) : e.cleared = [] := by
  cases h with
  | absent hv => rfl
  | fixed hv hm hkeys hcleared => exact hcleared hs hf
  | address hv hh hs hw hm => rfl
  | charts hv hh hraws hm hes => rfl

end Query

end BugQuery
