import BugQuery.Proofs.Chart.Encoding
import BugQuery.Proofs.Query.Restriction

/-!
# Options fail by themselves

Whether the edit of an option can be made depends on its own value and, for
addresses and charts, on a modifier; numbers never matter. Modifiers come
first and are judged as options of their own, so an option that is reached
finds its modifier sound, and then fails or not as it would alone.

* `result_compile_eq_forM`: a query compiles as its options are judged in turn.
* `verdict_eq_aloneVerdict`: past its modifier, an option is judged as it is alone.
* `result_compile_eq_alone`: a query compiles as its options compile alone, one after the other.
-/
namespace BugQuery

open FirstFailure

/-- The option is looked up in the table of wire names. -/
def Handling.usesWireName : Handling → Bool
  | direct _ | status | email | chart .values => true
  | chart .terms | modifier _ | output _ => false

theorem Backend.exists_wireName {b : Backend} {o : SearchOption} (ho : o ∈ b.order)
    (h : o.handling.usesWireName = true) : ∃ wire, b.wireName o.name = .ok wire := by
  have hall : ∀ o ∈ b.order, o.handling.usesWireName = true →
      (b.fields.get? o.name).isSome = true := by
    cases b <;> decide +kernel
  obtain ⟨wire, hw⟩ := Option.isSome_iff_exists.1 (hall o ho h)
  exact ⟨wire, Backend.wireName_eq_ok.2 hw⟩

theorem Backend.isSome_of_chart {b : Backend} {o : SearchOption} {form : ChartForm}
    (ho : o ∈ b.order) (h : o.handling = .chart form) :
    form = .values → (b.fields.get? o.name).isSome = true := by
  rintro rfl
  obtain ⟨wire, hw⟩ := exists_wireName ho (by rw [h]; rfl)
  rw [wireName_eq_ok.1 hw]
  rfl

theorem Backend.modifier?_eq_some {b : Backend} {o m : SearchOption} :
    b.modifier? o = some m ↔
      o.handling = .email ∧ b.emailStyle = .indexedRoles ∧ m = .emailType ∨
      (∃ form, o.handling = .chart form) ∧ m = .booleanType := by
  unfold Backend.modifier?
  cases o.handling <;> cases b.emailStyle <;> simp [eq_comm]

namespace Query

/-! ## Verdicts -/

/-- Whether an option's edit can be made, and why not. -/
def verdict (q : Query) (o : SearchOption) : Except QueryError Unit :=
  (q.editOf o {}).map fun _ => ()

theorem map_emailEdit (q : Query) (o : SearchOption) (v : OptionValue) (n : Numbering) :
    (q.emailEdit o v n).map (fun _ => ()) = (do
      let _ ← q.backend.wireName o.name
      let _ ← textOf o v
      match q.backend.emailStyle with
      | .plain => return ()
      | .indexedRoles =>
        let _ ← q.modifierText .emailType
        return ()) := by
  unfold emailEdit
  cases q.backend.wireName o.name with
  | error x => rfl
  | ok role =>
    cases textOf o v with
    | error x => rfl
    | ok address =>
      cases hs : q.backend.emailStyle with
      | plain => rfl
      | indexedRoles => cases q.modifierText .emailType <;> rfl

theorem map_chartEdit {q : Query} {o : SearchOption} {form : ChartForm}
    (hf : form = .values → (q.backend.fields.get? o.name).isSome = true) (v : OptionValue)
    (n : Numbering) : (q.chartEdit o form v n).result.map (fun _ => ()) = (do
      let operator ← q.modifierText .booleanType
      let raws ← textsOf o v
      forM raws fun raw => (chartExpr o form operator raw).map fun _ => ()) := by
  rw [result_chartEdit hf]
  cases q.modifierText .booleanType with
  | error x => rfl
  | ok operator =>
    cases textsOf o v with
    | error x => rfl
    | ok raws =>
      simp only [bind, Except.bind]
      rw [← map_mapM]
      cases raws.mapM (chartExpr o form operator) <;> rfl

theorem map_editOf {q : Query} {o : SearchOption} (ho : o ∈ q.backend.order) (n : Numbering) :
    (q.editOf o n).map (fun _ => ()) = q.verdict o := by
  unfold verdict
  cases hv : q.given? o with
  | none =>
    rw [editOf_of_not_given hv, editOf_of_not_given hv]
    rfl
  | some v =>
    rw [editOf_of_given hv, editOf_of_given hv]
    cases hh : o.handling with
    | email =>
      simp only [edit, hh, Traced.result_ofExcept]
      rw [map_emailEdit, map_emailEdit]
    | chart form =>
      have hf := Backend.isSome_of_chart ho hh
      simp only [edit, hh]
      rw [map_chartEdit hf, map_chartEdit hf]
    | _ => simp only [edit, hh, Traced.result_ofExcept, map_map]

theorem map_editAll {q : Query} : ∀ {os : List SearchOption} (n : Numbering),
    (∀ o ∈ os, o ∈ q.backend.order) → (q.editAll os n).map (fun _ => ()) = forM os q.verdict
  | [], _, _ => rfl
  | o :: os, n, h => by
    have ho := map_editOf (h o (by simp)) n
    rw [List.forM_cons, ← ho]
    cases he : q.editOf o n with
    | error x =>
      rw [editAll_cons_of_error he]
      rfl
    | ok r =>
      rw [editAll_cons_of_ok he, map_map]
      exact map_editAll r.2 fun a ha => h a (by simp [ha])

/-- A query compiles as its options are judged in turn. -/
theorem result_compile_eq_forM {q : Query} (h : q.Supported) :
    q.compile.result.map (fun _ => ()) = forM q.backend.order q.verdict := by
  rw [result_compile, map_map, result_compileOnto h, whole, map_map, map_map]
  exact map_editAll {} fun _ ho => ho

/-! ## Options alone -/

/-- How an option compiles alone; where it is not given there is nothing to fail. -/
def aloneVerdict (q : Query) (o : SearchOption) : Except QueryError Unit :=
  match q.given? o with
  | none => .ok ()
  | some v => (q.alone o v).compile.result.map fun _ => ()

theorem verdict_of_not_given {q : Query} {o : SearchOption} (h : q.given? o = none) :
    q.verdict o = .ok () := by
  rw [verdict, editOf_of_not_given h]
  rfl

/-- An option that is given alone is compiled to what its edit makes. -/
theorem result_compile_sole {q : Query} {o : SearchOption} (ho : o ∈ q.backend.order)
    (v : OptionValue) : (q.alone o v).compile.result =
      ((q.alone o v).editOf o {}).map fun r => r.1.apply (q.initial .empty) := by
  have hall : (q.alone o v).editAll q.backend.order {} = (q.alone o v).editOf o {} :=
    editAll_order_of_sole (q := q.alone o v) ho (fun a _ ha => by rw [given?_alone, if_neg ha]) {}
  obtain ⟨hresult, hpayload, -⟩ := compileOnto_of_supported (supported_alone ho v) .empty
  rw [result_compile, hresult, hpayload, result_runFrom]
  rw [backend_alone]
  rw [hall]
  cases he : (q.alone o v).editOf o {} with
  | error x => rfl
  | ok r =>
    rw [he] at hall
    rw [payload_runFrom (q.alone o v) hall]
    rfl

theorem result_compile_alone {q : Query} {o : SearchOption} (ho : o ∈ q.backend.order)
    (v : OptionValue) :
    (q.alone o v).compile.result.map (fun _ => ()) = (q.alone o v).verdict o := by
  rw [result_compile_sole ho, map_map]
  rfl

theorem modifierText_of_given {q : Query} {m : SearchOption} {v : OptionValue}
    (h : q.given? m = some v) : q.modifierText m = textOf m v := by
  simp only [modifierText, h]

theorem modifierText_of_not_given {q : Query} {m : SearchOption} (h : q.given? m = none) :
    q.modifierText m = .ok defaultMatch := by
  simp only [modifierText, h]

theorem modifierText_alone {q : Query} {o m : SearchOption} (h : m ≠ o) (v : OptionValue) :
    (q.alone o v).modifierText m = .ok defaultMatch :=
  modifierText_of_not_given (by rw [given?_alone, if_neg h])

/-- The text of a modifier is the one that is given, or else the default. -/
theorem getD_text_of_modifierText {q : Query} {m : SearchOption} {s : String}
    (h : q.modifierText m = .ok s) :
    ((q.given? m).bind OptionValue.text?).getD defaultMatch = s := by
  cases hv : q.given? m with
  | none =>
    rw [modifierText_of_not_given hv] at h
    exact Except.ok.inj h
  | some v =>
    rw [modifierText_of_given hv, textOf_eq_ok] at h
    subst h
    rfl

/-- A match type that passes has a text. -/
theorem exists_modifierText {q : Query} (h : q.verdict .emailType = .ok ()) :
    ∃ s, q.modifierText .emailType = .ok s := by
  cases hv : q.given? .emailType with
  | none => exact ⟨defaultMatch, modifierText_of_not_given hv⟩
  | some v =>
    rw [verdict, editOf_of_given hv] at h
    obtain ⟨r, hr, -⟩ := map_eq_ok.1 h
    obtain ⟨e, he, -⟩ := map_eq_ok.1 hr
    obtain ⟨s, hs, -⟩ := bind_eq_ok.1 he
    exact ⟨s, (modifierText_of_given hv).trans hs⟩

/-- An operator that passes is known. -/
theorem exists_operator {q : Query} (h : q.verdict .booleanType = .ok ()) :
    ∃ s ∈ Expr.operators, q.modifierText .booleanType = .ok s := by
  cases hv : q.given? .booleanType with
  | none => exact ⟨defaultMatch, by decide, modifierText_of_not_given hv⟩
  | some v =>
    rw [verdict, editOf_of_given hv] at h
    obtain ⟨r, hr, -⟩ := map_eq_ok.1 h
    obtain ⟨e, he, -⟩ := map_eq_ok.1 hr
    obtain ⟨s, hs, he⟩ := bind_eq_ok.1 he
    by_cases hm : s ∈ Expr.operators
    · exact ⟨s, hm, (modifierText_of_given hv).trans hs⟩
    · simp [hm] at he

/-- Whether an entry reads does not depend on which known operator it is read with. -/
theorem map_chartExpr {o : SearchOption} {operator operator' : String}
    (h : operator ∈ Expr.operators) (h' : operator' ∈ Expr.operators) (form : ChartForm)
    (raw : String) : (chartExpr o form operator raw).map (fun _ => ()) =
      (chartExpr o form operator' raw).map fun _ => () := by
  cases form with
  | terms => rfl
  | values =>
    simp only [chartExpr]
    rw [Expr.parseValues_withOperator h' h, map_map]

/-- Past its modifier, an option is judged as it is alone. -/
theorem verdict_eq_aloneVerdict {q : Query} {o : SearchOption} (ho : o ∈ q.backend.order)
    (hm : ∀ m, q.backend.modifier? o = some m → q.verdict m = .ok ()) :
    q.verdict o = q.aloneVerdict o := by
  unfold aloneVerdict
  cases hv : q.given? o with
  | none => exact verdict_of_not_given hv
  | some v =>
    dsimp only
    rw [result_compile_alone ho]
    rw [verdict, verdict, editOf_of_given hv, editOf_of_given (q.given?_alone_self o v)]
    cases hmod : q.backend.modifier? o with
    | none =>
      have hsame : (q.alone o v).edit o v {} = q.edit o v {} :=
        edit_withOptions (fun m h => by rw [hmod] at h; cases h) v {}
      rw [hsame]
    | some m =>
      have hpass := hm m hmod
      rcases Backend.modifier?_eq_some.1 hmod with ⟨hh, hs, rfl⟩ | ⟨⟨form, hh⟩, rfl⟩
      · have hne : SearchOption.emailType ≠ o := by rintro rfl; cases hh
        obtain ⟨s, ht⟩ := exists_modifierText hpass
        have hs' : (q.alone o v).backend.emailStyle = .indexedRoles := hs
        simp only [edit, hh, Traced.result_ofExcept]
        rw [map_emailEdit, map_emailEdit]
        simp only [hs, hs', ht, modifierText_alone hne]
        rfl
      · have hne : SearchOption.booleanType ≠ o := by rintro rfl; cases hh
        obtain ⟨s, hknown, ht⟩ := exists_operator hpass
        have hf := Backend.isSome_of_chart ho hh
        simp only [edit, hh]
        rw [map_chartEdit hf, map_chartEdit (q := q.alone o v) hf, ht, modifierText_alone hne]
        simp only [bind, Except.bind, map_chartExpr (o := o) hknown (by decide : defaultMatch ∈ _)]

/-- A query compiles as its options compile alone, one after the other. -/
theorem result_compile_eq_alone {q : Query} (h : q.Supported) :
    q.compile.result.map (fun _ => ()) = forM q.backend.order q.aloneVerdict := by
  rw [result_compile_eq_forM h]
  refine forM_congr fun before o after hsplit hbefore => ?_
  have ho : o ∈ q.backend.order := by rw [hsplit]; simp
  refine verdict_eq_aloneVerdict ho fun m hm => hbefore m ?_
  have := mem_takeWhile_of_modifier? ho hm
  rwa [takeWhile_order hsplit] at this

end Query

end BugQuery
