import BugQuery.Proofs.Query.TwoRuns

/-!
# The same options for another backend

An option that every backend takes is judged alike by all of them, so a query
of such options fails for all backends or for none. Where two backends write
an option in the same way, its edit is the same for both, and their payloads
agree on the keys that no other option touches.

* `editOf_on`: the edit of an option that two backends write in the same way.
* `verdict_on`: an option is judged alike for all backends.
* `result_compile_on`: a query compiles for one backend if it does for another.
* `get?_on`: the payloads for two backends agree where the edits of all options do.
-/
namespace BugQuery

open FirstFailure

/-- The error as another backend reports it. -/
def QueryError.forBackend (name : String) : QueryError → QueryError
  | unsupportedOption option _ => unsupportedOption option name
  | x => x

namespace Backend

/-- An option of all backends owns its keys, or gives an address. -/
theorem handling_of_mem_plainOrder {o : SearchOption} (ho : o ∈ plainOrder) :
    o.handling.ownsKeys = true ∨ o.handling = .email := by
  have hall : ∀ o ∈ plainOrder, o.handling.ownsKeys = true ∨ o.handling = .email := by decide
  exact hall o ho

theorem mem_order_of_mem_plainOrder {b : Backend} {o : SearchOption} (ho : o ∈ plainOrder) :
    o ∈ b.order := by
  have hall : ∀ o ∈ plainOrder, o ∈ b.order := by cases b <;> decide
  exact hall o ho

/-- Every backend takes the options of roles. -/
theorem mem_order_of_email {b : Backend} {o : SearchOption} (h : o.handling = .email) :
    o ∈ b.order := by
  have hall : ∀ o ∈ SearchOption.all, o.handling = .email → o ∈ plainOrder := by decide
  exact mem_order_of_mem_plainOrder (hall o o.mem_all h)

/-- All backends take the common options in the same order. -/
theorem filter_order (b : Backend) : (b.order.filter fun o => o ∈ plainOrder) = plainOrder := by
  cases b <;> decide

/-- The common options have the same names on the wire. -/
theorem exists_wireName_of_mem_plainOrder {o : SearchOption} (ho : o ∈ plainOrder)
    (hw : o.handling.usesWireName = true) :
    ∃ wire, ∀ b : Backend, b.wireName o.name = .ok wire := by
  obtain ⟨wire, h⟩ := exists_wireName (b := .genericV4) (mem_order_of_mem_plainOrder ho) hw
  refine ⟨wire, fun b => ?_⟩
  have hall : ∀ o ∈ plainOrder, b.fields.get? o.name = Backend.genericV4.fields.get? o.name := by
    cases b <;> decide +kernel
  rw [wireName_eq_ok] at h ⊢
  rw [hall o ho, h]

end Backend

namespace Query

/-- The same options for another backend. -/
def on (q : Query) (b : Backend) : Query := { q with backend := b }

@[simp] theorem backend_on (q : Query) (b : Backend) : (q.on b).backend = b := rfl

@[simp] theorem files_on (q : Query) (b : Backend) : (q.on b).files = q.files := rfl

@[simp] theorem given?_on (q : Query) (b : Backend) (o : SearchOption) :
    (q.on b).given? o = q.given? o := rfl

/-- Every option is one that all backends take. -/
def Common (q : Query) : Prop :=
  ∀ name ∈ q.options.keys, ∃ o ∈ Backend.plainOrder, o.name = name

instance (q : Query) : Decidable q.Common := inferInstanceAs (Decidable (∀ _ ∈ _, _))

theorem supported_on {q : Query} (h : q.Common) (b : Backend) : (q.on b).Supported := by
  intro name hname
  obtain ⟨o, ho, rfl⟩ := h name hname
  exact ⟨o, Backend.mem_order_of_mem_plainOrder ho, rfl⟩

theorem not_given_of_common {q : Query} (h : q.Common) {o : SearchOption}
    (ho : o ∉ Backend.plainOrder) : q.given? o = none := by
  refine Option.eq_none_iff_forall_ne_some.2 fun v hv => ho ?_
  obtain ⟨a, ha, hname⟩ := h o.name (SortedMap.mem_keys.2 (Option.isSome_of_eq_some hv))
  rwa [← SearchOption.name_injective hname]

/-! ## The edit of an option -/

section

variable {q : Query} {o : SearchOption} (b c : Backend)

theorem copyEdit_on {wire : String} (hw : ∀ b : Backend, b.wireName o.name = .ok wire)
    (shape : Shape) (v : OptionValue) : (q.on b).copyEdit o shape v =
      ((q.on c).copyEdit o shape v).mapError (·.forBackend b.name) := by
  simp only [copyEdit, backend_on, hw, ok_bind, files_on]
  cases shape with
  | file =>
    cases v with
    | text path => cases hr : q.files.read path <;> simp [textOf, OptionValue.text?, hr] <;> rfl
    | _ => rfl
  | _ => cases v <;> rfl

theorem statusEdit_on {wire : String} (hw : ∀ b : Backend, b.wireName o.name = .ok wire)
    (v : OptionValue) : (q.on b).statusEdit o v =
      ((q.on c).statusEdit o v).mapError (·.forBackend b.name) := by
  simp only [statusEdit, backend_on, hw, ok_bind, Backend.statuses]
  cases v with
  | text raw =>
    cases hx : StatusTable.standard.expand? raw with
    | none => simp [textOf, OptionValue.text?, hx]; rfl
    | some choice => cases choice <;> simp [textOf, OptionValue.text?, hx] <;> rfl
  | _ => rfl

theorem outputEdit_on {choice : OutputChoice} (v : OptionValue)
    (hf : choice = .format → b.outputFields = c.outputFields) : (q.on b).outputEdit o choice v =
      ((q.on c).outputEdit o choice v).mapError (·.forBackend b.name) := by
  cases choice with
  | oneline =>
    cases v with
    | flag on => cases on <;> rfl
    | _ => rfl
  | format =>
    simp only [outputEdit, backend_on, hf rfl]
    cases v with
    | text format => cases c.outputFields <;> simp [textOf, OptionValue.text?] <;> rfl
    | _ => rfl

theorem emailEdit_on {wire : String} (hw : ∀ b : Backend, b.wireName o.name = .ok wire)
    (hb : b.emailStyle = .plain) (hc : c.emailStyle = .plain) (v : OptionValue)
    (n m : Numbering) : ((q.on b).emailEdit o v n).map Prod.fst =
      (((q.on c).emailEdit o v m).map Prod.fst).mapError (·.forBackend b.name) := by
  simp only [emailEdit, backend_on, hw, ok_bind, hb, hc]
  cases v <;> rfl

/-- Where two backends write an option in the same way, its edit is the same for both, whatever
numbers are next. -/
theorem editOf_on (ho : o ∈ Backend.plainOrder)
    (hs : o.handling = .email → b.emailStyle = .plain ∧ c.emailStyle = .plain)
    (hf : o = .outputFormat → b.outputFields = c.outputFields) (n m : Numbering) :
    ((q.on b).editOf o n).map Prod.fst =
      (((q.on c).editOf o m).map Prod.fst).mapError (·.forBackend b.name) := by
  unfold editOf
  simp only [given?_on]
  cases hv : q.given? o with
  | none => rfl
  | some v =>
    have hown := Backend.handling_of_mem_plainOrder ho
    cases hh : o.handling with
    | direct shape =>
      obtain ⟨wire, hw⟩ := Backend.exists_wireName_of_mem_plainOrder ho (by rw [hh]; rfl)
      simp only [edit, hh, Traced.result_ofExcept, map_map, copyEdit_on b c hw shape v,
        map_mapError]
    | status =>
      obtain ⟨wire, hw⟩ := Backend.exists_wireName_of_mem_plainOrder ho (by rw [hh]; rfl)
      simp only [edit, hh, Traced.result_ofExcept, map_map, statusEdit_on b c hw v, map_mapError]
    | email =>
      obtain ⟨wire, hw⟩ := Backend.exists_wireName_of_mem_plainOrder ho (by rw [hh]; rfl)
      simp only [edit, hh, Traced.result_ofExcept]
      exact emailEdit_on b c hw (hs hh).1 (hs hh).2 v n m
    | chart form => simp [hh, Handling.ownsKeys] at hown
    | modifier kind => simp [hh, Handling.ownsKeys] at hown
    | output choice =>
      have hformat : choice = .format → b.outputFields = c.outputFields := fun hc =>
        hf (SearchOption.handling_eq_format.1 (hc ▸ hh))
      simp only [edit, hh, Traced.result_ofExcept, map_map, outputEdit_on b c v hformat,
        map_mapError]

end

/-! ## How compilations end -/

/-- Where the match type is not given, all that can be wrong with an address is its text. -/
theorem verdict_email {q : Query} {o : SearchOption} {v : OptionValue} (b : Backend)
    (ho : o ∈ Backend.plainOrder) (hh : o.handling = .email) (hv : q.given? o = some v)
    (hm : q.given? .emailType = none) :
    (q.on b).verdict o = (textOf o v).map fun _ => () := by
  obtain ⟨wire, hw⟩ := Backend.exists_wireName_of_mem_plainOrder ho (by rw [hh]; rfl)
  have hmatch : (q.on b).modifierText .emailType = .ok defaultMatch := modifierText_of_not_given hm
  rw [verdict, editOf_of_given (q := q.on b) hv]
  simp only [edit, hh, Traced.result_ofExcept]
  rw [map_emailEdit]
  simp only [backend_on, hw, ok_bind, hmatch]
  cases textOf o v with
  | error x => rfl
  | ok address => cases b <;> rfl

theorem verdict_outputFormat {q : Query} {v : OptionValue} (b : Backend)
    (hv : q.given? .outputFormat = some v) :
    (q.on b).verdict .outputFormat = (textOf .outputFormat v).map fun _ => () := by
  rw [verdict, editOf_of_given (q := q.on b) hv]
  cases v <;> cases b <;> rfl

/-- An option is judged alike for all backends. -/
theorem verdict_on {q : Query} {o : SearchOption} (hq : q.Common) (ho : o ∈ Backend.plainOrder)
    (b c : Backend) :
    (q.on b).verdict o = ((q.on c).verdict o).mapError (·.forBackend b.name) := by
  cases hv : q.given? o with
  | none =>
    rw [verdict_of_not_given (q := q.on b) hv, verdict_of_not_given (q := q.on c) hv]
    rfl
  | some v =>
    by_cases hh : o.handling = .email
    · have hm : q.given? .emailType = none := not_given_of_common hq (by decide)
      rw [verdict_email b ho hh hv hm, verdict_email c ho hh hv hm]
      cases v <;> rfl
    · by_cases hf : o = .outputFormat
      · subst hf
        rw [verdict_outputFormat b hv, verdict_outputFormat c hv]
        cases v <;> rfl
      · have hsame := editOf_on (q := q) b c ho (fun h => absurd h hh) (fun h => absurd h hf) {} {}
        have hmap := congrArg (Except.map fun _ => ()) hsame
        rwa [map_mapError, map_map, map_map] at hmap

/-- The same options compile for one backend as they do for another. -/
theorem result_compile_on {q : Query} (hq : q.Common) (b c : Backend) :
    (q.on b).compile.result.map (fun _ => ()) =
      ((q.on c).compile.result.map fun _ => ()).mapError (·.forBackend b.name) := by
  have hcommon : ∀ b : Backend, (q.on b).compile.result.map (fun _ => ()) =
      forM Backend.plainOrder (q.on b).verdict := by
    intro b
    rw [result_compile_eq_forM (supported_on hq b), ← b.filter_order]
    refine (forM_filter fun o _ ho => verdict_of_not_given ?_).symm
    exact not_given_of_common hq (of_decide_eq_false ho)
  rw [hcommon b, hcommon c, mapError_forM]
  exact forM_congr fun before o after hsplit _ => verdict_on hq (by rw [hsplit]; simp) b c

/-! ## Payloads -/

theorem exists_editAll_on {q : Query} {b : Backend} {p : Payload} (hq : q.Common)
    (h : (q.on b).compile.result = .ok p) : ∃ e m,
      (q.on b).editAll Backend.plainOrder {} = .ok (e, m) ∧ p = e.apply (q.initial .empty) := by
  obtain ⟨-, e, m, he, rfl⟩ := exists_editAll_of_compile h
  refine ⟨e, m, ?_, rfl⟩
  rw [← b.filter_order, editAll_filter fun o _ ho => ?_]
  · exact he
  · exact not_given_of_common hq (of_decide_eq_false ho)

/-- What holds of the edits of every common option holds of the payloads. -/
theorem get?_on {q : Query} {b c : Backend} {p p' : Payload} {K : String → Prop} (hq : q.Common)
    (h : (q.on b).compile.result = .ok p) (h' : (q.on c).compile.result = .ok p')
    (hstep : ∀ o ∈ Backend.plainOrder, ∀ {n n' m m' : Numbering} {e f : Edit},
      (q.on b).editOf o n = .ok (e, n') → (q.on c).editOf o m = .ok (f, m') → e.AgreeOff K f)
    {k : String} (hk : ¬ K k) : p.get? k = p'.get? k := by
  obtain ⟨e, m, he, rfl⟩ := exists_editAll_on hq h
  obtain ⟨f, m', hf, rfl⟩ := exists_editAll_on hq h'
  have hagree := editAll_agreeOff (N := fun _ _ => True)
    (fun o ho _ _ _ _ _ _ _ he hf => ⟨hstep o ho he hf, trivial⟩) trivial he hf
  exact hagree.1.get?_apply (fun _ _ => rfl) k hk

/-- Where two backends write an option in the same way, the edits are equal. -/
theorem eq_of_editOf_on {q : Query} {o : SearchOption} {b c : Backend} {n n' m m' : Numbering}
    {e f : Edit} (ho : o ∈ Backend.plainOrder)
    (hs : o.handling = .email → b.emailStyle = .plain ∧ c.emailStyle = .plain)
    (hout : o = .outputFormat → b.outputFields = c.outputFields)
    (he : (q.on b).editOf o n = .ok (e, n')) (hf : (q.on c).editOf o m = .ok (f, m')) : e = f := by
  have hsame := editOf_on (q := q) b c ho hs hout n m
  rw [he, hf] at hsame
  exact Except.ok.inj hsame

end Query

end BugQuery
