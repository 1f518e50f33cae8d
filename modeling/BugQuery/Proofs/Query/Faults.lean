import BugQuery.Proofs.Query.Verdict
import BugQuery.Proofs.Text.ByteOrder

/-!
# What compiling reports

A name that is no option of the backend is reported first, the least one in
the order of bytes. Otherwise the first option that does not compile alone
is reported, just as it is alone, and what is reported is a fault in what was
given for that option. What an option takes from elsewhere is always sound
once it is reached: its wire name, the operator or the match type that a
modifier gives, and the wire names of the terms it writes.

* `sound_of_compiled`: what an option finds when it is reached.
* `fault_of_edit`: an option fails by a fault of its own.
* `compile_firstAlone`: how a compilation ends, from how its options compile alone.
-/
namespace BugQuery.Query

open FirstFailure

/-! ## What an option finds -/

/-- All that the edit of an option takes from elsewhere is there and well-formed. -/
structure Sound (q : Query) (o : SearchOption) : Prop where
  wireName : o.handling.usesWireName = true → ∃ wire, q.backend.wireName o.name = .ok wire
  matchType : o.handling = .email → q.backend.emailStyle = .indexedRoles →
    ∃ s, q.modifierText .emailType = .ok s
  operator : ∀ form, o.handling = .chart form →
    ∃ s ∈ Expr.operators, q.modifierText .booleanType = .ok s
  /-- an entry that does not read is at fault itself, not the operator -/
  read : ∀ form operator raw x, o.handling = .chart form →
    q.modifierText .booleanType = .ok operator → chartExpr o form operator raw = .error x →
    ∃ d, x = .malformedExpression raw d ∧ ∀ s, d ≠ .unknownOperator s
  encode : ∀ form operator raw e n, o.handling = .chart form →
    chartExpr o form operator raw = .ok e →
    ∃ p, (Chart.encode q.backend.fields q.backend.name n e).result = .ok p

theorem sound_of_pass {q : Query} {o : SearchOption} (ho : o ∈ q.backend.order)
    (hm : ∀ m, q.backend.modifier? o = some m → q.verdict m = .ok ()) : q.Sound o where
  wireName := Backend.exists_wireName ho
  matchType hh hs := exists_modifierText (hm _ (Backend.modifier?_eq_some.2 (.inl ⟨hh, hs, rfl⟩)))
  operator form hh := exists_operator (hm _ (Backend.modifier?_eq_some.2 (.inr ⟨⟨form, hh⟩, rfl⟩)))
  read form operator raw x hh hop h := by
    obtain ⟨s, hs, hmod⟩ :=
      exists_operator (hm _ (Backend.modifier?_eq_some.2 (.inr ⟨⟨form, hh⟩, rfl⟩)))
    rw [hmod] at hop
    cases hop
    cases form with
    | terms => exact Expr.parse_eq_error h
    | values => exact Expr.parseValues_eq_error hs h
  encode form operator raw e n hh h :=
    ⟨_, Chart.result_encode_of_known (wire?_of_chartExpr (Backend.isSome_of_chart ho hh) h) _ n⟩

theorem verdict_of_editAll {q : Query} {os : List SearchOption} {n : Numbering}
    {r : Edit × Numbering} (hos : ∀ o ∈ os, o ∈ q.backend.order) (h : q.editAll os n = .ok r) :
    ∀ o ∈ os, q.verdict o = .ok () := by
  refine forM_eq_ok.1 ?_
  rw [← map_editAll n hos, h]
  rfl

/-- Modifiers come first, so an option that is reached finds them sound. -/
theorem sound_of_compiled {q : Query} {o : SearchOption}
    (h : Event.compilingOption o ∈ q.compile.events) : q.Sound o := by
  cases hu : q.unsupported? with
  | some name =>
    rw [show q.compile.events = (q.compileOnto .empty).events from rfl,
      compileOnto_of_unsupported hu] at h
    cases h
  | none =>
    rw [show q.compile.events = (q.compileOnto .empty).events from rfl, compileOnto, hu] at h
    have hmem : o ∈ (q.runFrom q.backend.order { payload := q.initial .empty }).events.filterMap
        Event.compiled? := by
      rcases List.mem_cons.1 h with h | h
      · cases h
      · exact List.mem_filterMap.2 ⟨_, h, rfl⟩
    obtain ⟨before, after, e, m, horder, he⟩ := q.reached_of_compiled hmem
    have ho : o ∈ q.backend.order := by rw [horder]; simp
    refine sound_of_pass ho fun m hm => ?_
    have hbefore := mem_takeWhile_of_modifier? ho hm
    rw [takeWhile_order horder] at hbefore
    exact verdict_of_editAll (fun a ha => by rw [horder]; simp [ha]) he m hbefore

/-! ## Faults -/

/-- An error that is due to what was given for an option. -/
inductive Fault (q : Query) (o : SearchOption) (v : OptionValue) : QueryError → Prop where
  | value (expected : Expected) : Fault q o v (.invalidOptionValue o expected)
  | file {path : String} {cause : ReadError} (hv : v = .text path)
      (hread : q.files.read path = .error cause) : Fault q o v (.fileRead path cause)
  | status {raw : String} (ho : o = .bugStatus) (hv : v = .text raw)
      (hraw : q.backend.statuses.expand? raw = none) :
      Fault q o v (.unsupportedOption ("bug_status='" ++ raw ++ "'") q.backend.name)
  | operator {s : String} (ho : o = .booleanType) (hv : v = .text s) (hs : s ∉ Expr.operators) :
      Fault q o v (.malformedExpression s (.unknownOperator s))
  | entry {raws : List String} {raw : String} {d : Expr.Defect} (hv : v.toList? = some raws)
      (hraw : raw ∈ raws) (hd : ∀ s, d ≠ .unknownOperator s) :
      Fault q o v (.malformedExpression raw d)

theorem fault_of_textOf {q : Query} {o : SearchOption} {v : OptionValue} {x : QueryError}
    (h : textOf o v = .error x) : q.Fault o v x := by
  cases v <;> cases h <;> exact .value _

theorem fault_of_textsOf {q : Query} {o : SearchOption} {v : OptionValue} {x : QueryError}
    (h : textsOf o v = .error x) : q.Fault o v x := by
  cases v <;> cases h
  exact .value _

theorem fault_of_copyEdit {q : Query} {o : SearchOption} {shape : Shape} {v : OptionValue}
    {x : QueryError} {wire : String} (hw : q.backend.wireName o.name = .ok wire)
    (h : q.copyEdit o shape v = .error x) : q.Fault o v x := by
  unfold copyEdit at h
  rw [hw, ok_bind] at h
  cases shape with
  | verbatim =>
    cases v <;> cases h
    exact .value _
  | list =>
    rcases bind_eq_error.1 h with h | ⟨_, -, h⟩
    · exact fault_of_textsOf h
    · cases h
  | commaList =>
    rcases bind_eq_error.1 h with h | ⟨_, -, h⟩
    · exact fault_of_textsOf h
    · cases h
  | file =>
    rcases bind_eq_error.1 h with h | ⟨path, hp, h⟩
    · exact fault_of_textOf h
    · cases hr : q.files.read path with
      | ok content => simp [hr] at h
      | error cause =>
        simp only [hr, throw_eq_error] at h
        subst h
        exact .file (textOf_eq_ok.1 hp) hr
  | longText =>
    rcases bind_eq_error.1 h with h | ⟨_, -, h⟩
    · exact fault_of_textOf h
    · cases h

theorem fault_of_statusEdit {q : Query} {v : OptionValue} {x : QueryError} {wire : String}
    (hw : q.backend.wireName SearchOption.bugStatus.name = .ok wire)
    (h : q.statusEdit .bugStatus v = .error x) : q.Fault .bugStatus v x := by
  unfold statusEdit at h
  rw [hw, ok_bind] at h
  rcases bind_eq_error.1 h with h | ⟨raw, hr, h⟩
  · exact fault_of_textOf h
  · split at h
    · cases h
    · cases h
    · rename_i hraw
      cases h
      exact .status rfl (textOf_eq_ok.1 hr) hraw

theorem fault_of_emailEdit {q : Query} {o : SearchOption} {v : OptionValue} {n : Numbering}
    {x : QueryError} (hsound : q.Sound o) (hh : o.handling = .email)
    (h : q.emailEdit o v n = .error x) : q.Fault o v x := by
  obtain ⟨role, hw⟩ := hsound.wireName (by rw [hh]; rfl)
  unfold emailEdit at h
  rw [hw, ok_bind] at h
  rcases bind_eq_error.1 h with h | ⟨address, -, h⟩
  · exact fault_of_textOf h
  · split at h
    · cases h
    · rename_i hs
      obtain ⟨s, hm⟩ := hsound.matchType hh hs
      rw [hm, ok_bind] at h
      cases h

theorem fault_of_chartEdit {q : Query} {o : SearchOption} {form : ChartForm} {v : OptionValue}
    {n : Numbering} {x : QueryError} (hsound : q.Sound o) (ho : o ∈ q.backend.order)
    (hh : o.handling = .chart form) (h : (q.chartEdit o form v n).result = .error x) :
    q.Fault o v x := by
  obtain ⟨operator, -, hop⟩ := hsound.operator form hh
  rw [result_chartEdit (Backend.isSome_of_chart ho hh), hop, ok_bind] at h
  rcases bind_eq_error.1 h with h | ⟨raws, hraws, h⟩
  · exact fault_of_textsOf h
  · rcases bind_eq_error.1 h with h | ⟨es, -, h⟩
    · obtain ⟨raw, hraw, hx⟩ := exists_of_mapM_error h
      obtain ⟨d, rfl, hd⟩ := hsound.read form operator raw x hh hop hx
      exact .entry (textsOf_eq_ok.1 hraws) hraw hd
    · cases h

theorem fault_of_modifierEdit {q : Query} {o : SearchOption} {kind : Modifier} {v : OptionValue}
    {x : QueryError} (hh : o.handling = .modifier kind) (h : modifierEdit o kind v = .error x) :
    q.Fault o v x := by
  unfold modifierEdit at h
  rcases bind_eq_error.1 h with h | ⟨s, hs, h⟩
  · exact fault_of_textOf h
  · cases kind with
    | matchType => cases h
    | operator =>
      dsimp only at h
      split at h
      · cases h
      · rename_i hknown
        cases h
        exact .operator (SearchOption.handling_eq_operator.1 hh) (textOf_eq_ok.1 hs) hknown

theorem fault_of_outputEdit {q : Query} {o : SearchOption} {choice : OutputChoice}
    {v : OptionValue} {x : QueryError} (h : q.outputEdit o choice v = .error x) :
    q.Fault o v x := by
  unfold outputEdit at h
  cases choice with
  | oneline =>
    dsimp only at h
    split at h
    · cases h
    · cases h
    · cases h
      exact .value _
  | format =>
    rcases bind_eq_error.1 h with h | ⟨format, -, h⟩
    · exact fault_of_textOf h
    · split at h <;> cases h

/-- With all it takes from elsewhere sound, an option fails by a fault of its own. -/
theorem fault_of_edit {q : Query} {o : SearchOption} {v : OptionValue} {n : Numbering}
    {x : QueryError} (hsound : q.Sound o) (ho : o ∈ q.backend.order)
    (h : (q.edit o v n).result = .error x) : q.Fault o v x := by
  have hwire := hsound.wireName
  unfold edit at h
  split at h
  case h_1 shape hh =>
    obtain ⟨wire, hw⟩ := hwire (by rw [hh]; rfl)
    exact fault_of_copyEdit hw (map_eq_error.1 h)
  case h_2 hh =>
    obtain ⟨wire, hw⟩ := hwire (by rw [hh]; rfl)
    obtain rfl := SearchOption.handling_eq_status.1 hh
    exact fault_of_statusEdit hw (map_eq_error.1 h)
  case h_3 hh => exact fault_of_emailEdit hsound hh h
  case h_4 form hh => exact fault_of_chartEdit hsound ho hh h
  case h_5 kind hh => exact fault_of_modifierEdit hh (map_eq_error.1 h)
  case h_6 choice hh => exact fault_of_outputEdit (map_eq_error.1 h)

/-! ## How a compilation ends -/

/-- Of the names that are no options of the backend, the least one is found. -/
theorem least_of_unsupported? {q : Query} {name other : String} (h : q.unsupported? = some name)
    (hmem : other ∈ q.options.keys) (hno : ∀ o ∈ q.backend.order, o.name ≠ other)
    (hne : other ≠ name) : name < other := by
  obtain ⟨-, before, after, hkeys, hbefore⟩ := List.find?_eq_some_iff_append.1 h
  have hsorted : (before ++ name :: after).Pairwise (· < ·) := hkeys ▸ q.options.sorted
  rw [hkeys, List.mem_append, List.mem_cons] at hmem
  rcases hmem with hb | rfl | ha
  · have hsupports : q.backend.supportsName other = true := by simpa using hbefore other hb
    obtain ⟨o, ho, hname⟩ := supportsName_iff.1 hsupports
    exact absurd hname (hno o ho)
  · exact absurd rfl hne
  · exact (List.pairwise_cons.1 (List.pairwise_append.1 hsorted).2.1).1 other ha

/-- In the order of the backend `o` is the first option that does not compile alone, and `x` is
what is reported for it there. -/
def FirstAlone (q : Query) (o : SearchOption) (v : OptionValue) (x : QueryError) : Prop :=
  ∃ before after, q.backend.order = before ++ o :: after ∧
    (∀ a ∈ before, ∀ w, q.given? a = some w → ∃ p, (q.alone a w).compile.result = .ok p) ∧
    q.given? o = some v ∧ (q.alone o v).compile.result = .error x

theorem aloneVerdict_eq_ok {q : Query} {o : SearchOption} : q.aloneVerdict o = .ok () ↔
    ∀ v, q.given? o = some v → ∃ p, (q.alone o v).compile.result = .ok p := by
  unfold aloneVerdict
  cases q.given? o with
  | none => simp
  | some v => simp

theorem aloneVerdict_eq_error {q : Query} {o : SearchOption} {x : QueryError} :
    q.aloneVerdict o = .error x ↔
      ∃ v, q.given? o = some v ∧ (q.alone o v).compile.result = .error x := by
  unfold aloneVerdict
  cases q.given? o with
  | none => simp
  | some v => simp

theorem mem_order_of_given {q : Query} (h : q.Supported) {o : SearchOption} {v : OptionValue}
    (hv : q.given? o = some v) : o ∈ q.backend.order := by
  have hkey : o.name ∈ q.options.keys := SortedMap.mem_keys.2 (Option.isSome_of_eq_some hv)
  obtain ⟨a, ha, hname⟩ := h o.name hkey
  rwa [← SearchOption.name_injective hname]

theorem compile_eq_ok_iff_alone {q : Query} (h : q.Supported) :
    (∃ p, q.compile.result = .ok p) ↔
      ∀ o v, q.given? o = some v → ∃ p, (q.alone o v).compile.result = .ok p := by
  have hall := result_compile_eq_alone h
  have hok : (∃ p, q.compile.result = .ok p) ↔ q.compile.result.map (fun _ => ()) = .ok () := by
    simp
  rw [hok, hall, forM_eq_ok]
  constructor
  · intro hpass o v hv
    exact aloneVerdict_eq_ok.1 (hpass o (mem_order_of_given h hv)) v hv
  · intro halone o _
    exact aloneVerdict_eq_ok.2 (halone o)

theorem compile_eq_error_iff_firstAlone {q : Query} (h : q.Supported) {x : QueryError} :
    q.compile.result = .error x ↔ ∃ o v, q.FirstAlone o v x := by
  have hall := result_compile_eq_alone h
  rw [← map_eq_error (f := fun _ => ()), hall, forM_eq_error]
  constructor
  · intro hex
    obtain ⟨before, o, after, horder, hbefore, ho⟩ := hex
    obtain ⟨v, hv, hx⟩ := aloneVerdict_eq_error.1 ho
    exact ⟨o, v, before, after, horder, fun a ha => aloneVerdict_eq_ok.1 (hbefore a ha), hv, hx⟩
  · intro hex
    obtain ⟨o, v, before, after, horder, hbefore, hv, hx⟩ := hex
    exact ⟨before, o, after, horder, fun a ha => aloneVerdict_eq_ok.2 (hbefore a ha),
      aloneVerdict_eq_error.2 ⟨v, hv, hx⟩⟩

theorem fault_of_fault_alone {q : Query} {o : SearchOption} {v : OptionValue} {x : QueryError}
    (h : (q.alone o v).Fault o v x) : q.Fault o v x := by
  cases h with
  | value expected => exact .value expected
  | file hv hread => exact .file hv hread
  | status ho hv hraw => exact .status ho hv hraw
  | operator ho hv hs => exact .operator ho hv hs
  | entry hv hraw hd => exact .entry hv hraw hd

/-- Alone, an option has its modifiers at their defaults, and fails by a fault of its own. -/
theorem fault_of_alone {q : Query} {o : SearchOption} {v : OptionValue} {x : QueryError}
    (ho : o ∈ q.backend.order) (h : (q.alone o v).compile.result = .error x) : q.Fault o v x := by
  have hsound : (q.alone o v).Sound o := by
    refine sound_of_pass ho fun m hm => verdict_of_not_given ?_
    have hne : m ≠ o := by
      rintro rfl
      rcases Backend.modifier?_eq_some.1 hm with ⟨hh, -, rfl⟩ | ⟨⟨form, hh⟩, rfl⟩ <;> cases hh
    rw [given?_alone, if_neg hne]
  have hverdict : (q.alone o v).verdict o = .error x := by
    rw [← result_compile_alone ho, h]
    rfl
  rw [verdict, editOf_of_given (q.given?_alone_self o v), map_eq_error] at hverdict
  exact fault_of_fault_alone (fault_of_edit hsound ho hverdict)

/-- A name that is no option of the backend is reported, the least one in the order of bytes.
Without one, a query compiles exactly if its options all compile alone, and else is reported
the first one that does not, just as it is alone and for a fault of its own. What an option takes
from elsewhere is sound whenever its edit is begun. -/
theorem compile_firstAlone (q : Query) :
    (¬ q.Supported → ∃ name ∈ q.options.keys, (∀ o ∈ q.backend.order, o.name ≠ name) ∧
      (∀ other ∈ q.options.keys, (∀ o ∈ q.backend.order, o.name ≠ other) → other ≠ name →
        Text.bytes name < Text.bytes other) ∧
      q.compile.result = .error (.unsupportedOption name q.backend.name)) ∧
    (q.Supported →
      ((∃ p, q.compile.result = .ok p) ↔
        ∀ o v, q.given? o = some v → ∃ p, (q.alone o v).compile.result = .ok p) ∧
      (∀ x, q.compile.result = .error x ↔ ∃ o v, q.FirstAlone o v x) ∧
      (∀ o v x, q.FirstAlone o v x → q.Fault o v x)) ∧
    (∀ o, Event.compilingOption o ∈ q.compile.events → q.Sound o) := by
  refine ⟨?_, ?_, fun o => sound_of_compiled⟩
  · intro hs
    cases hu : q.unsupported? with
    | none => exact absurd (unsupported?_eq_none.1 hu) hs
    | some name =>
      obtain ⟨hmem, hno⟩ := exists_of_unsupported? hu
      refine ⟨name, hmem, hno, ?_, ?_⟩
      · intro other hother hnone hne
        exact Text.bytes_lt_iff.2 (least_of_unsupported? hu hother hnone hne)
      · rw [result_compile, compileOnto_of_unsupported hu]
        rfl
  · intro hs
    refine ⟨compile_eq_ok_iff_alone hs, fun x => compile_eq_error_iff_firstAlone hs, ?_⟩
    rintro o v x ⟨before, after, horder, -, -, hx⟩
    exact fault_of_alone (by rw [horder]; simp) hx

end BugQuery.Query
