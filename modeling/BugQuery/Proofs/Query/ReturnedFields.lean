import BugQuery.Proofs.Placeholder.Distinct
import BugQuery.Proofs.Query.SoleKeys

/-!
# The returned fields of a query

Three things write the returned fields: the default comes first, a one-line
report replaces it, and an output format, which comes last of all options,
replaces or clears what is there. No other option touches them.

* `get?_apply_of_not_output`: the edit of any other option leaves the returned fields.
* `get?_apply_oneline`, `get?_apply_outputFormat`: what the two output options make of them.
* `compile_includeFields`: the returned fields on the payload of a query.
-/
namespace BugQuery

open FirstFailure

/-- The output options come last, the format after the one-line report. -/
theorem Backend.order_eq_append (b : Backend) :
    b.order = b.order.dropLast.dropLast ++ [.oneline, .outputFormat] := by
  cases b <;> rfl

theorem Backend.not_output_of_mem_init {b : Backend} {o : SearchOption}
    (h : o ∈ b.order.dropLast.dropLast) (choice : OutputChoice) : o.handling ≠ .output choice := by
  have hall : ∀ o ∈ b.order.dropLast.dropLast, o.handling ≠ .output .oneline ∧
      o.handling ≠ .output .format := by
    cases b <;> decide
  cases choice
  · exact (hall o h).1
  · exact (hall o h).2

theorem Backend.includeFields_not_mem_fixedKeys {b : Backend} {o : SearchOption}
    (ho : o ∈ b.order) (hh : ∀ choice, o.handling ≠ .output choice) :
    Query.includeFieldsKey ∉ b.fixedKeys o := by
  have hall : ∀ o ∈ b.order, Query.includeFieldsKey ∈ b.fixedKeys o →
      o = .oneline ∨ o = .outputFormat := by
    cases b <;> decide +kernel
  intro hmem
  rcases hall o ho hmem with rfl | rfl
  · exact hh .oneline rfl
  · exact hh .format rfl

namespace Query

/-! ## Options that leave the returned fields -/

theorem get?_apply_of_not_output {q : Query} {o : SearchOption} {n m : Numbering} {e : Edit}
    (ho : o ∈ q.backend.order) (hh : ∀ choice, o.handling ≠ .output choice)
    (he : q.editOf o n = .ok (e, m)) (p : Payload) :
    (e.apply p).get? includeFieldsKey = p.get? includeFieldsKey :=
  get?_apply_of_not_fixed (by decide) ho (Backend.includeFields_not_mem_fixedKeys ho hh) he p

/-- The options so far, if they choose no output, have left the returned fields of `p`. -/
def LeavesReturned (p : Payload) (done : List SearchOption) (s : State) : Prop :=
  (∀ o ∈ done, ∀ choice, o.handling ≠ .output choice) →
    s.payload.get? includeFieldsKey = p.get? includeFieldsKey

/-- Before the output options, the returned fields are those that a run starts with. -/
theorem get?_apply_editAll_init {q : Query} {s : State} {m : Numbering} {e : Edit}
    (he : q.editAll q.backend.order.dropLast.dropLast s.numbering = .ok (e, m)) :
    (e.apply s.payload).get? includeFieldsKey = s.payload.get? includeFieldsKey := by
  have hinit : ∀ o ∈ q.backend.order.dropLast.dropLast, o ∈ q.backend.order := fun o ho =>
    List.dropLast_subset _ (List.dropLast_subset _ ho)
  have hstart : LeavesReturned s.payload [] s := fun _ => rfl
  have hrun := editAll_induction q (I := LeavesReturned s.payload) ?_ hinit hstart he
  · exact hrun fun o ho => Backend.not_output_of_mem_init (by simpa using ho)
  · intro done o t f k ho ht hf hdone
    rw [get?_apply_of_not_output ho (hdone o (by simp)) hf]
    exact ht fun a ha => hdone a (by simp [ha])

/-! ## The output options -/

theorem outputEdit_oneline_eq_ok {q : Query} {o : SearchOption} {v : OptionValue} {e : Edit}
    (h : q.outputEdit o .oneline v = .ok e) :
    v = .flag true ∧ e = .set includeFieldsKey (.list onelineIncludeFields) ∨
      v = .flag false ∧ e = .none := by
  cases v with
  | flag on =>
    cases on <;> cases h
    · exact .inr ⟨rfl, rfl⟩
    · exact .inl ⟨rfl, rfl⟩
  | _ => cases h

theorem get?_apply_oneline {q : Query} {n m : Numbering} {e : Edit}
    (he : q.editOf .oneline n = .ok (e, m)) (p : Payload) :
    (q.given? .oneline = none ∨ ∃ on, q.given? .oneline = some (.flag on)) ∧
    (e.apply p).get? includeFieldsKey =
      if q.given? .oneline = some (.flag true) then some (.list onelineIncludeFields)
      else p.get? includeFieldsKey := by
  cases hv : q.given? .oneline with
  | none =>
    rw [editOf_of_not_given hv] at he
    cases he
    simp
  | some v =>
    rw [editOf_of_given hv] at he
    obtain ⟨f, hf, hpair⟩ := map_eq_ok.1 he
    cases hpair
    rcases outputEdit_oneline_eq_ok hf with ⟨rfl, rfl⟩ | ⟨rfl, rfl⟩
    · exact ⟨.inr ⟨true, rfl⟩, by simp [Edit.set, Edit.get?_apply]⟩
    · exact ⟨.inr ⟨false, rfl⟩, by simp⟩

/-- Where no output format is given the returned fields stay; a format replaces them, or clears
them for a backend that cannot choose. -/
theorem get?_apply_outputFormat {q : Query} {n m : Numbering} {e : Edit}
    (he : q.editOf .outputFormat n = .ok (e, m)) (p : Payload) :
    q.given? .outputFormat = none ∧
      (e.apply p).get? includeFieldsKey = p.get? includeFieldsKey ∨
    ∃ format, q.given? .outputFormat = some (.text format) ∧
      (e.apply p).get? includeFieldsKey =
        q.backend.outputFields.map fun aliases => .list (selectedFields aliases format) := by
  cases hv : q.given? .outputFormat with
  | none =>
    rw [editOf_of_not_given hv] at he
    cases he
    exact .inl ⟨rfl, by simp⟩
  | some v =>
    rw [editOf_of_given hv] at he
    obtain ⟨f, hf, hpair⟩ := map_eq_ok.1 he
    cases hpair
    obtain ⟨format, rfl, ⟨hx, rfl⟩ | ⟨aliases, hx, rfl⟩⟩ := outputEdit_format_eq_ok hf
    · exact .inr ⟨format, rfl, by simp [Edit.clear, Edit.get?_apply, hx]⟩
    · exact .inr ⟨format, rfl, by simp [Edit.set, Edit.get?_apply, hx]⟩

/-! ## A whole query -/

/-- The fields that are returned if no output format is given. -/
def reportFields (q : Query) : List String :=
  if q.given? .oneline = some (.flag true) then onelineIncludeFields
  else q.backend.defaultIncludeFields

/-- The names of returned fields in version 4. -/
def version4Names : FieldTable := ⟨[Backend.version4Aliases]⟩

theorem outputFields_eq_some {b : Backend} (h : b ≠ .genericV3) :
    b.outputFields = some version4Names := by
  cases b with
  | genericV3 => exact absurd rfl h
  | _ => rfl

/-- The three ways in which the returned fields on the payload of a query come about. -/
theorem returned_cases {q : Query} {p : Payload} (h : q.compile.result = .ok p) :
    (q.given? .oneline = none ∨ ∃ on, q.given? .oneline = some (.flag on)) ∧
    (q.given? .outputFormat = none ∧ p.get? includeFieldsKey = some (.list q.reportFields) ∨
    ∃ format, q.given? .outputFormat = some (.text format) ∧ p.get? includeFieldsKey =
      q.backend.outputFields.map fun aliases => .list (selectedFields aliases format)) := by
  obtain ⟨-, e, m, he, rfl⟩ := exists_editAll_of_compile h
  rw [q.backend.order_eq_append] at he
  obtain ⟨f, k, g, hinit, hlast, rfl⟩ := (editAll_append_eq_ok _).1 he
  obtain ⟨f₁, l, g', honeline, hrest, rfl⟩ := editAll_cons_eq_ok.1 hlast
  obtain ⟨f₂, _, _, hformat, hnil, rfl⟩ := editAll_cons_eq_ok.1 hrest
  cases hnil
  have hstart := get?_apply_editAll_init (s := { payload := q.initial .empty }) hinit
  obtain ⟨hflag, hreport⟩ := get?_apply_oneline honeline (f.apply (q.initial .empty))
  refine ⟨hflag, ?_⟩
  rw [Edit.andThen_none, Edit.apply_andThen, Edit.apply_andThen]
  refine (get?_apply_outputFormat hformat _).imp_left fun ⟨hnone, hkeep⟩ => ⟨hnone, ?_⟩
  rw [hkeep, hreport, hstart, reportFields]
  split <;> simp [initial]

theorem nodup_reportFields (q : Query) : q.reportFields.Nodup := by
  unfold reportFields
  split
  · decide
  · cases q.backend <;> decide

theorem firstsOf_selectedFields (aliases : FieldTable) (format : String) :
    Placeholder.FirstsOf ((Placeholder.fields format).map aliases.translate)
      (selectedFields aliases format) :=
  Placeholder.firstsOf_distinct _

/-- The returned fields are left out just if an output format is given to version 3. Otherwise a
format selects the names of its placeholders as version 4 has them, each at its first place,
whatever else is given; without a format, the one-line report or the default decides. No field
comes twice, and every name that a format selects is there under its name in version 4. -/
theorem compile_includeFields {q : Query} {p : Payload} (h : q.compile.result = .ok p) :
    (p.get? "include_fields" = none ↔
      q.backend = .genericV3 ∧ (q.given? .outputFormat).isSome = true) ∧
    (∀ v, q.backend ≠ .genericV3 → q.given? .outputFormat = some v →
      ∃ format fields, v = .text format ∧ p.get? "include_fields" = some (.list fields) ∧
        Placeholder.FirstsOf ((Placeholder.fields format).map version4Names.translate) fields) ∧
    (q.given? .outputFormat = none →
      (q.given? .oneline = some (.flag true) →
        p.get? "include_fields" = some (.list onelineIncludeFields)) ∧
      (q.given? .oneline = some (.flag false) ∨ q.given? .oneline = none →
        p.get? "include_fields" = some (.list q.backend.defaultIncludeFields)) ∧
      ∀ v, q.given? .oneline = some v → ∃ on, v = .flag on) ∧
    ∀ v, p.get? "include_fields" = some v → ∃ fields, v = .list fields ∧ fields.Nodup ∧
      ∀ format, q.given? .outputFormat = some (.text format) →
        ∀ name ∈ Placeholder.fields format, version4Names.translate name ∈ fields := by
  obtain ⟨hflag, hcases⟩ := returned_cases h
  rw [show "include_fields" = includeFieldsKey from rfl]
  rcases hcases with ⟨hnone, hp⟩ | ⟨format, hformat, hp⟩
  · -- the one-line report or the default
    refine ⟨by simp [hp, hnone], fun v _ hv => ?_, fun _ => ⟨fun hon => ?_, fun hoff => ?_, ?_⟩,
      fun v hv => ?_⟩
    · rw [hnone] at hv
      cases hv
    · rw [hp, reportFields, if_pos hon]
    · have hno : q.given? .oneline ≠ some (.flag true) := by
        rcases hoff with hoff | hoff <;> simp [hoff]
      rw [hp, reportFields, if_neg hno]
    · intro v hv
      simpa [hv] using hflag
    · rw [hp] at hv
      cases hv
      exact ⟨q.reportFields, rfl, q.nodup_reportFields, fun format hf => by simp [hnone] at hf⟩
  · -- an output format
    by_cases hb : q.backend = .genericV3
    · rw [outputFields_eq_none.2 hb, Option.map_none] at hp
      exact ⟨by simp [hp, hb, hformat], fun v hne => absurd hb hne,
        fun hnone => by simp [hformat] at hnone, fun v hv => by simp [hp] at hv⟩
    · rw [outputFields_eq_some hb, Option.map_some] at hp
      have hfirsts := firstsOf_selectedFields version4Names format
      refine ⟨by simp [hp, hb], fun v _ hv => ?_, fun hnone => by simp [hformat] at hnone,
        fun v hv => ?_⟩
      · rw [hformat] at hv
        cases hv
        exact ⟨format, _, rfl, hp, hfirsts⟩
      · rw [hp] at hv
        cases hv
        refine ⟨_, rfl, hfirsts.nodup, fun format' hf name hname => ?_⟩
        rw [hformat] at hf
        cases hf
        exact (hfirsts.mem _).2 (List.mem_map_of_mem hname)

/-- A one-line report, and a format that names the same field twice in different ways. -/
def reported : Query where
  backend := .genericV4
  options := SortedMap.ofList [("oneline", .flag true),
    ("outputformat", .text "%{blocked} %{bug_id} %{blockedby}")]
  files := .none

theorem compile_includeFields_reported :
    reported.compile.result = .ok (reported.compileOnto .empty).payload ∧
    (reported.compileOnto .empty).payload.get? "include_fields" = some (.list ["blocks", "id"]) ∧
    Placeholder.FirstsOf ((Placeholder.fields "%{blocked} %{bug_id} %{blockedby}").map
      version4Names.translate) ["blocks", "id"] := by
  have h : reported.compile.result = .ok (reported.compileOnto .empty).payload := by rfl
  have hvalue : (reported.compileOnto .empty).payload.get? "include_fields" =
      some (.list ["blocks", "id"]) := by decide +kernel
  obtain ⟨-, hformat, -, -⟩ := compile_includeFields h
  obtain ⟨format, fields, hv, hp, hfirsts⟩ := hformat _ (by decide) (by rfl)
  cases hv
  rw [hvalue] at hp
  cases hp
  exact ⟨h, hvalue, hfirsts⟩

end Query

end BugQuery
