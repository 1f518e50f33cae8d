import BugQuery.Proofs.Query.Ownership

/-!
# Compiling on top of a payload

Compiling on top of a payload lays one overlay over it: the payload that the
query compiles to by itself. Two keys may be taken away from below, the
condition on statuses by the alias of every status, and the returned fields
by an output format for a backend that cannot choose them. A key set before
it is cleared, or set anew later, makes no difference to this.

* `mem_cleared_editAll`: the keys that a run clears are those its options clear.
* `compileOnto_overlay`: what a look-up finds after compiling onto a payload, for every key;
  and compiling again changes nothing.
-/
namespace BugQuery

namespace Query

open FirstFailure

/-- The status option asks for bugs of every status. -/
def AnyStatus (q : Query) : Prop :=
  ∃ raw ∈ (q.given? .bugStatus).bind OptionValue.text?,
    String.ofList (Text.trim raw.toList) = "ALL"

/-- An output format is given to a backend that cannot choose the returned fields. -/
def WholeRecords (q : Query) : Prop :=
  q.backend = .genericV3 ∧ (q.given? .outputFormat).isSome = true

/-- The key is taken away from the payload that a query is compiled onto. -/
def Clears (q : Query) (k : String) : Prop :=
  k = "bug_status" ∧ q.AnyStatus ∨ k = includeFieldsKey ∧ q.WholeRecords

instance (q : Query) : Decidable q.AnyStatus := inferInstanceAs (Decidable (∃ raw ∈ _, _))

instance (q : Query) : Decidable q.WholeRecords := inferInstanceAs (Decidable (_ ∧ _))

instance (q : Query) : DecidablePred q.Clears := fun _ => inferInstanceAs (Decidable (_ ∨ _))

/-- The key is cleared by the edit of the option `o`. -/
def ClearedBy (q : Query) (k : String) (o : SearchOption) : Prop :=
  o = .bugStatus ∧ k = "bug_status" ∧ q.AnyStatus ∨
  o = .outputFormat ∧ k = includeFieldsKey ∧ q.WholeRecords

/-! ## What single edits clear -/

theorem translate_bugStatus (b : Backend) :
    b.fields.translate SearchOption.bugStatus.name = "bug_status" := by
  cases b <;> decide +kernel

theorem anyStatus_iff {q : Query} {raw : String} (h : q.given? .bugStatus = some (.text raw)) :
    q.AnyStatus ↔ q.backend.statuses.expand? raw = some .any := by
  rw [StatusTable.expand?_eq_any, AnyStatus, h]
  simp [OptionValue.text?, Backend.statuses, StatusTable.standard]

theorem mem_cleared_statusEdit {q : Query} {v : OptionValue} {e : Edit} {k : String}
    (hv : q.given? .bugStatus = some v) (h : q.statusEdit .bugStatus v = .ok e) :
    k ∈ e.cleared ↔ k = "bug_status" ∧ q.AnyStatus := by
  obtain ⟨raw, rfl, he⟩ := statusEdit_eq_ok h
  rw [anyStatus_iff hv]
  rcases he with ⟨hx, rfl⟩ | ⟨codes, hx, rfl⟩
  · simp [Edit.clear, hx, translate_bugStatus]
  · simp [Edit.set, hx]

theorem outputFields_eq_none {b : Backend} : b.outputFields = none ↔ b = .genericV3 := by
  cases b <;> simp [Backend.outputFields]

theorem mem_cleared_outputEdit_format {q : Query} {v : OptionValue} {e : Edit} {k : String}
    (hv : q.given? .outputFormat = some v) (h : q.outputEdit .outputFormat .format v = .ok e) :
    k ∈ e.cleared ↔ k = includeFieldsKey ∧ q.WholeRecords := by
  obtain ⟨format, rfl, he⟩ := outputEdit_format_eq_ok h
  have hw : q.WholeRecords ↔ q.backend.outputFields = none := by
    simp [WholeRecords, hv, outputFields_eq_none]
  rw [hw]
  rcases he with ⟨hx, rfl⟩ | ⟨aliases, hx, rfl⟩
  · simp [Edit.clear, hx]
  · simp [Edit.set, hx]

theorem mem_cleared_editOf {q : Query} {o : SearchOption} {n m : Numbering} {e : Edit} {k : String}
    (ho : o ∈ q.backend.order) (h : q.editOf o n = .ok (e, m)) :
    k ∈ e.cleared ↔ q.ClearedBy k o := by
  by_cases hs : o = .bugStatus
  · subst hs
    cases hv : q.given? .bugStatus with
    | none =>
      rw [editOf_of_not_given hv] at h
      cases h
      simp [Edit.none, ClearedBy, AnyStatus, hv]
    | some v =>
      rw [editOf_of_given hv] at h
      obtain ⟨e', h', he⟩ := map_eq_ok.1 h
      cases he
      simp [mem_cleared_statusEdit hv h', ClearedBy]
  · by_cases hf : o = .outputFormat
    · subst hf
      cases hv : q.given? .outputFormat with
      | none =>
        rw [editOf_of_not_given hv] at h
        cases h
        simp [Edit.none, ClearedBy, WholeRecords, hv]
      | some v =>
        rw [editOf_of_given hv] at h
        obtain ⟨e', h', he⟩ := map_eq_ok.1 h
        cases he
        simp [mem_cleared_outputEdit_format hv h', ClearedBy]
    · simp [(made_of_editOf ho h).cleared hs hf, ClearedBy, hs, hf]

/-! ## What runs clear -/

theorem mem_cleared_editAll (q : Query) (k : String) : ∀ {os : List SearchOption}
    {n m : Numbering} {e : Edit}, (∀ o ∈ os, o ∈ q.backend.order) → q.editAll os n = .ok (e, m) →
    (k ∈ e.cleared ↔ ∃ o ∈ os, q.ClearedBy k o)
  | [], n, m, e, _, h => by
    cases h
    simp [Edit.none]
  | o :: os, n, m, e, hos, h => by
    obtain ⟨f, l, g, ho, hr, rfl⟩ := editAll_cons_eq_ok.1 h
    have hrest := mem_cleared_editAll q k (fun a ha => hos a (by simp [ha])) hr
    rw [Edit.andThen, List.mem_append, mem_cleared_editOf (hos o (by simp)) ho, hrest]
    simp

theorem mem_order_bugStatus (b : Backend) : SearchOption.bugStatus ∈ b.order := by
  cases b <;> decide

theorem mem_order_outputFormat (b : Backend) : SearchOption.outputFormat ∈ b.order := by
  cases b <;> decide

theorem mem_cleared_whole {q : Query} {e : Edit} (h : q.whole = .ok e) (k : String) :
    k ∈ e.cleared ↔ q.Clears k := by
  obtain ⟨⟨f, m⟩, hf, rfl⟩ := map_eq_ok.1 h
  rw [Edit.andThen, List.mem_append, q.mem_cleared_editAll k (fun _ ho => ho) hf]
  simp only [Edit.set, List.not_mem_nil, false_or, ClearedBy, Clears]
  constructor
  · intro hex
    obtain ⟨o, -, ⟨-, hk, ha⟩ | ⟨-, hk, hw⟩⟩ := hex
    · exact .inl ⟨hk, ha⟩
    · exact .inr ⟨hk, hw⟩
  · intro hcases
    rcases hcases with ⟨hk, ha⟩ | ⟨hk, hw⟩
    · exact ⟨.bugStatus, mem_order_bugStatus _, .inl ⟨rfl, hk, ha⟩⟩
    · exact ⟨.outputFormat, mem_order_outputFormat _, .inr ⟨rfl, hk, hw⟩⟩

theorem compile_eq_ok {q : Query} {c : Payload} :
    q.compile.result = .ok c ↔ q.Supported ∧ ∃ e, q.whole = .ok e ∧ c = e.entries := by
  rw [result_compile]
  cases hu : q.unsupported? with
  | some name =>
    have hs : ¬ q.Supported := fun hs => by
      rw [unsupported?_eq_none.2 hs] at hu
      cases hu
    rw [compileOnto_of_unsupported hu]
    simp [hs]
  | none =>
    have hs := unsupported?_eq_none.1 hu
    rw [result_compileOnto hs]
    cases hw : q.whole with
    | error x => simp [Except.map]
    | ok e =>
      rw [payload_compileOnto hs hw, Edit.apply_empty]
      simp [Except.map, hs, eq_comm]

/-- How a compilation ends does not depend on the payload below. -/
theorem result_compileOnto_eq (q : Query) (p : Payload) :
    (q.compileOnto p).result = q.compile.result.map fun _ => () := by
  rw [result_compile]
  cases hu : q.unsupported? with
  | some name => rw [compileOnto_of_unsupported hu, compileOnto_of_unsupported hu]; rfl
  | none =>
    have hs := unsupported?_eq_none.1 hu
    rw [result_compileOnto hs, result_compileOnto hs]
    cases q.whole <;> rfl

theorem get?_compileOnto {q : Query} {c : Payload} (h : q.compile.result = .ok c) (p : Payload)
    (k : String) : (q.compileOnto p).payload.get? k =
      (c.get? k).or (if q.Clears k then none else p.get? k) := by
  obtain ⟨hs, e, he, rfl⟩ := compile_eq_ok.1 h
  rw [payload_compileOnto hs he, Edit.get?_apply]
  simp only [mem_cleared_whole he]

/-- Compiling onto a payload ends as compiling by itself does. If it succeeds, the keys of the
query's own payload are laid over the payload below, less the keys that options take away;
doing so a second time succeeds and changes nothing. -/
theorem compileOnto_overlay (q : Query) (p : Payload) :
    (q.compileOnto p).result = q.compile.result.map (fun _ => ()) ∧
    ∀ c, q.compile.result = .ok c →
      (∀ k, (q.compileOnto p).payload.get? k =
        (c.get? k).or (if q.Clears k then none else p.get? k)) ∧
      (q.compileOnto (q.compileOnto p).payload).result = .ok () ∧
      (q.compileOnto (q.compileOnto p).payload).payload = (q.compileOnto p).payload := by
  refine ⟨q.result_compileOnto_eq p, fun c h => ⟨get?_compileOnto h p, ?_, ?_⟩⟩
  · rw [result_compileOnto_eq, h]
    rfl
  · refine SortedMap.ext_get? fun k => ?_
    rw [get?_compileOnto h, get?_compileOnto h p k]
    -- what is laid on top, or taken away, is so in both layers
    cases c.get? k with
    | some x => rfl
    | none => by_cases hk : q.Clears k <;> simp [hk]

end Query

end BugQuery
