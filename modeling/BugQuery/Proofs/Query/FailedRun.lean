import BugQuery.Proofs.Query.Restriction

/-!
# What a failed run leaves

A compilation that fails has either not begun, because a name is no option of
the backend, or it stopped at one option. In the first case the payload is
as it was. In the second it is what the options before that one, given
alone, compile to, and with success; nothing of the option itself is left,
however many of its entries were sound.

* `compileOnto_of_error`: both cases, for any payload to start from.
-/
namespace BugQuery.Query

/-- The options before `o`, by themselves, make the edit that was made before `o`. -/
theorem whole_before {q : Query} {before after : List SearchOption} {o : SearchOption}
    (h : q.backend.order = before ++ o :: after) {m : Numbering} {e : Edit}
    (he : q.editAll before {} = .ok (e, m)) : (q.before o).whole =
      .ok ((Edit.set includeFieldsKey (.list q.backend.defaultIncludeFields)).andThen e) := by
  have hrun : (q.before o).editAll (q.before o).backend.order {} = .ok (e, m) := editAll_before h he
  rw [whole, hrun]
  rfl

/-- A compilation that fails leaves the payload as it was, if some name is no option of the
backend, and else as the options before the failing one leave it by themselves. -/
theorem compileOnto_of_error (q : Query) (p : Payload) {x : QueryError}
    (h : (q.compileOnto p).result = .error x) :
    (∃ name ∈ q.options.keys, (∀ o ∈ q.backend.order, o.name ≠ name) ∧
      x = .unsupportedOption name q.backend.name ∧ (q.compileOnto p).payload = p) ∨
    (q.Supported ∧ ∃ o v, q.given? o = some v ∧ o ∈ q.backend.order ∧
      (q.compileOnto p).lastOption? = some o ∧
      ((q.before o).compileOnto p).result = .ok () ∧
      (q.compileOnto p).payload = ((q.before o).compileOnto p).payload) := by
  cases hu : q.unsupported? with
  | some name =>
    left
    obtain ⟨hmem, hno⟩ := exists_of_unsupported? hu
    rw [compileOnto_of_unsupported hu] at h ⊢
    cases h
    exact ⟨name, hmem, hno, rfl, rfl⟩
  | none =>
    right
    have hs := unsupported?_eq_none.1 hu
    obtain ⟨hresult, hpayload, hlast⟩ := compileOnto_of_supported hs p
    rw [hresult] at h
    obtain ⟨before, o, after, e, m, horder, he, ho, hp, hl⟩ := q.runFrom_of_error h
    obtain ⟨v, hv⟩ := given_of_editOf_error ho
    have hw := whole_before horder he
    have hbefore := supported_before hs o
    refine ⟨hs, o, v, hv, by rw [horder]; simp, hlast.trans hl, ?_, ?_⟩
    · rw [result_compileOnto hbefore, hw]
      rfl
    · rw [payload_compileOnto hbefore hw, hpayload, hp, Edit.apply_andThen, apply_set]
      rfl

/-- Its second flag does not read. -/
def halfFlagged : Query where
  backend := .extendedRolesV4
  options := SortedMap.ofList [("flag", .list ["a", "b &"]), ("product", .text "A")]
  files := .none

theorem compileOnto_of_error_halfFlagged :
    (halfFlagged.compileOnto .empty).result = .error (.malformedExpression "b &" .emptyTerm) ∧
    (halfFlagged.compileOnto .empty).payload =
      ((halfFlagged.before .flag).compileOnto .empty).payload := by
  have h : (halfFlagged.compileOnto .empty).result =
    .error (.malformedExpression "b &" .emptyTerm) := by rfl
  refine ⟨h, ?_⟩
  rcases compileOnto_of_error halfFlagged .empty h with
    ⟨_, _, _, hx, _⟩ | ⟨_, o, v, _, _, hl, _, hp⟩
  · cases hx
  · have hflag : (halfFlagged.compileOnto .empty).lastOption? = some .flag := by rfl
    rw [hflag] at hl
    cases hl
    exact hp

end BugQuery.Query
