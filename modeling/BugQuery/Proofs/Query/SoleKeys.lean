import BugQuery.Proofs.Query.Provenance

/-!
# Keys of one option

A key without a number is changed by no option but those that have it among
their fixed keys. Where one option alone has the key, what a run makes of it
is what the edit of that option does, as if there were no other.

* `get?_apply_of_not_fixed`: the edit of any other option leaves the key.
* `get?_compileOnto_of_sole`: what a whole compilation makes of the key.
-/
namespace BugQuery

open FirstFailure

/-- The key belongs to no chart and to no numbered address, and is not their mark. -/
def Unnumbered (k : String) : Prop :=
  k ≠ Query.advancedMark.1 ∧ ¬ Chart.HasStem k ∧ ¬ HasEmailStem k

instance : DecidablePred Unnumbered := fun _ => inferInstanceAs (Decidable (_ ∧ _))

/-- No other option of the backend has the key among its fixed keys. -/
def Backend.Sole (b : Backend) (o : SearchOption) (k : String) : Prop :=
  ∀ a ∈ b.order, k ∈ b.fixedKeys a → a = o

instance (b : Backend) (o : SearchOption) (k : String) : Decidable (b.Sole o k) :=
  inferInstanceAs (Decidable (∀ _ ∈ _, _))

namespace Query

variable {q : Query} {o : SearchOption} {k : String}

theorem get?_apply_of_not_fixed {n m : Numbering} {e : Edit} (hk : Unnumbered k)
    (ho : o ∈ q.backend.order) (hfixed : k ∉ q.backend.fixedKeys o)
    (he : q.editOf o n = .ok (e, m)) (p : Payload) : (e.apply p).get? k = p.get? k := by
  obtain ⟨hmark, hstem, hemail⟩ := hk
  have hcleared : k ∉ e.cleared := fun hmem =>
    hfixed (mem_fixedKeys_of_clearedBy ((mem_cleared_editOf ho he).1 hmem))
  have hfree : e.entries.get? k = none := by
    refine Option.eq_none_iff_forall_ne_some.2 fun x hx => ?_
    cases made_of_editOf ho he with
    | absent hv => cases hx
    | fixed hv hm hkeys _ => exact hfixed (hkeys _ x hx)
    | address hv _ hs hw hm =>
      rcases mem_keys_indexedRole (Edit.mem_of_get?_setAll hx) with hk | hk
      · exact hemail (hasEmailStem_of_mem_addressKeys hk)
      · exact hmark hk
    | charts hv hchart hraws hm hes =>
      rw [get?_chartsEdit, if_neg fun h => hmark h.1] at hx
      obtain ⟨s, -, -, -, -, rfl, -⟩ := Chart.get?_ofList_entriesFrom.1 hx
      exact hstem s.hasStem_key
  rw [Edit.get?_apply, if_neg hcleared, hfree, Option.none_or]

theorem get?_apply_editAll_of_not_fixed (hk : Unnumbered k) : ∀ {os : List SearchOption}
    {n m : Numbering} {e : Edit}, (∀ o ∈ os, o ∈ q.backend.order ∧ k ∉ q.backend.fixedKeys o) →
    q.editAll os n = .ok (e, m) → ∀ p : Payload, (e.apply p).get? k = p.get? k
  | [], n, m, e, _, he, p => by
    cases he
    rw [Edit.apply_none]
  | o :: os, n, m, e, hos, he, p => by
    obtain ⟨f, l, g, ho, hrest, rfl⟩ := editAll_cons_eq_ok.1 he
    obtain ⟨hmem, hfixed⟩ := hos o (by simp)
    rw [Edit.apply_andThen,
      get?_apply_editAll_of_not_fixed hk (fun a ha => hos a (by simp [ha])) hrest,
      get?_apply_of_not_fixed hk hmem hfixed ho]

/-- What a run makes of a key that one option has, the edit of that option does alone. -/
theorem get?_apply_editAll_of_sole {m : Numbering} {e : Edit} (ho : o ∈ q.backend.order)
    (hk : Unnumbered k) (hsole : q.backend.Sole o k)
    (he : q.editAll q.backend.order {} = .ok (e, m)) :
    ∃ f l l', q.editOf o l = .ok (f, l') ∧ ∀ p : Payload, (e.apply p).get? k = (f.apply p).get? k := by
  obtain ⟨before, after, hsplit⟩ := List.append_of_mem ho
  have hnodup := nodup_order q.backend
  rw [hsplit] at hnodup he
  have hother : ∀ a ∈ q.backend.order, a ≠ o →
      a ∈ q.backend.order ∧ k ∉ q.backend.fixedKeys a := fun a ha hne =>
    ⟨ha, fun hmem => hne (hsole a ha hmem)⟩
  obtain ⟨hbefore, hafter, hdisjoint⟩ := List.nodup_append.1 hnodup
  obtain ⟨f₁, l, _, he₁, hrest, rfl⟩ := (editAll_append_eq_ok _).1 he
  obtain ⟨f, l', f₂, hf, he₂, rfl⟩ := editAll_cons_eq_ok.1 hrest
  refine ⟨f, l, l', hf, fun p => ?_⟩
  have hfirst := get?_apply_editAll_of_not_fixed hk (fun a ha => hother a (by simp [hsplit, ha])
    (hdisjoint a ha o (by simp))) he₁ p
  have hlast := get?_apply_editAll_of_not_fixed hk (fun a ha => hother a (by simp [hsplit, ha])
    (fun hao => (List.nodup_cons.1 hafter).1 (hao ▸ ha))) he₂
  rw [Edit.apply_andThen, Edit.apply_andThen, hlast, Edit.get?_apply, hfirst, ← Edit.get?_apply]

theorem get?_compileOnto_of_sole {p : Payload} (ho : o ∈ q.backend.order) (hk : Unnumbered k)
    (hsole : q.backend.Sole o k) (hreturned : includeFieldsKey ≠ k)
    (h : (q.compileOnto p).result = .ok ()) :
    ∃ e n m, q.editOf o n = .ok (e, m) ∧
      (q.compileOnto p).payload.get? k = (e.apply p).get? k := by
  have hs : q.Supported := by
    refine unsupported?_eq_none.1 ?_
    cases hu : q.unsupported? with
    | none => rfl
    | some name =>
      rw [compileOnto_of_unsupported hu] at h
      cases h
  obtain ⟨hresult, hpayload, -⟩ := compileOnto_of_supported hs p
  rw [hresult, result_runFrom] at h
  obtain ⟨⟨e, m⟩, he, -⟩ := map_eq_ok.1 h
  obtain ⟨f, l, l', hf, hget⟩ := get?_apply_editAll_of_sole ho hk hsole he
  refine ⟨f, l, l', hf, ?_⟩
  rw [hpayload, q.payload_runFrom he, hget, Edit.get?_apply, Edit.get?_apply,
    q.get?_initial_of_ne hreturned]

end Query

end BugQuery
