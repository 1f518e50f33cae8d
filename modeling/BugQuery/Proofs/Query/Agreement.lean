import BugQuery.Proofs.Query.CommonOptions
import BugQuery.Proofs.Query.Provenance
import BugQuery.Proofs.Query.ReturnedFields

/-!
# How payloads for the backends are related

Options that every backend takes compile for all backends or for none. The
payloads differ in two ways only: one backend cannot choose the returned
fields, and one writes the addresses of roles under running numbers.

* `genericV3_eq`: the payload of version 3 from that of version 4.
* `extended_eq`: the payload with extended roles from that without.
* `compile_backends`: how the compilations of the same options are related.
-/
namespace BugQuery

open FirstFailure

namespace Query

/-! ## No choice of fields -/

theorem touches_outputFormat {q : Query} {b : Backend} {n m : Numbering} {e : Edit}
    (he : (q.on b).editOf .outputFormat n = .ok (e, m)) :
    e.Touches fun k => k = includeFieldsKey ∧ (q.given? .outputFormat).isSome = true := by
  cases hv : q.given? .outputFormat with
  | none =>
    rw [editOf_of_not_given (q := q.on b) hv] at he
    cases he
    exact Edit.touches_none _
  | some v =>
    have ho : SearchOption.outputFormat ∈ b.order := mem_order_outputFormat b
    exact (touches_of_ownsKeys (q := q.on b) ho rfl he).1.mono fun k hk =>
      ⟨List.mem_singleton.1 hk, rfl⟩

/-- An output format is the only thing in which the backends of versions 3 and 4 differ. -/
theorem get?_genericV3 {q : Query} {p₃ p₄ : Payload} (hq : q.Common)
    (h₃ : (q.on .genericV3).compile.result = .ok p₃)
    (h₄ : (q.on .genericV4).compile.result = .ok p₄) {k : String}
    (hk : ¬ (k = includeFieldsKey ∧ (q.given? .outputFormat).isSome = true)) :
    p₃.get? k = p₄.get? k := by
  refine get?_on (K := fun k => k = includeFieldsKey ∧ (q.given? .outputFormat).isSome = true)
    hq h₃ h₄ ?_ hk
  intro o ho n n' m m' e f he hf
  by_cases hout : o = .outputFormat
  · subst hout
    exact (touches_outputFormat he).agreeOff (touches_outputFormat hf)
  · rw [eq_of_editOf_on ho (fun _ => ⟨rfl, rfl⟩) (fun h => absurd h hout) he hf]
    exact .refl _ _

/-- With an output format version 3 returns whole records: it cannot choose, so the format clears
the returned fields. -/
theorem get?_includeFields_genericV3 {q : Query} {p : Payload} {v : OptionValue}
    (h : (q.on .genericV3).compile.result = .ok p) (hv : q.given? .outputFormat = some v) :
    p.get? includeFieldsKey = none := by
  obtain ⟨-, ⟨hnone, -⟩ | ⟨format, -, hp⟩⟩ := returned_cases h
  · exact absurd (hv.symm.trans hnone) (by simp)
  · exact hp

theorem genericV3_eq {q : Query} {p₃ p₄ : Payload} (hq : q.Common)
    (h₃ : (q.on .genericV3).compile.result = .ok p₃)
    (h₄ : (q.on .genericV4).compile.result = .ok p₄) :
    p₃ = if (q.given? .outputFormat).isSome = true then p₄.erase includeFieldsKey else p₄ := by
  refine SortedMap.ext_get? fun k => ?_
  cases hv : q.given? .outputFormat with
  | none => exact get?_genericV3 hq h₃ h₄ (by simp [hv])
  | some v =>
    simp only [Option.isSome_some, if_true, SortedMap.get?_erase]
    by_cases hk : includeFieldsKey = k
    · rw [if_pos hk, ← hk]
      exact get?_includeFields_genericV3 h₃ hv
    · rw [if_neg hk]
      exact get?_genericV3 hq h₃ h₄ fun h => hk h.1.symm

/-! ## Numbered addresses -/

/-- The edit that writes the addresses of roles under running numbers, instead of their names. -/
def renumbered (q : Query) : Edit where
  entries := SortedMap.ofList (addressEntries defaultMatch 1 q.addresses)
  cleared := roleOptions.map SearchOption.name

theorem get?_renumbered (q : Query) (p : Payload) (k : String) : (q.renumbered.apply p).get? k =
    (q.renumbered.entries.get? k).or
      (if k ∈ roleOptions.map SearchOption.name then none else p.get? k) :=
  Edit.get?_apply _ p k

theorem renumbered_eq_none {q : Query} {k : String}
    (hk : ¬ (HasEmailStem k ∨ k = advancedMark.1)) : q.renumbered.entries.get? k = none :=
  Option.eq_none_iff_forall_ne_some.2 fun _ hx =>
    hk (hasEmailStem_or_mark_of_mem (Edit.mem_of_get?_setAll hx))

/-- The key is one that an address can have for some backend. -/
def RoleKey (k : String) : Prop :=
  k ∈ roleOptions.map SearchOption.name ∨ HasEmailStem k ∨ k = advancedMark.1

theorem touches_roleKey {q : Query} {o : SearchOption} {n m : Numbering} {e : Edit}
    (ho : o ∈ q.backend.order) (hh : o.handling = .email) (he : q.editOf o n = .ok (e, m)) :
    e.Touches RoleKey := by
  have hcleared : e.cleared = [] := by
    refine (made_of_editOf ho he).cleared ?_ ?_
    · rintro rfl
      cases hh
    · rintro rfl
      cases hh
  refine ⟨fun k x hx => ?_, fun k hk => by rw [hcleared] at hk; cases hk⟩
  cases made_of_editOf ho he with
  | absent hv => cases hx
  | fixed hv hm hkeys _ =>
    have hname : ∀ b : Backend, ∀ o ∈ roleOptions, ∀ k ∈ b.fixedKeys o,
        k ∈ roleOptions.map SearchOption.name := by
      intro b
      cases b <;> decide +kernel
    exact .inl (hname _ o (mem_roleOptions.2 hh) k (hkeys k x hx))
  | address hv _ hs hw hm =>
    exact .inr ((mem_keys_indexedRole (Edit.mem_of_get?_setAll hx)).imp_left
      hasEmailStem_of_mem_addressKeys)
  | charts hv hchart hraws hm hes =>
    rw [hh] at hchart
    cases hchart

section

variable {q : Query} {p₄ pₑ : Payload}

theorem get?_extended (hq : q.Common) (hₑ : (q.on .extendedRolesV4).compile.result = .ok pₑ)
    (h₄ : (q.on .genericV4).compile.result = .ok p₄) {k : String} (hk : ¬ RoleKey k) :
    pₑ.get? k = p₄.get? k := by
  refine get?_on hq hₑ h₄ ?_ hk
  intro o ho n n' m m' e f he hf
  by_cases hh : o.handling = .email
  · exact (touches_roleKey (Backend.mem_order_of_mem_plainOrder ho) hh he).agreeOff
      (touches_roleKey (Backend.mem_order_of_mem_plainOrder ho) hh hf)
  · rw [eq_of_editOf_on (b := .extendedRolesV4) (c := .genericV4) ho (fun h => absurd h hh)
      (fun _ => rfl) he hf]
    exact .refl _ _

/-- Without running numbers, nothing is set but names of roles. -/
theorem get?_genericV4_eq_none (h₄ : (q.on .genericV4).compile.result = .ok p₄) {k : String}
    (hk : HasEmailStem k ∨ k = advancedMark.1) : p₄.get? k = none := by
  refine Option.eq_none_iff_forall_ne_some.2 fun x hx => ?_
  cases family_of_compile h₄ hx with
  | returned hreturned =>
    subst hreturned
    exact absurd hk (by decide)
  | owned ho _ hmem =>
    rcases hk with hk | rfl
    · exact Backend.not_hasEmailStem_fixedKeys ho hmem hk
    · exact Backend.mark_not_mem_fixedKeys ho hmem
  | mark hb _ => cases hb
  | address hb _ => cases hb
  | chart hb _ => cases hb

/-- With running numbers, no role has its name as a key. -/
theorem get?_extended_role (hₑ : (q.on .extendedRolesV4).compile.result = .ok pₑ) {k : String}
    (hk : k ∈ roleOptions.map SearchOption.name) : pₑ.get? k = none := by
  have hfree : ∀ k ∈ roleOptions.map SearchOption.name, k ≠ includeFieldsKey ∧
      (∀ o ∈ Backend.extendedRolesV4.order, k ∉ Backend.extendedRolesV4.fixedKeys o) ∧
      k ≠ advancedMark.1 ∧ ¬ HasEmailStem k ∧ ¬ Chart.HasStem k := by decide +kernel
  obtain ⟨hreturned, howned, hmark, haddress, hchart⟩ := hfree k hk
  refine Option.eq_none_iff_forall_ne_some.2 fun x hx => ?_
  cases family_of_compile hₑ hx with
  | returned h => exact hreturned h
  | owned ho _ h => exact howned _ ho h
  | mark _ h => exact hmark h
  | address _ h => exact haddress h
  | chart _ h => exact hchart h

theorem matchType_on (hq : q.Common) (b : Backend) : (q.on b).matchType = defaultMatch := by
  have hm : q.given? .emailType = none := not_given_of_common hq (by decide)
  rw [matchType, given?_on, hm]
  rfl

theorem get?_extended_address (hq : q.Common)
    (hₑ : (q.on .extendedRolesV4).compile.result = .ok pₑ) {k : String} (hk : HasEmailStem k) :
    pₑ.get? k = q.renumbered.entries.get? k := by
  obtain ⟨m, ha⟩ := exists_addressed rfl hₑ
  rw [ha.held k hk, filterMap_addressOf?_order rfl, matchType_on hq]
  rfl

/-- Where all is given that has an address, there are addresses if a role is given. -/
theorem addresses_eq_nil_iff (hₑ : (q.on .extendedRolesV4).compile.result = .ok pₑ) :
    q.addresses = [] ↔ ∀ o ∈ roleOptions, q.given? o = none := by
  obtain ⟨m, ha⟩ := exists_addressed rfl hₑ
  constructor
  · intro hnil o ho
    refine Option.eq_none_iff_forall_ne_some.2 fun v hv => ?_
    have horder : o ∈ (q.on .extendedRolesV4).backend.order :=
      Backend.mem_order_of_email (mem_roleOptions.1 ho)
    have hgives : (q.on .extendedRolesV4).GivesAddress o :=
      ⟨mem_roleOptions.1 ho, Option.isSome_of_eq_some hv⟩
    obtain ⟨x, hx⟩ := Option.isSome_iff_exists.1 (ha.given o horder hgives)
    have hmem : x ∈ (q.on .extendedRolesV4).addresses := by
      rw [← filterMap_addressOf?_order rfl]
      exact List.mem_filterMap.2 ⟨o, horder, hx⟩
    rw [show (q.on .extendedRolesV4).addresses = q.addresses from rfl, hnil] at hmem
    cases hmem
  · intro hnone
    refine List.eq_nil_iff_forall_not_mem.2 fun x hx => ?_
    obtain ⟨o, ho, -, hv⟩ := given_of_mem_addresses hx
    rw [hnone o ho] at hv
    cases hv

/-- No common option gives charts. -/
theorem flatMap_chartsOf_of_common (hq : q.Common) :
    q.backend.order.flatMap q.chartsOf = [] := by
  refine List.flatMap_eq_nil_iff.2 fun o _ => ?_
  by_cases ho : o ∈ Backend.plainOrder
  · unfold chartsOf
    split
    · rename_i hh
      have hown := Backend.handling_of_mem_plainOrder ho
      simp [hh, Handling.ownsKeys] at hown
    · rfl
  · exact chartsOf_of_not_given (not_given_of_common hq ho)

theorem exists_givesAddress_iff (hₑ : (q.on .extendedRolesV4).compile.result = .ok pₑ) :
    (∃ o ∈ Backend.extendedRolesV4.order, (q.on .extendedRolesV4).GivesAddress o) ↔
      q.addresses ≠ [] := by
  constructor
  · intro hex hnil
    obtain ⟨o, -, hh, hgiven⟩ := hex
    have hnone := (addresses_eq_nil_iff hₑ).1 hnil o (mem_roleOptions.2 hh)
    rw [given?_on, hnone] at hgiven
    cases hgiven
  · intro hne
    obtain ⟨x, hx⟩ := List.exists_mem_of_ne_nil _ hne
    obtain ⟨o, ho, -, hv⟩ := given_of_mem_addresses hx
    exact ⟨o, Backend.mem_order_of_email (mem_roleOptions.1 ho), mem_roleOptions.1 ho,
      Option.isSome_of_eq_some hv⟩

theorem get?_extended_mark (hq : q.Common)
    (hₑ : (q.on .extendedRolesV4).compile.result = .ok pₑ) :
    pₑ.get? advancedMark.1 = q.renumbered.entries.get? advancedMark.1 := by
  obtain ⟨es, m, hes⟩ := exists_charted rfl hₑ
  have hread := hes.read
  rw [flatMap_chartsOf_of_common (q := q.on .extendedRolesV4) hq] at hread
  cases hread
  have hmark := hes.mark
  simp only [backend_on, exists_givesAddress_iff hₑ] at hmark
  rw [hmark, renumbered, get?_mark_addressEntries]
  by_cases hnil : q.addresses = [] <;> simp [hnil]

/-- The addresses of roles are all in which the two backends of version 4 differ. -/
theorem extended_eq (hq : q.Common) (hₑ : (q.on .extendedRolesV4).compile.result = .ok pₑ)
    (h₄ : (q.on .genericV4).compile.result = .ok p₄) : pₑ = q.renumbered.apply p₄ := by
  refine SortedMap.ext_get? fun k => ?_
  rw [get?_renumbered]
  by_cases hk : HasEmailStem k ∨ k = advancedMark.1
  · rw [get?_genericV4_eq_none h₄ hk, ite_self, Option.or_none]
    rcases hk with hk | rfl
    · exact get?_extended_address hq hₑ hk
    · exact get?_extended_mark hq hₑ
  · rw [renumbered_eq_none hk, Option.none_or]
    by_cases hname : k ∈ roleOptions.map SearchOption.name
    · rw [if_pos hname]
      exact get?_extended_role hₑ hname
    · rw [if_neg hname]
      exact get?_extended hq hₑ h₄ fun h => h.elim hname hk

theorem entries_renumbered_eq_empty_iff
    (hₑ : (q.on .extendedRolesV4).compile.result = .ok pₑ) :
    q.renumbered.entries = SortedMap.empty ↔ ∀ o ∈ roleOptions, q.given? o = none := by
  rw [← addresses_eq_nil_iff hₑ]
  constructor
  · intro hempty
    refine Decidable.not_not.1 fun hne => ?_
    have hmark : q.renumbered.entries.get? advancedMark.1 = some advancedMark.2 := by
      rw [renumbered, get?_mark_addressEntries, if_neg hne]
    rw [hempty] at hmark
    cases hmark
  · intro hnil
    rw [renumbered, hnil]
    rfl

end

/-- Options that all backends take compile for each of them, or fail for each with the same error
but for the name of the backend. Where they compile, the payload of version 3 is that of version 4,
less the returned fields if there is an output format. With extended roles, the payload of version
4 loses the names of roles and gains numbered addresses and the mark, under keys that were free;
it gains something just if a role is given. -/
theorem compile_backends {q : Query} (hq : q.Common) :
    (∃ x : QueryError, ∀ b, (q.on b).compile.result = .error (x.forBackend b.name)) ∨
    ∃ p₃ p₄ pₑ, (q.on .genericV3).compile.result = .ok p₃ ∧
      (q.on .genericV4).compile.result = .ok p₄ ∧
      (q.on .extendedRolesV4).compile.result = .ok pₑ ∧
      p₃ = (if (q.given? .outputFormat).isSome = true then p₄.erase "include_fields" else p₄) ∧
      pₑ = q.renumbered.apply p₄ ∧
      (∀ k v, q.renumbered.entries.get? k = some v → p₄.get? k = none) ∧
      (q.renumbered.entries = SortedMap.empty ↔ ∀ o ∈ roleOptions, q.given? o = none) ∧
      pₑ.get? "query_format" =
        if ∀ o ∈ roleOptions, q.given? o = none then none else some (.text "advanced") := by
  have hsame := result_compile_on hq
  cases h₄ : (q.on .genericV4).compile.result with
  | error x =>
    refine .inl ⟨x, fun b => ?_⟩
    have hb := hsame b .genericV4
    rw [h₄] at hb
    exact map_eq_error.1 hb
  | ok p₄ =>
    have hok : ∀ b, ∃ p, (q.on b).compile.result = .ok p := by
      intro b
      have hb := hsame b .genericV4
      rw [h₄] at hb
      obtain ⟨p, hp, -⟩ := map_eq_ok.1 hb
      exact ⟨p, hp⟩
    obtain ⟨p₃, h₃⟩ := hok .genericV3
    obtain ⟨pₑ, hₑ⟩ := hok .extendedRolesV4
    refine .inr ⟨p₃, p₄, pₑ, h₃, rfl, hₑ, genericV3_eq hq h₃ h₄, extended_eq hq hₑ h₄, ?_,
      entries_renumbered_eq_empty_iff hₑ, ?_⟩
    · intro k v hk
      exact get?_genericV4_eq_none h₄ (hasEmailStem_or_mark_of_mem (Edit.mem_of_get?_setAll hk))
    · have hmark := get?_extended_mark hq hₑ
      rw [renumbered, get?_mark_addressEntries] at hmark
      rw [show "query_format" = advancedMark.1 from rfl, hmark]
      simp only [addresses_eq_nil_iff hₑ]
      rfl

/-- Someone on copy, and an output format. -/
def copied : Query where
  backend := .genericV4
  options := SortedMap.ofList [("cc", .text "a@example.com"), ("outputformat", .text "%{bug_id}"),
    ("product", .text "Fedora")]
  files := .none

theorem compile_backends_copied : copied.Common ∧ ∃ p₃ p₄ pₑ,
    (copied.on .genericV3).compile.result = .ok p₃ ∧
    (copied.on .genericV4).compile.result = .ok p₄ ∧
    (copied.on .extendedRolesV4).compile.result = .ok pₑ ∧
    p₃ = p₄.erase "include_fields" ∧ pₑ = copied.renumbered.apply p₄ ∧
    pₑ.get? "query_format" = some (.text "advanced") := by
  have hq : copied.Common := by decide +kernel
  have h₄ : (copied.on .genericV4).compile.result =
      .ok ((copied.on .genericV4).compileOnto .empty).payload := by rfl
  refine ⟨hq, ?_⟩
  rcases compile_backends hq with ⟨x, hx⟩ | ⟨p₃, p₄, pₑ, h₃, h₄', hₑ, hv3, hext, -, -, hmark⟩
  · rw [hx] at h₄
    cases h₄
  · exact ⟨p₃, p₄, pₑ, h₃, h₄', hₑ, hv3, hext, hmark⟩

end Query

end BugQuery
