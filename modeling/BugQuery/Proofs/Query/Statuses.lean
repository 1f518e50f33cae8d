import BugQuery.Proofs.Query.Spelling
import BugQuery.Proofs.Query.IdleOptions

/-!
# Statuses and the ids that the same text lists

A status value and an id value are both comma lists, read in different ways.
A status value is trimmed as a whole first, since it may be an alias; where it
is none, its codes are the ids that the same text lists. A text that lists
nothing is no mistake as ids, but it is one as statuses.

* `expand?_of_mem_groups`, `expand?_of_not_alias`: an alias stands for its codes, any other text
  for those that it lists.
* `result_compile_ids`, `result_compile_status`: both options, compiled alone.
* `StatusRead`, `compile_status`: what a status value compiles to, next to the same text as ids.
-/
namespace BugQuery

open FirstFailure

namespace StatusTable

variable {t : StatusTable} {raw : String}

/-- The value that counts: an alias has to be all of it. -/
def trimmed (raw : String) : String := String.ofList (Text.trim raw.toList)

/-- A comma list may be trimmed before it is cut. -/
theorem literals_trim (s : List Char) : literals (Text.trim s) = literals s := by
  rw [literals, literals, Text.entries_trim (by decide)]

theorem expand?_of_mem_groups (ht : t.aliases.Nodup) {codes : List String}
    (h : (trimmed raw, codes) ∈ t.groups) : t.expand? raw = some (.codes codes) := by
  obtain ⟨hany, hgroups⟩ := List.nodup_cons.1 ht
  have hne : trimmed raw ≠ t.anyAlias := fun he =>
    hany (he ▸ List.mem_map_of_mem (f := Prod.fst) h)
  obtain ⟨before, after, hsplit⟩ := List.append_of_mem h
  rw [hsplit, List.map_append, List.map_cons] at hgroups
  have hlookup : t.groups.lookup (trimmed raw) = some codes := by
    refine List.lookup_eq_some_iff.2 ⟨before, after, hsplit, fun p hp => bne_iff_ne.2 fun he => ?_⟩
    exact (List.nodup_append.1 hgroups).2.2 p.1 (List.mem_map_of_mem hp) _ (by simp) he.symm
  unfold expand?
  dsimp only
  rw [← trimmed, if_neg hne, hlookup]

theorem expand?_of_not_alias (h : trimmed raw ∉ t.aliases) :
    t.expand? raw =
      if literals raw.toList = [] then none else some (.codes (literals raw.toList)) := by
  obtain ⟨hne, hgroups⟩ := not_or.1 (mt List.mem_cons.2 h)
  have hlookup : t.groups.lookup (trimmed raw) = none :=
    List.lookup_eq_none_iff.2 fun p hp => bne_iff_ne.2 fun he =>
      hgroups (he ▸ List.mem_map_of_mem hp)
  unfold expand?
  dsimp only
  rw [← trimmed, if_neg hne, hlookup, literals_trim]
  cases literals raw.toList <;> rfl

theorem nodup_aliases_standard : standard.aliases.Nodup := by decide

/-- Read as a comma list, no alias is empty. -/
theorem literals_ne_nil_of_alias (h : trimmed raw ∈ standard.aliases) :
    literals raw.toList ≠ [] := by
  have hall : ∀ a ∈ standard.aliases, literals a.toList ≠ [] := by decide
  have := hall _ h
  rwa [trimmed, String.toList_ofList, literals_trim] at this

/-- A value means nothing just if it lists nothing. -/
theorem expand?_standard_eq_none : standard.expand? raw = none ↔ literals raw.toList = [] := by
  by_cases h : trimmed raw ∈ standard.aliases
  · refine iff_of_false (fun hnone => ?_) (literals_ne_nil_of_alias h)
    obtain hany | hgroup := List.mem_cons.1 h
    · rw [expand?_eq_any.2 hany] at hnone
      cases hnone
    · obtain ⟨⟨name, codes⟩, hmem, hname⟩ := List.mem_map.1 hgroup
      obtain rfl : name = trimmed raw := hname
      rw [expand?_of_mem_groups nodup_aliases_standard hmem] at hnone
      cases hnone
  · rw [expand?_of_not_alias h]
    by_cases hnil : literals raw.toList = [] <;> simp [hnil]

end StatusTable

namespace Query

theorem editOf_bugStatus {q : Query} {raw : String} (hv : q.given? .bugStatus = some (.text raw))
    (n : Numbering) : q.editOf .bugStatus n =
      match q.backend.statuses.expand? raw with
      | some .any => .ok (.clear "bug_status", n)
      | some (.codes codes) => .ok (.set "bug_status" (.list codes), n)
      | none => .error (.unsupportedOption ("bug_status='" ++ raw ++ "'") q.backend.name) := by
  have hw : q.backend.wireName SearchOption.bugStatus.name = .ok "bug_status" := by
    cases q.backend <;> rfl
  rw [editOf_of_given hv]
  simp only [edit, SearchOption.handling, Traced.result_ofExcept, statusEdit, hw, ok_bind, textOf,
    OptionValue.text?]
  cases q.backend.statuses.expand? raw with
  | none => rfl
  | some choice => cases choice <;> rfl

/-- The payload of the ids that a text lists. -/
def idsPayload (q : Query) (raw : String) : Payload :=
  (Edit.setList "id" (entriesOf ',' raw)).apply (q.initial .empty)

theorem result_compile_ids (q : Query) (raw : String) :
    (q.alone .bugId (.text raw)).compile.result = .ok (q.idsPayload raw) := by
  rw [result_compile_sole (Backend.mem_order_of_ownsKeys rfl),
    editOf_bugId (q.given?_alone_self .bugId _) rfl, idsOf, List.flatMap_singleton]
  rfl

theorem get?_idsPayload (q : Query) (raw : String) : (q.idsPayload raw).get? "id" =
    if entriesOf ',' raw = [] then none else some (.list (entriesOf ',' raw)) := by
  rw [idsPayload, get?_apply_setList, q.get?_initial_of_ne (by decide) .empty, SortedMap.get?_empty]

theorem get?_idsPayload_eq_none {q : Query} {raw : String} :
    (q.idsPayload raw).get? "id" = none ↔ entriesOf ',' raw = [] := by
  rw [get?_idsPayload]
  simp

theorem get?_idsPayload_eq_some {q : Query} {raw : String} {v : PayloadValue} :
    (q.idsPayload raw).get? "id" = some v ↔
      entriesOf ',' raw ≠ [] ∧ v = .list (entriesOf ',' raw) := by
  rw [get?_idsPayload, Option.ite_none_left_eq_some, Option.some_inj, eq_comm (a := v)]

/-- A status value, compiled alone. -/
theorem result_compile_status (q : Query) (raw : String) :
    (q.alone .bugStatus (.text raw)).compile.result =
      match q.backend.statuses.expand? raw with
      | some .any => .ok (q.initial .empty)
      | some (.codes codes) => .ok ((q.initial .empty).insert "bug_status" (.list codes))
      | none => .error (.unsupportedOption ("bug_status='" ++ raw ++ "'") q.backend.name) := by
  have hclear : (Edit.clear "bug_status").apply (q.initial .empty) = q.initial .empty := by
    refine SortedMap.ext_get? fun k => ?_
    rw [Edit.get?_apply]
    by_cases hk : k = "bug_status"
    · subst hk
      rw [q.get?_initial_of_ne (by decide) .empty]
      rfl
    · simp [Edit.clear, hk]
  rw [result_compile_sole (mem_order_bugStatus _),
    editOf_bugStatus (q.given?_alone_self .bugStatus _), backend_alone]
  cases q.backend.statuses.expand? raw with
  | none => rfl
  | some choice =>
    cases choice with
    | any => exact congrArg Except.ok hclear
    | codes codes => exact congrArg Except.ok (apply_set _ _ _)

/-! ## A status value and the ids that it lists -/

open StatusTable (trimmed)

/-- What a status value compiles to alone, where the same text as ids compiles to `ids`. -/
structure StatusRead (q : Query) (raw : String) (ids : Payload) : Prop where
  compiled : (q.alone .bugId (.text raw)).compile.result = .ok ids
  listed : ids.get? "id" = none ↔ ∀ c ∈ raw.toList, Text.isBlank c = true ∨ c = ','
  codes : ∀ v, ids.get? "id" = some v → ∃ codes, v = .list codes ∧ codes ≠ [] ∧
    ∀ c ∈ codes, c ≠ "" ∧ Text.Trimmed c.toList ∧ ',' ∉ c.toList
  every : trimmed raw = "ALL" → (q.initial .empty).get? "bug_status" = none ∧
    (q.alone .bugStatus (.text raw)).compile.result = .ok (q.initial .empty)
  group : ∀ codes, (trimmed raw, codes) ∈ q.backend.statuses.groups →
    (q.alone .bugStatus (.text raw)).compile.result =
      .ok ((q.initial .empty).insert "bug_status" (.list codes))
  literal : trimmed raw ∉ q.backend.statuses.aliases → ∀ v, ids.get? "id" = some v →
    (q.alone .bugStatus (.text raw)).compile.result = .ok ((q.initial .empty).insert "bug_status" v)
  failed : ∀ x, (q.alone .bugStatus (.text raw)).compile.result = .error x ↔
    ids.get? "id" = none ∧
      x = .unsupportedOption ("bug_status='" ++ raw ++ "'") q.backend.name

/-- Given alone, a status value that trims to `ALL` leaves no condition, and one that trims to an
alias of a group is the codes of the group. Any other value is the list of ids that the same text
is, and each of its codes is trimmed, not empty and without a comma. A status value is an error
just if the text lists no id, that is if it has nothing but blanks and commas. -/
theorem compile_status (q : Query) (raw : String) : ∃ ids, q.StatusRead raw ids := by
  have hresult := q.result_compile_status raw
  rw [show q.backend.statuses = .standard from rfl] at hresult
  refine ⟨q.idsPayload raw, ?_⟩
  constructor
  case compiled => exact q.result_compile_ids raw
  case listed =>
    rw [get?_idsPayload_eq_none, entriesOf_eq_nil_iff]
    refine forall₂_congr fun c _ => ?_
    rw [or_comm, or_iff_not_imp_left]
  case codes =>
    intro v hv
    obtain ⟨hne, rfl⟩ := get?_idsPayload_eq_some.1 hv
    refine ⟨entriesOf ',' raw, rfl, hne, fun c hc => ?_⟩
    exact spec_of_mem_idsOf (List.mem_flatMap.2 ⟨raw, List.mem_singleton_self raw, hc⟩)
  case every =>
    intro hall
    have hany : StatusTable.standard.expand? raw = some .any := StatusTable.expand?_eq_any.2 hall
    exact ⟨q.get?_initial_of_ne (by decide) .empty, by rw [hresult, hany]⟩
  case group =>
    intro codes hcodes
    have hgroup : StatusTable.standard.expand? raw = some (.codes codes) :=
      StatusTable.expand?_of_mem_groups StatusTable.nodup_aliases_standard hcodes
    rw [hresult, hgroup]
  case literal =>
    intro hliteral v hv
    obtain ⟨hne, rfl⟩ := get?_idsPayload_eq_some.1 hv
    have hcodes : StatusTable.standard.expand? raw = some (.codes (entriesOf ',' raw)) :=
      (StatusTable.expand?_of_not_alias hliteral).trans (if_neg hne)
    rw [hresult, hcodes]
  case failed =>
    intro x
    have hnone : StatusTable.standard.expand? raw = none ↔ entriesOf ',' raw = [] :=
      StatusTable.expand?_standard_eq_none
    rw [hresult, get?_idsPayload_eq_none, ← hnone]
    cases StatusTable.standard.expand? raw with
    | none => simp [eq_comm]
    | some choice => cases choice <;> simp

end Query

end BugQuery
