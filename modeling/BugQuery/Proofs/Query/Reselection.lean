import BugQuery.Proofs.Placeholder.Written
import BugQuery.Proofs.Query.ReturnedFields
import BugQuery.Proofs.Query.SameEdits

/-!
# Selecting the selected fields

The fields that an output format selects have names of version 4, and these
are not translated any further. So the selected fields, written out as a
format of their own, select the same fields again, and the query compiles to
the same payload.

* `translate_translate`: a name of version 4 stays as it is.
* `selectedFields_written`: what a format selects, written out, selects the same.
* `compile_reselected`: the payload of a query stays, whatever other options there are.
-/
namespace BugQuery

open FirstFailure

namespace Placeholder

instance (name : String) : Decidable (FieldName name) :=
  decidable_of_iff (name.toList ≠ [] ∧ Text.trim name.toList = name.toList ∧
      '}' ∉ name.toList ∧ ':' ∉ name.toList)
    ⟨fun ⟨hne, htrim, hbrace, hcolon⟩ => ⟨hne, htrim, hbrace, hcolon⟩,
      fun ⟨hne, htrim, hbrace, hcolon⟩ => ⟨hne, htrim, hbrace, hcolon⟩⟩

end Placeholder

namespace Query

open Placeholder

/-! ## Names of version 4 -/

/-- A name is left as it is, or replaced by one of the table. -/
theorem translate_cases (name : String) : version4Names.translate name = name ∨
    ∃ x ∈ Backend.version4Aliases, version4Names.translate name = x.2 := by
  cases h : version4Names.get? name with
  | none => exact .inl (by rw [FieldTable.translate, h]; rfl)
  | some wire =>
    have hlook : Backend.version4Aliases.lookup name = some wire := by
      simpa [version4Names, FieldTable.get?] using h
    obtain ⟨before, after, hsplit, -⟩ := List.lookup_eq_some_iff.1 hlook
    refine .inr ⟨(name, wire), by rw [hsplit]; simp, ?_⟩
    rw [FieldTable.translate, h]
    rfl

/-- No name that the table gives is one that it replaces. -/
theorem translate_translate (name : String) :
    version4Names.translate (version4Names.translate name) = version4Names.translate name := by
  have hall : ∀ x ∈ Backend.version4Aliases, version4Names.translate x.2 = x.2 := by
    decide +kernel
  rcases translate_cases name with h | ⟨x, hx, h⟩
  · rw [h, h]
  · rw [h, hall x hx]

theorem fieldName_translate {name : String} (h : FieldName name) :
    FieldName (version4Names.translate name) := by
  have hall : ∀ x ∈ Backend.version4Aliases, FieldName x.2 := by decide +kernel
  rcases translate_cases name with hname | ⟨x, hx, hname⟩
  · rwa [hname]
  · rw [hname]
    exact hall x hx

/-! ## Selected fields -/

/-- What is known of the fields that a format selects. -/
theorem selectedFields_spec (format : String) :
    (∀ name ∈ selectedFields version4Names format, FieldName name) ∧
    (∀ name ∈ selectedFields version4Names format, version4Names.translate name = name) ∧
    (selectedFields version4Names format).Nodup := by
  have hfirsts := firstsOf_selectedFields version4Names format
  have hname : ∀ name ∈ selectedFields version4Names format,
      ∃ field ∈ fields format, version4Names.translate field = name := fun name hmem =>
    List.mem_map.1 ((hfirsts.mem name).1 hmem)
  refine ⟨fun name hmem => ?_, fun name hmem => ?_, hfirsts.nodup⟩
  · obtain ⟨field, hfield, rfl⟩ := hname name hmem
    exact fieldName_translate (fieldName_of_mem_fields hfield)
  · obtain ⟨field, -, rfl⟩ := hname name hmem
    exact translate_translate field

theorem selectedFields_written (format : String) :
    selectedFields version4Names (written (selectedFields version4Names format)) =
      selectedFields version4Names format := by
  obtain ⟨hnames, hstay, hnodup⟩ := selectedFields_spec format
  have hmap : (selectedFields version4Names format).map version4Names.translate =
      selectedFields version4Names format := (List.map_congr_left hstay).trans (List.map_id _)
  rw [selectedFields, fields_written hnames hnodup, hmap, distinct_of_nodup hnodup]

/-! ## A whole query -/

/-- Where the returned fields can be chosen, only the fields that a format selects count. -/
theorem sameEdits_of_selectedFields {q : Query} (hb : q.backend ≠ .genericV3)
    {format format' : String}
    (h : selectedFields version4Names format' = selectedFields version4Names format) :
    (q.giving .outputFormat (.text format)).SameEdits (q.giving .outputFormat (.text format')) := by
  refine sameEdits_giving (by simp [SearchOption.handling]) fun n => ?_
  rw [editOf_giving_self, editOf_giving_self]
  simp only [edit, SearchOption.handling, outputEdit, backend_giving, outputFields_eq_some hb,
    textOf, OptionValue.text?, ok_bind, h]

theorem result_compile_reselected {q : Query} (hb : q.backend ≠ .genericV3) {format : String}
    {p : Payload} (h : (q.giving .outputFormat (.text format)).compile.result = .ok p) :
    p.get? includeFieldsKey = some (.list (selectedFields version4Names format)) ∧
    (q.giving .outputFormat
      (.text (written (selectedFields version4Names format)))).compile.result = .ok p := by
  constructor
  · have hgiven := q.given?_giving_self .outputFormat (.text format)
    obtain ⟨-, ⟨hnone, -⟩ | ⟨format', hf, hp⟩⟩ := returned_cases h
    · rw [hgiven] at hnone
      cases hnone
    · rw [hgiven] at hf
      cases hf
      rw [hp, backend_giving, outputFields_eq_some hb]
      rfl
  · have hsame := sameEdits_of_selectedFields hb (selectedFields_written format)
    rw [(hsame.alike .empty).result_compile, h]

/-- An output format compiles, if nothing else is given. -/
theorem exists_compile_outputFormat (q : Query) (format : String) :
    ∃ p, (q.alone .outputFormat (.text format)).compile.result = .ok p := by
  have hverdict := result_compile_alone (q := q) (mem_order_outputFormat _) (.text format)
  have hpass : (q.alone .outputFormat (.text format)).verdict .outputFormat = .ok () := by
    rw [verdict, editOf_of_given (q.given?_alone_self .outputFormat _)]
    simp only [edit, SearchOption.handling, outputEdit, textOf, OptionValue.text?, ok_bind]
    cases (q.alone .outputFormat (.text format)).backend.outputFields <;> rfl
  rw [hpass] at hverdict
  obtain ⟨p, hp, -⟩ := map_eq_ok.1 hverdict
  exact ⟨p, hp⟩

/-- Where the returned fields can be chosen, the fields that a format selects, written out as
placeholders, select the same fields in the same order, and the whole payload stays as it is. That
is so for an output format alone, which compiles, and with any other options beside it. -/
theorem compile_reselected (q : Query) (hb : q.backend ≠ .genericV3) (format : String) :
    ∃ fields,
      (∃ p, (q.alone .outputFormat (.text format)).compile.result = .ok p ∧
        p.get? "include_fields" = some (.list fields) ∧
        (q.alone .outputFormat (.text (written fields))).compile.result = .ok p) ∧
      ∀ p, (q.giving .outputFormat (.text format)).compile.result = .ok p →
        p.get? "include_fields" = some (.list fields) ∧
        (q.giving .outputFormat (.text (written fields))).compile.result = .ok p := by
  refine ⟨selectedFields version4Names format, ?_, fun p h => result_compile_reselected hb h⟩
  obtain ⟨p, hp⟩ := exists_compile_outputFormat q format
  exact ⟨p, hp, result_compile_reselected (q := q.withOptions .empty) hb hp⟩

/-- A name that is translated, twice, and one that holds the opening of a placeholder. -/
def nestedFormat : String := "%\x7bblocked\x7d %\x7ba%\x7bb\x7d %\x7b blockedby \x7d"

theorem compile_reselected_nested : described.backend ≠ .genericV3 ∧
    ∃ p, (described.giving .outputFormat (.text nestedFormat)).compile.result = .ok p ∧
      p.get? "include_fields" = some (.list ["blocks", "a%\x7bb"]) ∧
      (described.giving .outputFormat
        (.text "%\x7bblocks\x7d%\x7ba%\x7bb\x7d")).compile.result = .ok p := by
  have hb : described.backend ≠ .genericV3 := by decide
  have h : (described.giving .outputFormat (.text nestedFormat)).compile.result =
      .ok ((described.giving .outputFormat (.text nestedFormat)).compileOnto .empty).payload := by
    rfl
  obtain ⟨fields, -, hall⟩ := compile_reselected described hb nestedFormat
  obtain ⟨hfields, hagain⟩ := hall _ h
  have hvalue : ((described.giving .outputFormat (.text nestedFormat)).compileOnto
      .empty).payload.get? "include_fields" = some (.list ["blocks", "a%\x7bb"]) := by
    decide +kernel
  rw [hvalue] at hfields
  cases hfields
  exact ⟨hb, _, h, hvalue, hagain⟩

end Query

end BugQuery
