import BugQuery.Proofs.Placeholder.Scan

/-!
# Fields written out as placeholders

A field has a name that can stand in a placeholder as it is: nothing is
trimmed off it, and it holds no character that ends a name. What else it holds
does not matter, be it the opening of a placeholder. So fields that are
written out as placeholders, one after the other, are the fields of that text,
in the same order.

* `fieldName_of_mem_fields`: the fields of any format have such names.
* `names_written`: placeholders in a row are scanned one by one.
* `fields_written`: fields that are written out are read back.
-/
namespace BugQuery.Placeholder

/-- The text that has the names as placeholders, one after the other. -/
def written (names : List String) : String :=
  String.join (names.map fun name => "%\x7b" ++ name ++ "\x7d")

/-- The name can stand in a placeholder as it is. -/
structure FieldName (name : String) : Prop where
  ne_nil : name.toList ≠ []
  trim : Text.trim name.toList = name.toList
  brace : '}' ∉ name.toList
  colon : ':' ∉ name.toList

theorem fieldName_of_mem_fields {format name : String} (h : name ∈ fields format) :
    FieldName name := by
  obtain ⟨n, hn, htext, hne⟩ :=
    exists_of_mem_trimmedNames (((firstsOf_distinct _).mem name).1 h)
  obtain ⟨hbrace, hcolon⟩ := not_mem_of_scan (scan_names format.toList) n hn
  refine ⟨htext ▸ hne, ?_, ?_, ?_⟩
  · rw [htext, Text.trim_trim]
  · exact fun hm => hbrace (Text.mem_of_mem_trim (htext ▸ hm))
  · exact fun hm => hcolon (Text.mem_of_mem_trim (htext ▸ hm))

theorem toList_written_cons (name : String) (ns : List String) :
    (written (name :: ns)).toList =
      '%' :: '{' :: (name.toList ++ '}' :: (written ns).toList) := by
  simp [written, String.toList_join]

/-- Each placeholder ends where the next one begins. -/
theorem names_written : ∀ {ns : List String}, (∀ name ∈ ns, FieldName name) →
    names (written ns).toList = ns.map String.toList
  | [], _ => by simp [written, names]
  | name :: ns, h => by
    rw [List.forall_mem_cons] at h
    obtain ⟨⟨hne, -, hbrace, hcolon⟩, hns⟩ := h
    have hbegins : Begins (written (name :: ns)).toList name.toList (written ns).toList :=
      ⟨hne, hbrace, hcolon, .inl (toList_written_cons name ns)⟩
    rw [names_of_begins hbegins, names_written hns, List.map_cons]

/-- Nothing is trimmed off the names of fields, and none is blank. -/
theorem trimmedNames_of_fieldNames : ∀ {ns : List String}, (∀ name ∈ ns, FieldName name) →
    trimmedNames (ns.map String.toList) = ns
  | [], _ => rfl
  | name :: ns, h => by
    rw [List.forall_mem_cons] at h
    have ih := trimmedNames_of_fieldNames h.2
    unfold trimmedNames at ih ⊢
    rw [List.map_cons, List.map_cons, h.1.trim,
      List.filter_cons_of_pos (by simpa using h.1.ne_nil), List.map_cons, ih, String.ofList_toList]

/-- A list without repetition has its members at their first places. -/
theorem distinct_of_nodup {xs : List String} (h : xs.Nodup) : distinct xs = xs := by
  refine (eq_distinct_iff.2 ⟨fun _ => Iff.rfl, List.pairwise_iff_getElem.2 ?_⟩).symm
  intro i j hi hj hlt
  rwa [h.idxOf_getElem i hi, h.idxOf_getElem j hj]

theorem fields_written {ns : List String} (h : ∀ name ∈ ns, FieldName name) (hnodup : ns.Nodup) :
    fields (written ns) = ns := by
  rw [fields_eq, names_written h, trimmedNames_of_fieldNames h, distinct_of_nodup hnodup]

end BugQuery.Placeholder
