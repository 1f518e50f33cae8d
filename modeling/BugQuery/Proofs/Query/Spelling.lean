import BugQuery.Proofs.Query.SameEdits
import BugQuery.Proofs.Query.SoleKeys
import BugQuery.Proofs.Text.Entries

/-!
# Spellings of a value

Options whose values are lists of texts take a single text as well, and it
counts as a list of one. Ids may be spelled in more ways, since every text of
their list is a comma list itself: what counts is the ids that are listed, and
these are a spelling of themselves.

* `alike_giving_texts`: values with the same texts are compiled alike.
* `idsOf`, `idsOf_idsOf`: the ids that texts list; they list themselves.
* `alike_giving_ids`: values that list the same ids are compiled alike.
* `compileOnto_spelling`: the spellings of a value, and what becomes of ids.
-/
namespace BugQuery

open FirstFailure

/-- The option's value is a list of texts, or one text. -/
def Handling.readsTexts : Handling → Bool
  | direct .list | direct .commaList | chart _ => true
  | direct _ | status | email | modifier _ | output _ => false

namespace Query

/-! ## A text and a list of one -/

/-- Such an option's edit depends on the texts alone. -/
theorem edit_congr_texts {q : Query} {o : SearchOption} (ho : o.handling.readsTexts = true)
    {v w : OptionValue} (h : w.toList? = v.toList?) (n : Numbering) :
    q.edit o w n = q.edit o v n := by
  have htexts : textsOf o w = textsOf o v := by rw [textsOf, textsOf, h]
  cases hh : o.handling with
  | direct shape =>
    cases shape with
    | list => simp only [edit, hh, copyEdit, htexts]
    | commaList => simp only [edit, hh, copyEdit, htexts]
    | _ => simp [hh, Handling.readsTexts] at ho
  | chart form => simp only [edit, hh, chartEdit, htexts]
  | _ => simp [hh, Handling.readsTexts] at ho

theorem ne_modifier_of_readsTexts {o : SearchOption} (ho : o.handling.readsTexts = true)
    (kind : Modifier) : o.handling ≠ .modifier kind := by
  intro hh
  rw [hh] at ho
  cases ho

theorem alike_giving_texts (q : Query) {o : SearchOption} (ho : o.handling.readsTexts = true)
    {v w : OptionValue} (h : w.toList? = v.toList?) (p : Payload) :
    Alike p (q.giving o v) (q.giving o w) := by
  have hm := ne_modifier_of_readsTexts ho
  refine (sameEdits_giving hm fun n => ?_).alike p
  rw [editOf_giving_self, editOf_giving_self, q.edit_giving hm v w, edit_congr_texts ho h]

/-! ## Ids -/

/-- The ids that texts list, every one being a comma list. -/
def idsOf (items : List String) : List String := items.flatMap (entriesOf ',')

theorem entriesOf_eq (sep : Char) (s : String) : entriesOf sep s =
    (((s.toList.splitOn sep).map Text.trim).filter (· ≠ [])).map String.ofList := by
  rw [entriesOf, Text.entries, Text.pieces_eq_splitOn]
  congr 2
  funext p
  cases p <;> rfl

/-- Texts that are joined list what they list one by one. -/
theorem entriesOf_intercalate (items : List String) :
    entriesOf ',' (String.intercalate "," items) = idsOf items := by
  have hsep : ",".toList = [','] := rfl
  rw [entriesOf, String.toList_intercalate, hsep, Text.entries_intercalate, List.flatMap_map,
    List.map_flatMap]
  rfl

theorem flatMap_entriesOf (sep : Char) (s : String) :
    (entriesOf sep s).flatMap (entriesOf sep) = entriesOf sep s := by
  have hself : ∀ x, entriesOf sep (String.ofList x) = (Text.entries sep x).map String.ofList := by
    intro x
    rw [entriesOf, String.toList_ofList]
  rw [entriesOf, List.flatMap_map]
  simp only [hself]
  rw [← List.map_flatMap, Text.flatMap_entries_entries]

/-- Ids list themselves. -/
theorem idsOf_idsOf (items : List String) : idsOf (idsOf items) = idsOf items := by
  simp only [idsOf, List.flatMap_assoc, flatMap_entriesOf]

theorem spec_of_mem_idsOf {items : List String} {id : String} (h : id ∈ idsOf items) :
    id ≠ "" ∧ Text.Trimmed id.toList ∧ ',' ∉ id.toList := by
  obtain ⟨item, -, hid⟩ := List.mem_flatMap.1 h
  obtain ⟨x, hx, rfl⟩ := List.mem_map.1 hid
  obtain ⟨htrimmed, hne, hsep⟩ := Text.trimmed_of_mem_entries hx
  rw [String.toList_ofList]
  exact ⟨fun he => hne (String.ofList_eq_empty_iff.1 he), htrimmed, hsep⟩

theorem editOf_bugId {q : Query} {v : OptionValue} {items : List String}
    (hv : q.given? .bugId = some v) (hitems : v.toList? = some items) (n : Numbering) :
    q.editOf .bugId n = .ok (.setList "id" (idsOf items), n) := by
  have hw : q.backend.wireName SearchOption.bugId.name = .ok "id" := by
    cases q.backend <;> rfl
  exact editOf_of_commaList rfl hw hv hitems n

/-- Values that list the same ids are compiled alike. -/
theorem alike_giving_ids (q : Query) {v w : OptionValue} {items items' : List String}
    (hv : v.toList? = some items) (hw : w.toList? = some items') (h : idsOf items' = idsOf items)
    (p : Payload) : Alike p (q.giving .bugId v) (q.giving .bugId w) := by
  refine (sameEdits_giving (by simp [SearchOption.handling]) fun n => ?_).alike p
  rw [editOf_bugId (q.given?_giving_self .bugId v) hv,
    editOf_bugId (q.given?_giving_self .bugId w) hw, h]

theorem get?_apply_setList (k : String) (items : List String) (p : Payload) :
    ((Edit.setList k items).apply p).get? k = if items = [] then p.get? k else some (.list items) := by
  cases items with
  | nil => simp [Edit.setList]
  | cons item items => simp [Edit.setList, Edit.set, Edit.get?_apply]

/-- What becomes of the ids: they are under their key, which no other option has. -/
theorem get?_compileOnto_bugId {q : Query} {v : OptionValue} {items : List String} {p : Payload}
    (hv : q.given? .bugId = some v) (hitems : v.toList? = some items)
    (h : (q.compileOnto p).result = .ok ()) : (q.compileOnto p).payload.get? "id" =
      if idsOf items = [] then p.get? "id" else some (.list (idsOf items)) := by
  have hsole : q.backend.Sole .bugId "id" := by cases q.backend <;> decide +kernel
  have ho : .bugId ∈ q.backend.order := Backend.mem_order_of_ownsKeys rfl
  obtain ⟨e, n, m, he, hget⟩ := get?_compileOnto_of_sole ho (by decide) hsole (by decide) h
  rw [editOf_bugId hv hitems] at he
  cases he
  rw [hget, get?_apply_setList]

/-- Nothing is wrong with any list of ids. -/
theorem result_compileOnto_bugId (q : Query) (items : List String) (p : Payload) :
    ((q.alone .bugId (.list items)).compileOnto p).result = .ok () := by
  have ho : .bugId ∈ q.backend.order := Backend.mem_order_of_ownsKeys rfl
  rw [result_compileOnto_eq, result_compile_alone ho, verdict,
    editOf_bugId (q.given?_alone_self .bugId _) rfl]
  rfl

/-! ## A whole compilation -/

/-- The spelling of a value does not matter. Where texts are listed, a text is compiled like the
list of it alone. Ids in a list are compiled like their texts joined by commas: what they list is
the pieces between commas, trimmed, in order and less the blank ones, which is what the payload
holds if the query compiles, as it does if nothing else is given; and these ids are compiled like
what they were read from. -/
theorem compileOnto_spelling (q : Query) (p : Payload) :
    (∀ x ∈ [.product, .component, .tags, .bugId] ++ chartOptions, ∀ s,
      Alike p (q.giving x (.text s)) (q.giving x (.list [s]))) ∧
    ∀ items, Alike p (q.giving .bugId (.list items))
        (q.giving .bugId (.text (String.intercalate "," items))) ∧
      ∃ ids, ids = items.flatMap (fun s =>
          (((s.toList.splitOn ',').map Text.trim).filter (· ≠ [])).map String.ofList) ∧
        (∀ id ∈ ids, id ≠ "" ∧ Text.Trimmed id.toList ∧ ',' ∉ id.toList) ∧
        ((q.alone .bugId (.list items)).compileOnto p).result = .ok () ∧
        (((q.giving .bugId (.list items)).compileOnto p).result = .ok () →
          ((q.giving .bugId (.list items)).compileOnto p).payload.get? "id" =
            if ids = [] then p.get? "id" else some (.list ids)) ∧
        Alike p (q.giving .bugId (.list items)) (q.giving .bugId (.list ids)) := by
  refine ⟨fun x hx s => ?_, fun items => ⟨?_, idsOf items, ?_, ?_, ?_, ?_, ?_⟩⟩
  · have hall : ∀ o ∈ [SearchOption.product, .component, .tags, .bugId] ++ chartOptions,
        o.handling.readsTexts = true := by decide
    exact q.alike_giving_texts (v := .text s) (w := .list [s]) (hall x hx) rfl p
  · refine q.alike_giving_ids rfl rfl ?_ p
    rw [idsOf, List.flatMap_singleton, entriesOf_intercalate]
  · rw [idsOf, funext (entriesOf_eq ',')]
  · exact fun id hid => spec_of_mem_idsOf hid
  · exact q.result_compileOnto_bugId items p
  · exact get?_compileOnto_bugId (q.given?_giving_self .bugId _) rfl
  · exact q.alike_giving_ids rfl rfl (idsOf_idsOf items) p

/-- Ids in comma lists with blanks, and a text that lists none. -/
def scatteredIds : List String := [" 7, 8", ",", "9"]

theorem compileOnto_spelling_scattered :
    ((described.giving .bugId (.list scatteredIds)).compileOnto .empty).result = .ok () ∧
    ((described.giving .bugId (.list scatteredIds)).compileOnto .empty).payload.get? "id" =
      some (.list ["7", "8", "9"]) ∧
    ((described.giving .bugId (.text " 7, 8,,,9")).compileOnto .empty).payload =
      ((described.giving .bugId (.list ["7", "8", "9"])).compileOnto .empty).payload := by
  have h : ((described.giving .bugId (.list scatteredIds)).compileOnto .empty).result = .ok () := by
    rfl
  obtain ⟨-, hall⟩ := compileOnto_spelling described .empty
  obtain ⟨htext, ids, hids, -, -, hvalue, hagain⟩ := hall scatteredIds
  obtain rfl : ids = ["7", "8", "9"] := hids.trans (by decide +kernel)
  exact ⟨h, hvalue h, htext.payload.trans hagain.payload.symm⟩

end Query

end BugQuery
