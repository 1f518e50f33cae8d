import BugQuery.Proofs.Query.SameEdits
import BugQuery.Proofs.Text.Entries

/-!
# Options that have nothing to say

An option may be given and yet say nothing: a list without entries, a flag
that is off, a file of blanks, a modifier with nothing to tune. Such an option
has an edit, which changes neither the payload nor a number, and without it
every other option has the edit that it had. So the query is compiled as if
the option were not given, whether it fails or not.

* `Idle`: the ways in which an option says nothing.
* `Idle.editOf`, `Idle.editOf_tuned`: its own edit, and the edits of the options that it tunes.
* `compileOnto_without`: leaving it out changes neither the payload nor how the compilation ends.
-/
namespace BugQuery

open FirstFailure

namespace Query

theorem entriesOf_eq_nil_iff {sep : Char} {s : String} :
    entriesOf sep s = [] ↔ ∀ c ∈ s.toList, c ≠ sep → Text.isBlank c = true := by
  rw [entriesOf, List.map_eq_nil_iff, Text.entries_eq_nil_iff]

/-- Given with this value, the option has nothing to say. -/
inductive Idle (q : Query) : SearchOption → OptionValue → Prop where
  | list {x : SearchOption} (hx : x ∈ [.product, .component, .tags]) : Idle q x (.list [])
  | ids {v : OptionValue} {items : List String} (hv : v.toList? = some items)
      (hblank : ∀ s ∈ items, ∀ c ∈ s.toList, c ≠ ',' → Text.isBlank c = true) : Idle q .bugId v
  | file {path content : String} (hread : q.files.read path = .ok content)
      (hblank : ∀ c ∈ content.toList, Text.isBlank c = true) :
      Idle q .componentsFile (.text path)
  | charts {x : SearchOption} (hx : x ∈ chartOptions) : Idle q x (.list [])
  | oneline : Idle q .oneline (.flag false)
  | operator {s : String} (hs : s ∈ Expr.operators)
      (hnone : ∀ o ∈ chartOptions, o ≠ .booleanQuery → q.entriesGiven o = []) :
      Idle q .booleanType (.text s)
  | matchType {s : String} (hnone : ∀ o ∈ roleOptions, q.given? o = none) :
      Idle q .emailType (.text s)

variable {q : Query} {x : SearchOption} {v : OptionValue}

/-! ## Its own edit -/

/-- The edit of an empty list of entries. -/
theorem editOf_chart_of_empty {form : ChartForm} (hx : x ∈ q.backend.order)
    (hh : x.handling = .chart form) (hv : q.given? x = some (.list []))
    (hpass : q.verdict .booleanType = .ok ()) (n : Numbering) :
    q.editOf x n = .ok (.none, n) := by
  obtain ⟨s, -, hs⟩ := exists_operator hpass
  rw [editOf_of_chart hx hh hv, hs]
  rfl

/-- What has nothing to say changes neither the payload nor a number. -/
theorem Idle.editOf (h : q.Idle x v) (hx : x ∈ q.backend.order) (hv : q.given? x = some v)
    (hm : ∀ m, q.backend.modifier? x = some m → q.verdict m = .ok ()) (n : Numbering) :
    q.editOf x n = .ok (.none, n) := by
  cases h with
  | list hmem =>
    have hall : ∀ o ∈ [SearchOption.product, .component, .tags], o.handling = .direct .list := by
      decide
    have hh := hall x hmem
    obtain ⟨wire, hw⟩ := Backend.exists_wireName hx (by rw [hh]; rfl)
    exact editOf_of_list hh hw hv rfl n
  | @ids _ items hitems hblank =>
    obtain ⟨wire, hw⟩ := Backend.exists_wireName hx rfl
    have hnone : items.flatMap (entriesOf ',') = [] :=
      List.flatMap_eq_nil_iff.2 fun s hs => entriesOf_eq_nil_iff.2 (hblank s hs)
    rw [editOf_of_commaList rfl hw hv hitems, hnone]
    rfl
  | @file path content hread hblank =>
    obtain ⟨wire, hw⟩ := Backend.exists_wireName hx rfl
    have hnone : entriesOf '\n' content = [] :=
      entriesOf_eq_nil_iff.2 fun c hc _ => hblank c hc
    rw [editOf_of_file rfl hw hv hread, hnone]
    rfl
  | charts hmem =>
    obtain ⟨form, hh⟩ := mem_chartOptions.1 hmem
    refine editOf_chart_of_empty hx hh hv (hm .booleanType ?_) n
    exact Backend.modifier?_eq_some.2 (.inr ⟨⟨form, hh⟩, rfl⟩)
  | oneline =>
    rw [editOf_of_given hv]
    rfl
  | operator hs hnone =>
    rw [editOf_of_given hv]
    simp only [edit, SearchOption.handling, modifierEdit, textOf, OptionValue.text?, ok_bind,
      if_pos hs]
    rfl
  | matchType hnone =>
    rw [editOf_of_given hv]
    rfl

/-! ## The options that it tunes -/

/-- Without an operator, charts are the same, if no entry is a value to read with it. -/
theorem editOf_chart_without {o : SearchOption} {form : ChartForm} {s : String}
    (ho : o ∈ q.backend.order) (hh : o.handling = .chart form)
    (hv : q.given? .booleanType = some (.text s)) (hnone : form = .values → q.entriesGiven o = [])
    (n : Numbering) : (q.without .booleanType).editOf o n = q.editOf o n := by
  have hne : o ≠ .booleanType := by rintro rfl; cases hh
  have hgiven := q.given?_without_of_ne hne
  cases hw : q.given? o with
  | none => rw [editOf_of_not_given hw, editOf_of_not_given (hgiven.trans hw)]
  | some w =>
    have hdefault := modifierText_of_not_given (q.given?_without_self .booleanType)
    rw [editOf_of_chart ho hh hw, editOf_of_chart (q := q.without .booleanType) ho hh
      (hgiven.trans hw), modifierText_of_given hv, hdefault, backend_without]
    cases form with
    | terms => rfl
    | values =>
      have hraws : w.toList? = none ∨ w.toList? = some [] := by
        cases hlist : w.toList? with
        | none => exact .inl rfl
        | some raws => simpa [entriesGiven, hw, hlist] using hnone rfl
      rcases hraws with hraws | hraws <;> simp only [textsOf, hraws] <;> rfl

theorem Idle.editOf_tuned (h : q.Idle x v) (hv : q.given? x = some v) {o : SearchOption}
    (ho : o ∈ q.backend.order) (htunes : q.backend.modifier? o = some x) (n : Numbering) :
    (q.without x).editOf o n = q.editOf o n := by
  rcases Backend.modifier?_eq_some.1 htunes with ⟨hh, -, rfl⟩ | ⟨⟨form, hh⟩, rfl⟩
  · cases h with
    | list hmem => exact absurd hmem (by decide)
    | charts hmem => exact absurd hmem (by decide)
    | matchType hnone =>
      have hne : o ≠ .emailType := by rintro rfl; cases hh
      have habsent := hnone o (mem_roleOptions.2 hh)
      rw [editOf_of_not_given habsent,
        editOf_of_not_given ((q.given?_without_of_ne hne).trans habsent)]
  · cases h with
    | list hmem => exact absurd hmem (by decide)
    | charts hmem => exact absurd hmem (by decide)
    | operator hs hnone =>
      refine editOf_chart_without ho hh hv (fun hform => ?_) n
      refine hnone o (mem_chartOptions.2 ⟨form, hh⟩) ?_
      rintro rfl
      cases hh
      cases hform

/-! ## A whole compilation -/

/-- An option of the backend that has nothing to say is as if it were not given: without it, a
query that is compiled onto any payload ends in the same way, with the same error if it fails, and
leaves the same payload. -/
theorem compileOnto_without (hx : x ∈ q.backend.order) (hv : q.given? x = some v)
    (h : q.Idle x v) (p : Payload) :
    ((q.without x).compileOnto p).result = (q.compileOnto p).result ∧
      ((q.without x).compileOnto p).payload = (q.compileOnto p).payload := by
  have hsame : q.SameEdits (q.without x) :=
    sameEdits_without hx (h.editOf hx hv) fun o ho htunes _ => h.editOf_tuned hv ho htunes
  exact ⟨(hsame.alike p).result, (hsame.alike p).payload⟩

/-- A component, and a file of components that holds none. -/
def blankFile : Query where
  backend := .genericV3
  options := SortedMap.ofList [("component", .text "kernel"), ("components_file", .text "none.txt")]
  files := { read := fun _ => .ok " \n\t\n", isFile := fun _ => true }

theorem compileOnto_without_blankFile :
    .componentsFile ∈ blankFile.backend.order ∧
    blankFile.given? .componentsFile = some (.text "none.txt") ∧
    blankFile.Idle .componentsFile (.text "none.txt") ∧
    ((blankFile.without .componentsFile).compileOnto .empty).result = .ok () ∧
    ((blankFile.without .componentsFile).compileOnto .empty).payload =
      (blankFile.compileOnto .empty).payload ∧
    (blankFile.compileOnto .empty).payload.get? "component" = some (.list ["kernel"]) := by
  have hx : .componentsFile ∈ blankFile.backend.order := Backend.mem_order_of_ownsKeys rfl
  have hv : blankFile.given? .componentsFile = some (.text "none.txt") := by decide +kernel
  have hblank : " \n\t\n".toList.all Text.isBlank = true := by decide
  have hidle : blankFile.Idle .componentsFile (.text "none.txt") :=
    .file rfl (List.all_eq_true.1 hblank)
  obtain ⟨hresult, hpayload⟩ := compileOnto_without hx hv hidle .empty
  exact ⟨hx, hv, hidle, hresult.trans (by rfl), hpayload, by decide +kernel⟩

end Query

end BugQuery
