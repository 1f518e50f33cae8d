import BugQuery.Proofs.Expr.Grammar

/-!
# Canonical expressions

An expression is canonical if it can be written out and read again: its
parts are trimmed and hold none of the characters that separate them. These
are just the expressions that reading gives, so reading and writing are
inverse to each other on them. A `!` at the front is the one thing to look
out for, since it would be read as a negation.

* `Writing.Inverts`: a way to write terms undoes a form of terms.
* `canonical_of_describes`, `eq_ok_of_canonical`: what is read is canonical, and what is canonical
  is read back, in every form with a writing that undoes it.
* `parse_render`: both for whole terms and for values.
-/
namespace BugQuery

open Text (trim isBlank Trimmed)

namespace Expr

/-- How terms are written out. -/
structure Writing where
  /-- The terms that may be written out. -/
  Canonical : Term → Prop
  text : Term → String
  /-- The part of a term that its text starts with. -/
  lead : Term → String

/-- A part of a term: trimmed, and free of the characters `cs`. -/
def Plain (cs : List Char) (s : String) : Prop := Trimmed s.toList ∧ ∀ c ∈ cs, c ∉ s.toList

/-- A term whose parts are recognised when they are joined by hyphens. -/
structure CanonicalWhole (t : Term) : Prop where
  verbatim : ∃ name, t.field = .verbatim name
  field_ne : t.field.name ≠ ""
  field : Plain ['-', '&', '|'] t.field.name
  operator_ne : t.operator ≠ ""
  operator : Plain ['-', '&', '|'] t.operator
  value : Plain ['&', '|'] t.value

/-- A term for a field and an operator, whose value is recognised by itself. -/
structure CanonicalValue (field operator : String) (t : Term) : Prop where
  field : t.field = .shortcut field
  operator : t.operator = operator
  value_ne : t.value ≠ ""
  value : Plain ['&', '|'] t.value

/-- Terms written as `field-operator-value`. -/
def wholeWriting : Writing where
  Canonical := CanonicalWhole
  text t := t.field.name ++ "-" ++ t.operator ++ "-" ++ t.value
  lead t := t.field.name

/-- Terms for a field and an operator, written as their values. -/
def valueWriting (field operator : String) : Writing where
  Canonical := CanonicalValue field operator
  text t := t.value
  lead t := t.value

/-- An expression that can be written out: no part is missing, every term is canonical, and there
is no `!` at the front but for a negation. -/
structure Canonical (w : Writing) (e : Expr) : Prop where
  rows_ne_nil : e.rows ≠ []
  row_ne_nil : ∀ row ∈ e.rows, row ≠ []
  terms : ∀ row ∈ e.rows, ∀ t ∈ row, w.Canonical t
  bang : e.negate = false → ∀ t ∈ e.rows.flatten.head?, (w.lead t).toList.head? ≠ some '!'

/-- The text of an expression. -/
def render (w : Writing) (e : Expr) : String :=
  (if e.negate then "!" else "") ++ String.intercalate " & "
    (e.rows.map fun row => String.intercalate " | " (row.map w.text))

/-- Writing undoes reading, term by term. -/
structure Writing.Inverts (w : Writing) (form : TermForm) : Prop where
  ne_nil : ∀ s, form.Fits s → s ≠ []
  canonical : ∀ s, Solid s → Trimmed s → form.Fits s → w.Canonical (form.term s)
  lead : ∀ c s, isBlank c = false → form.Fits (c :: s) →
    (w.lead (form.term (c :: s))).toList.head? = some c
  solid : ∀ t, w.Canonical t → Solid (w.text t).toList
  trimmed : ∀ t, w.Canonical t → Trimmed (w.text t).toList
  fits : ∀ t, w.Canonical t → form.Fits (w.text t).toList
  term : ∀ t, w.Canonical t → form.term (w.text t).toList = t

/-! ## What is read is canonical -/

theorem solid_of_mem_segmentsOf {s t : List Char} (h : t ∈ segmentsOf s) : Solid t := by
  have htrim : ∀ {u : List Char}, Solid u → Solid (trim u) := fun hu =>
    ⟨fun hc => hu.1 (Text.mem_of_mem_trim hc), fun hc => hu.2 (Text.mem_of_mem_trim hc)⟩
  induction s using separated_induction with
  | solid s hs =>
    rw [segmentsOf_of_solid hs] at h
    exact List.mem_singleton.1 h ▸ htrim hs
  | joined s sep s' hs ih =>
    rw [segmentsOf_joined, segmentsOf_of_solid hs] at h
    obtain hfirst | hrest := List.mem_append.1 h
    · exact List.mem_singleton.1 hfirst ▸ htrim hs
    · exact ih hrest

theorem trimmed_of_mem_segmentsOf {s t : List Char} (h : t ∈ segmentsOf s) : Trimmed t := by
  obtain ⟨p, -, rfl⟩ := List.mem_map.1 h
  exact Text.trimmed_trim p

/-- The first segment is empty or starts as the text does. -/
theorem head?_segmentsOf {c : Char} (h : isBlank c = false) (s : List Char) :
    (segmentsOf (c :: s)).head? = some [] ∨ ∃ t, (segmentsOf (c :: s)).head? = some (c :: t) := by
  rw [segmentsOf, List.splitOnP_cons_eq_if_modifyHead]
  split
  · exact .inl rfl
  · obtain ⟨p, ps, hp⟩ := List.exists_cons_of_ne_nil (List.splitOnP_ne_nil isSeparator s)
    obtain ⟨t, ht⟩ := Text.exists_trim_cons h p
    rw [hp, List.modifyHead_cons, List.map_cons, ht]
    exact .inr ⟨t, rfl⟩

variable {w : Writing} {form : TermForm}

/-- In a form that a writing undoes, every expression that is read is canonical. -/
theorem canonical_of_describes (hw : w.Inverts form) {input : String} {negate : Bool}
    {b : List Char} {e : Expr} (hopen : Opened input.toList negate b)
    (h : form.Describes input negate b (.ok e)) : e.Canonical w := by
  obtain ⟨hblank, hfits⟩ := h.accepts.1 ⟨e, rfl⟩
  obtain ⟨hnegate, hrows⟩ := h.expression e rfl
  have hflat : e.rows.flatten = (segmentsOf b).map form.term := by
    rw [hrows, ← List.map_flatten, flatten_cells]
  refine ⟨?_, ?_, ?_, ?_⟩
  · rw [hrows]
    exact fun hnil => cells_ne_nil b (List.map_eq_nil_iff.1 hnil)
  · rw [hrows, List.forall_mem_map]
    exact fun row hrow hnil => ne_nil_of_mem_cells hrow (List.map_eq_nil_iff.1 hnil)
  · intro row hrow t ht
    have hmem : t ∈ e.rows.flatten := List.mem_flatten.2 ⟨row, hrow, ht⟩
    rw [hflat] at hmem
    obtain ⟨s, hs, rfl⟩ := List.mem_map.1 hmem
    exact hw.canonical s (solid_of_mem_segmentsOf hs) (trimmed_of_mem_segmentsOf hs) (hfits s hs)
  · intro hn t ht
    rw [hnegate] at hn
    rw [hflat, List.head?_map] at ht
    obtain ⟨s, hs, rfl⟩ := Option.map_eq_some_iff.1 ht
    have hsfits := hfits s (List.mem_of_head? hs)
    cases b with
    | nil => exact absurd rfl hblank
    | cons c b =>
      obtain ⟨hc, hbang⟩ := hopen.first hn c rfl
      rcases head?_segmentsOf hc b with hempty | ⟨u, hu⟩
      · rw [hempty] at hs
        cases hs
        exact absurd rfl (hw.ne_nil [] hsfits)
      · rw [hu] at hs
        cases hs
        rw [hw.lead c u hc hsfits]
        exact fun he => hbang (Option.some.inj he)

/-! ## What is canonical is read back -/

/-- The texts of terms, by rows. -/
def textRows (w : Writing) (e : Expr) : List (List (List Char)) :=
  e.rows.map (List.map fun t => (w.text t).toList)

theorem toList_render (w : Writing) (e : Expr) : (e.render w).toList =
    if e.negate then '!' :: joinCells (e.textRows w) else joinCells (e.textRows w) := by
  have hrows : (String.intercalate " & "
      (e.rows.map fun row => String.intercalate " | " (row.map w.text))).toList =
      joinCells (e.textRows w) := by
    rw [String.toList_intercalate, joinCells, textRows]
    simp only [List.map_map, Function.comp_def, String.toList_intercalate]
    rfl
  rw [render, String.toList_append, hrows]
  split <;> rfl

theorem exists_joinCells_eq (x : List Char) (row : List (List Char))
    (rows : List (List (List Char))) : ∃ r, joinCells ((x :: row) :: rows) = x ++ r := by
  have hrow : ∃ r, [' ', '|', ' '].intercalate (x :: row) = x ++ r := by
    cases row with
    | nil => exact ⟨[], by simp⟩
    | cons y row => exact ⟨_, by rw [List.intercalate_cons_cons, List.append_assoc]⟩
  obtain ⟨r, hr⟩ := hrow
  rw [joinCells, List.map_cons, hr]
  cases rows with
  | nil => exact ⟨r, by simp⟩
  | cons next rows =>
    exact ⟨_, by rw [List.map_cons, List.intercalate_cons_cons, List.append_assoc,
      List.append_assoc]⟩

/-- A written expression starts with a character of its first term. -/
theorem exists_joinCells_cons (hw : w.Inverts form) {e : Expr} (he : e.Canonical w) :
    ∃ c s, joinCells (e.textRows w) = c :: s ∧ isBlank c = false ∧
      (e.negate = false → c ≠ '!') := by
  obtain ⟨row, rows, hrows⟩ := List.exists_cons_of_ne_nil he.rows_ne_nil
  obtain ⟨t, ts, hrow⟩ := List.exists_cons_of_ne_nil
    (he.row_ne_nil row (by rw [hrows]; exact List.mem_cons_self))
  subst hrow
  have ht : w.Canonical t := he.terms (t :: ts) (by rw [hrows]; exact List.mem_cons_self) t
    List.mem_cons_self
  obtain ⟨c, s, hcs⟩ := List.exists_cons_of_ne_nil (hw.ne_nil _ (hw.fits t ht))
  have hc : isBlank c = false := (hw.trimmed t ht).1 c (by rw [hcs]; rfl)
  obtain ⟨r, hr⟩ := exists_joinCells_eq (w.text t).toList (ts.map fun t => (w.text t).toList)
    (rows.map (List.map fun t => (w.text t).toList))
  refine ⟨c, s ++ r, ?_, hc, fun hn => ?_⟩
  · rw [textRows, hrows, List.map_cons, List.map_cons, hr, hcs]
    rfl
  · have hlead := hw.lead c s hc (by rw [← hcs]; exact hw.fits t ht)
    rw [← hcs, hw.term t ht] at hlead
    have hbang := he.bang hn t (by rw [hrows]; rfl)
    rw [hlead] at hbang
    exact fun h => hbang (congrArg some h)

theorem opened_render (hw : w.Inverts form) {e : Expr} (he : e.Canonical w) :
    Opened (e.render w).toList e.negate (joinCells (e.textRows w)) := by
  obtain ⟨c, s, hcs, hc, hbang⟩ := exists_joinCells_cons hw he
  refine ⟨⟨[], by simp, toList_render w e⟩, fun hn d hd => ?_⟩
  rw [hcs] at hd
  cases hd
  exact ⟨hc, hbang hn⟩

theorem cells_textRows (hw : w.Inverts form) {e : Expr} (he : e.Canonical w) :
    cells (joinCells (e.textRows w)) = e.textRows w := by
  refine cells_joinCells ?_ ?_ ?_
  · exact fun hnil => he.rows_ne_nil (List.map_eq_nil_iff.1 hnil)
  · rw [textRows, List.forall_mem_map]
    exact fun row hrow hnil => he.row_ne_nil row hrow (List.map_eq_nil_iff.1 hnil)
  · rw [textRows, ← List.map_flatten, List.forall_mem_map]
    intro t ht
    obtain ⟨row, hrow, ht⟩ := List.mem_flatten.1 ht
    exact ⟨hw.solid t (he.terms row hrow t ht), hw.trimmed t (he.terms row hrow t ht)⟩

/-- In a form that a writing undoes, the text of a canonical expression is read as it. -/
theorem eq_ok_of_canonical (hw : w.Inverts form) {e : Expr} (he : e.Canonical w)
    {r : Except QueryError Expr} (h : form.Describes (e.render w) (body (e.render w).toList).1
      (body (e.render w).toList).2 r) : r = .ok e := by
  rw [body_of_opened (opened_render hw he)] at h
  have hterm : ∀ row ∈ e.rows, ∀ t ∈ row, form.term (w.text t).toList = t :=
    fun row hrow t ht => hw.term t (he.terms row hrow t ht)
  have hblank : trim (joinCells (e.textRows w)) ≠ [] := by
    obtain ⟨c, s, hcs, hc, -⟩ := exists_joinCells_cons hw he
    rw [hcs]
    obtain ⟨t, ht⟩ := Text.exists_trim_cons hc s
    simp [ht]
  have hfits : ∀ t ∈ segmentsOf (joinCells (e.textRows w)), form.Fits t := by
    rw [← flatten_cells, cells_textRows hw he, textRows, ← List.map_flatten, List.forall_mem_map]
    intro t ht
    obtain ⟨row, hrow, ht⟩ := List.mem_flatten.1 ht
    exact hw.fits t (he.terms row hrow t ht)
  obtain ⟨f, rfl⟩ := h.accepts.2 ⟨hblank, hfits⟩
  obtain ⟨hnegate, hrows⟩ := h.expression f rfl
  rw [cells_textRows hw he, textRows, List.map_map] at hrows
  have hsame : e.rows.map (List.map form.term ∘ List.map fun t => (w.text t).toList) = e.rows := by
    refine (List.map_congr_left fun row hrow => ?_).trans (List.map_id e.rows)
    rw [Function.comp, List.map_map]
    exact (List.map_congr_left fun t ht => hterm row hrow t ht).trans (List.map_id row)
  rw [hsame] at hrows
  cases f
  cases e
  simp_all

/-! ## The two writings -/

theorem trimmed_of_plain {cs : List Char} {s : String} (h : Plain cs s) : trim s.toList = s.toList :=
  Text.trim_eq_self h.1

theorem toList_ne_nil {s : String} (h : s ≠ "") : s.toList ≠ [] := by
  simpa using h

/-- The trimmed part of a solid text is plain. -/
theorem plain_trim {s p : List Char} {cs : List Char} (hs : Solid s) (hp : p ⊆ s)
    (hcs : ∀ c ∈ cs, c = '&' ∨ c = '|' ∨ c ∉ p) : Plain cs (String.ofList (trim p)) := by
  rw [Plain, String.toList_ofList]
  refine ⟨Text.trimmed_trim p, fun c hc hmem => ?_⟩
  have hcp := Text.mem_of_mem_trim hmem
  rcases hcs c hc with rfl | rfl | hno
  · exact hs.1 (hp hcp)
  · exact hs.2 (hp hcp)
  · exact hno hcp

theorem ofList_ne_empty {s : List Char} (h : s ≠ []) : String.ofList s ≠ "" := by
  simpa using h

theorem hyphen_not_mem_beforeHyphen (s : List Char) : '-' ∉ beforeHyphen s := fun h => by
  simpa using List.all_eq_true.1 List.all_takeWhile _ h

theorem beforeHyphen_subset (s : List Char) : beforeHyphen s ⊆ s :=
  (List.takeWhile_prefix _).subset

theorem afterHyphen_subset (s : List Char) : afterHyphen s ⊆ s :=
  fun _ hc => (List.dropWhile_suffix _).subset (List.mem_of_mem_drop hc)

theorem toList_wholeText (t : Term) : (wholeWriting.text t).toList =
    t.field.name.toList ++ '-' :: (t.operator.toList ++ '-' :: t.value.toList) := by
  simp [wholeWriting]

theorem inverts_wholeTerm : wholeWriting.Inverts wholeTerm where
  ne_nil s h := h.1
  canonical s hs _ h := by
    obtain ⟨-, -, hfield, hoperator⟩ := h
    have hafter := afterHyphen_subset s
    refine ⟨⟨_, rfl⟩, ofList_ne_empty hfield, ?_, ofList_ne_empty hoperator, ?_, ?_⟩
    · refine plain_trim hs (beforeHyphen_subset s) ?_
      simpa using hyphen_not_mem_beforeHyphen s
    · refine plain_trim hs (fun _ hc => hafter (beforeHyphen_subset _ hc)) ?_
      simpa using hyphen_not_mem_beforeHyphen (afterHyphen s)
    · exact plain_trim hs (fun _ hc => hafter (afterHyphen_subset _ hc)) (by simp)
  lead c s hc h := by
    have hhyphen : c ≠ '-' := by
      rintro rfl
      exact h.2.2.1 (by simp [beforeHyphen, trim, Text.trimStart, Text.trimEnd])
    obtain ⟨t, ht⟩ := Text.exists_trim_cons hc (beforeHyphen s)
    have hbefore : beforeHyphen (c :: s) = c :: beforeHyphen s :=
      List.takeWhile_cons_of_pos (by simpa using hhyphen)
    simp [wholeWriting, wholeTerm, TermField.name, hbefore, ht]
  solid t h := by
    have hfield := h.field.2
    have hoperator := h.operator.2
    have hvalue := h.value.2
    rw [toList_wholeText]
    constructor <;> simp_all
  trimmed t h := by
    have hlast : ∀ c ∈ ('-' :: t.value.toList).getLast?, isBlank c = false := by
      -- an empty value leaves the second hyphen at the end
      by_cases hv : t.value.toList = []
      · rw [hv]
        simp
        decide
      · rw [List.getLast?_cons_of_ne_nil hv]
        exact h.value.1.2
    have htext : (wholeWriting.text t).toList = t.field.name.toList ++
        ('-' :: t.operator.toList ++ '-' :: t.value.toList) := toList_wholeText t
    rw [htext]
    exact Text.trimmed_append (toList_ne_nil h.field_ne) (by simp) h.field.1.1 hlast _
  fits t h := by
    rw [toList_wholeText]
    have hfield : '-' ∉ t.field.name.toList := h.field.2 '-' (by simp)
    have hoperator : '-' ∉ t.operator.toList := h.operator.2 '-' (by simp)
    refine ⟨by simp, ?_, ?_, ?_⟩
    · rw [count_append_hyphen hfield, count_append_hyphen hoperator]
      omega
    · rw [beforeHyphen_append hfield, trimmed_of_plain h.field]
      exact toList_ne_nil h.field_ne
    · rw [afterHyphen_append hfield, beforeHyphen_append hoperator, trimmed_of_plain h.operator]
      exact toList_ne_nil h.operator_ne
  term t h := by
    have hfield : '-' ∉ t.field.name.toList := h.field.2 '-' (by simp)
    have hoperator : '-' ∉ t.operator.toList := h.operator.2 '-' (by simp)
    obtain ⟨name, hname⟩ := h.verbatim
    rw [toList_wholeText, wholeTerm]
    simp only [beforeHyphen_append hfield, afterHyphen_append hfield,
      beforeHyphen_append hoperator, afterHyphen_append hoperator, trimmed_of_plain h.field,
      trimmed_of_plain h.operator, trimmed_of_plain h.value, String.ofList_toList]
    cases t
    simp_all [TermField.name]

theorem inverts_valueTerm (field operator : String) :
    (valueWriting field operator).Inverts (valueTerm field operator) where
  ne_nil s h := h
  canonical s hs ht h := by
    refine ⟨rfl, rfl, ofList_ne_empty h, ?_⟩
    have hplain : Plain ['&', '|'] (String.ofList (trim s)) :=
      plain_trim hs (List.Subset.refl s) (by simp)
    rwa [Text.trim_eq_self ht] at hplain
  lead c s hc h := by simp [valueWriting, valueTerm]
  solid t h := ⟨h.value.2 '&' (by simp), h.value.2 '|' (by simp)⟩
  trimmed t h := h.value.1
  fits t h := toList_ne_nil h.value_ne
  term t h := by
    rw [valueTerm, valueWriting]
    simp only [String.ofList_toList]
    rw [← h.field, ← h.operator]

/-- Reading gives canonical expressions, and a canonical expression that is written out is read
back; so it is for whole terms, and for the values of any field with a known operator. -/
theorem parse_render :
    (∀ input e, parse input = .ok e → e.Canonical wholeWriting) ∧
    (∀ e : Expr, e.Canonical wholeWriting → parse (e.render wholeWriting) = .ok e) ∧
    ∀ field operator, operator ∈ operators →
      (∀ input e, parseValues field operator input = .ok e →
        e.Canonical (valueWriting field operator)) ∧
      ∀ e : Expr, e.Canonical (valueWriting field operator) →
        parseValues field operator (e.render (valueWriting field operator)) = .ok e := by
  refine ⟨?_, ?_, fun field operator hknown => ⟨?_, ?_⟩⟩
  · intro input e h
    exact canonical_of_describes inverts_wholeTerm (opened_body _) (h ▸ describes_parse input)
  · intro e he
    exact eq_ok_of_canonical inverts_wholeTerm he (describes_parse _)
  · intro input e h
    exact canonical_of_describes (inverts_valueTerm field operator) (opened_body _)
      (h ▸ describes_parseValues hknown field input)
  · intro e he
    exact eq_ok_of_canonical (inverts_valueTerm field operator) he
      (describes_parseValues hknown field _)

/-- A negated expression of two rows; one value is empty, and one has a hyphen in it. -/
def twoRows : Expr where
  negate := true
  rows := [[⟨.verbatim "flag", "equals", "!x"⟩, ⟨.verbatim "cc", "regexp", ""⟩],
    [⟨.verbatim "product", "equals", "a-b"⟩]]

/-- Two values of an option. -/
def twoFlags : Expr where
  negate := false
  rows := [[⟨.shortcut "flag", "equals", "a-b"⟩, ⟨.shortcut "flag", "equals", "!c"⟩]]

theorem parse_render_twoRows :
    (parse " ! flag-equals - !x|cc-regexp-& product -equals-a-b" = .ok twoRows ∧
      twoRows.Canonical wholeWriting ∧ parse (twoRows.render wholeWriting) = .ok twoRows) ∧
    "equals" ∈ operators ∧ parseValues "flag" "equals" "a-b|!c" = .ok twoFlags ∧
      twoFlags.Canonical (valueWriting "flag" "equals") ∧
      parseValues "flag" "equals" (twoFlags.render (valueWriting "flag" "equals")) =
        .ok twoFlags := by
  have hread : parse " ! flag-equals - !x|cc-regexp-& product -equals-a-b" = .ok twoRows := by rfl
  have hvalues : parseValues "flag" "equals" "a-b|!c" = .ok twoFlags := by rfl
  have hknown : "equals" ∈ operators := by decide
  obtain ⟨hcanonical, hback, hoption⟩ := parse_render
  obtain ⟨hcanonicalValues, hbackValues⟩ := hoption "flag" "equals" hknown
  have hrows := hcanonical _ _ hread
  have hflags := hcanonicalValues _ _ hvalues
  exact ⟨⟨hread, hrows, hback _ hrows⟩, hknown, hvalues, hflags, hbackValues _ hflags⟩

end Expr

end BugQuery
