import BugQuery.Proofs.Expr.Grammar

/-!
# Expressions put together

Two texts with a separator between them are read as the two expressions put
together. After an `&` the rows of the second follow those of the first; at a
`|` the last row of the first and the first row of the second become one. A
`!` is looked for at the front of a text alone, so the second text must not
open with one, and blanks on one side of the separator are no expression.

* `RowsJoined`: how a separator puts rows together.
* `rowsJoined_cells`: the cells of a text that goes on after a separator.
* `parse_joined`: what two texts with a separator between them are read as.
-/
namespace BugQuery.Expr

open Text (trim isBlank)

/-- Rows put together by a separator: set one after the other, or joined where they meet. -/
inductive RowsJoined {α : Type} :
    Separator → List (List α) → List (List α) → List (List α) → Prop where
  | row (xs ys : List (List α)) : RowsJoined .row xs ys (xs ++ ys)
  | column (init : List (List α)) (last first : List α) (rest : List (List α)) :
    RowsJoined .column (init ++ [last]) (first :: rest) (init ++ (last ++ first) :: rest)

theorem RowsJoined.map {α β : Type} (f : α → β) {sep : Separator} {xs ys zs : List (List α)}
    (h : RowsJoined sep xs ys zs) :
    RowsJoined sep (xs.map (List.map f)) (ys.map (List.map f)) (zs.map (List.map f)) := by
  cases h with
  | row => simpa using RowsJoined.row (xs.map (List.map f)) (ys.map (List.map f))
  | column init last first rest =>
    simpa using RowsJoined.column (init.map (List.map f)) (last.map f) (first.map f)
      (rest.map (List.map f))

/-- A row in front of the first rows stands in front of all of them. -/
theorem RowsJoined.cons {α : Type} (row : List α) {sep : Separator} {xs ys zs : List (List α)}
    (h : RowsJoined sep xs ys zs) : RowsJoined sep (row :: xs) ys (row :: zs) := by
  cases h with
  | row => exact .row (row :: xs) ys
  | column init last first rest => exact .column (row :: init) last first rest

/-- So does a member in front of the first row, if there is one. -/
theorem RowsJoined.modifyHead {α : Type} (x : α) {sep : Separator} {xs ys zs : List (List α)}
    (hne : xs ≠ []) (h : RowsJoined sep xs ys zs) :
    RowsJoined sep (xs.modifyHead (x :: ·)) ys (zs.modifyHead (x :: ·)) := by
  cases h with
  | row =>
    obtain ⟨row, rows, rfl⟩ := List.exists_cons_of_ne_nil hne
    exact .row ((x :: row) :: rows) ys
  | column init last first rest =>
    cases init with
    | nil => exact .column [] (x :: last) first rest
    | cons row init => exact .column ((x :: row) :: init) last first rest

/-! ## Texts put together -/

theorem rowsJoined_cells (sep : Separator) (s t : List Char) :
    RowsJoined sep (cells s) (cells t) (cells (s ++ sep.char :: t)) := by
  induction s using separated_induction with
  | solid s hs =>
    rw [cells_of_solid hs]
    cases sep with
    | row =>
      rw [Separator.char, cells_row, cells_of_solid hs]
      exact .row _ _
    | column =>
      rw [Separator.char, cells_column hs]
      obtain ⟨first, rest, hrows⟩ := List.exists_cons_of_ne_nil (cells_ne_nil t)
      rw [hrows]
      exact .column [] [trim s] first rest
  | joined s sep' u hs ih =>
    rw [List.append_assoc, List.cons_append]
    cases sep' with
    | row =>
      rw [Separator.char, cells_row, cells_row, cells_of_solid hs]
      exact ih.cons [trim s]
    | column =>
      rw [Separator.char, cells_column hs, cells_column hs]
      exact ih.modifyHead (trim s) (cells_ne_nil u)

/-- Leading blanks belong to the first cell, which is trimmed. -/
theorem cells_append_of_isBlank {w : List Char} (hw : ∀ c ∈ w, isBlank c = true) (s : List Char) :
    cells (w ++ s) = cells s := by
  induction w with
  | nil => rfl
  | cons c w ih =>
    rw [List.forall_mem_cons] at hw
    rw [List.cons_append, cells_cons_of_isBlank hw.1, ih hw.2]

theorem not_isBlank_separator (sep : Separator) : isBlank sep.char = false := by
  cases sep <;> decide

/-- What follows in a text does not change how it opens. -/
theorem body_joined (sep : Separator) (s t : List Char) :
    body (s ++ sep.char :: t) = ((body s).1, (body s).2 ++ sep.char :: t) := by
  obtain ⟨⟨blanks, hblank, htext⟩, hfirst⟩ := opened_body s
  refine body_of_opened ⟨⟨blanks, hblank, ?_⟩, fun hn c hc => ?_⟩
  · generalize (body s).1 = n at htext
    generalize (body s).2 = b at htext
    subst htext
    cases n <;> simp
  · cases hb : (body s).2 with
    | nil =>
      rw [hb] at hc
      obtain rfl : sep.char = c := by simpa using hc
      exact ⟨not_isBlank_separator sep, by cases sep <;> decide⟩
    | cons d b =>
      rw [hb] at hc hfirst
      exact hfirst hn c hc

/-- A text whose first character, blanks apart, is no `!` is not negated. -/
theorem body_of_no_bang {s : List Char} (h : s.find? (!isBlank ·) ≠ some '!') :
    (body s).1 = false ∧ cells (body s).2 = cells s := by
  have hopened := opened_body s
  have hnegate : (body s).1 = false := Bool.eq_false_iff.2 (mt hopened.negate_iff.1 h)
  obtain ⟨blanks, hblank, htext⟩ := hopened.text
  rw [hnegate, if_neg (by simp)] at htext
  refine ⟨hnegate, ?_⟩
  rw [htext, cells_append_of_isBlank hblank, ← htext]

/-! ## Readers -/

/-- Two texts with a separator between them. -/
def joinTexts (sep : Separator) (a b : String) : String := a ++ String.singleton sep.char ++ b

theorem toList_joinTexts (sep : Separator) (a b : String) :
    (joinTexts sep a b).toList = a.toList ++ sep.char :: b.toList := by
  simp [joinTexts]

/-- A reader takes two texts with a separator between them just if it takes both of them, and for
their expressions put together, negated as the first one is. -/
structure Joins (read : String → Except QueryError Expr) (a b : String) : Prop where
  accepts : ∀ sep, (∃ e, read (joinTexts sep a b) = .ok e) ↔
    (∃ e, read a = .ok e) ∧ ∃ f, read b = .ok f
  expression : ∀ sep e f, read a = .ok e → read b = .ok f → ∃ rows,
    RowsJoined sep e.rows f.rows rows ∧ read (joinTexts sep a b) = .ok ⟨e.negate, rows⟩

/-- What is read has the form in every segment; the whole is then not blank either. -/
theorem TermForm.Describes.accepts_iff {form : TermForm} {input : String} {negate : Bool}
    {b : List Char} {r : Except QueryError Expr} (h : form.Describes input negate b r)
    (hblank : ¬ form.Fits []) : (∃ e, r = .ok e) ↔ ∀ t ∈ segmentsOf b, form.Fits t := by
  refine h.accepts.trans ⟨fun hb => hb.2, fun hall => ⟨fun hb => ?_, hall⟩⟩
  have hsolid : Solid b := solid_of_isBlank (Text.trim_eq_nil_iff.1 hb)
  refine hblank (hall [] ?_)
  rw [segmentsOf_of_solid hsolid, hb]
  simp

/-- A reader that follows a form of terms puts expressions together. -/
theorem joins_of_describes {form : TermForm} {read : String → Except QueryError Expr}
    (h : ∀ input, form.Describes input (body input.toList).1 (body input.toList).2 (read input))
    (hblank : ¬ form.Fits []) {a b : String} (hb : b.toList.find? (!isBlank ·) ≠ some '!') :
    Joins read a b := by
  obtain ⟨-, hcells⟩ := body_of_no_bang hb
  have hsegments : segmentsOf (body b.toList).2 = segmentsOf b.toList := by
    rw [← flatten_cells, ← flatten_cells, hcells]
  have haccepts : ∀ sep, (∃ e, read (joinTexts sep a b) = .ok e) ↔
      (∃ e, read a = .ok e) ∧ ∃ f, read b = .ok f := by
    intro sep
    rw [(h _).accepts_iff hblank, (h a).accepts_iff hblank, (h b).accepts_iff hblank,
      toList_joinTexts, body_joined, segmentsOf_joined, List.forall_mem_append, hsegments]
  refine ⟨haccepts, fun sep e f he hf => ?_⟩
  obtain ⟨g, hg⟩ := (haccepts sep).2 ⟨⟨e, he⟩, f, hf⟩
  obtain ⟨hnegate, hrows⟩ := (h _).expression g hg
  obtain ⟨hnegate₁, hrows₁⟩ := (h a).expression e he
  obtain ⟨-, hrows₂⟩ := (h b).expression f hf
  rw [toList_joinTexts, body_joined] at hnegate hrows
  rw [hcells] at hrows₂
  refine ⟨g.rows, ?_, ?_⟩
  · rw [hrows, hrows₁, hrows₂]
    exact (rowsJoined_cells sep _ _).map form.term
  · rw [hg, hnegate₁, ← hnegate]

/-- Texts with a separator between them, the second of which does not open with a `!`, are read
just if both are, as their expressions put together: at an `&` the rows follow each other, and at
a `|` the last row of the first goes on with the first row of the second. It is so for whole terms,
and for the values of any field with a known operator. -/
theorem parse_joined {a b : String} (hb : b.toList.find? (!isBlank ·) ≠ some '!') :
    Joins parse a b ∧
      ∀ field operator, operator ∈ operators → Joins (parseValues field operator) a b :=
  ⟨joins_of_describes describes_parse (fun h => h.1 rfl) hb, fun field _ hknown =>
    joins_of_describes (describes_parseValues hknown field) (fun h => h rfl) hb⟩

/-- Two rows, negated. -/
def opening : String := " ! flag-equals-a & qa-regexp-b "

/-- Two rows, with a `!` that opens a value. -/
def continuation : String := "cc-equals-!c&url-regexp-"

theorem parse_joined_continuation :
    continuation.toList.find? (!isBlank ·) ≠ some '!' ∧ "equals" ∈ operators ∧
    (∃ rows, RowsJoined .column
        [[⟨.verbatim "flag", "equals", "a"⟩], [⟨.verbatim "qa", "regexp", "b"⟩]]
        [[⟨.verbatim "cc", "equals", "!c"⟩], [⟨.verbatim "url", "regexp", ""⟩]] rows ∧
      parse (joinTexts .column opening continuation) = .ok ⟨true, rows⟩) ∧
    Joins (parseValues "flag" "equals") opening continuation := by
  have hb : continuation.toList.find? (!isBlank ·) ≠ some '!' := by decide
  have hknown : "equals" ∈ operators := by decide
  obtain ⟨hwhole, hvalues⟩ := parse_joined hb
  exact ⟨hb, hknown, hwhole.expression .column _ _ (by rfl) (by rfl),
    hvalues "flag" "equals" hknown⟩

end BugQuery.Expr
