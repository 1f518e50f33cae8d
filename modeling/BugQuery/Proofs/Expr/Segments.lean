import BugQuery.Proofs.Expr.Cells
import Mathlib.Data.List.DropRight

/-!
# Where the segments of a text stand

A segment is what stands between two neighbouring separators, or between one
of them and an end of the text. The separators before it give its row and its
column: every `&` starts a row, and columns are counted by the `|` since. At
that place the cells of the text have the segment, trimmed, and they have
nothing else.

* `Segment`, `segment_joined`: segments, and those of a text that goes on after a separator.
* `columnNumber_concat`: columns are counted up at a `|` and from 0 again after an `&`.
* `cell?_eq_some`: the cell at a row and a column is the segment with these numbers.
* `length_segmentsOf`: there is one segment more than there are separators.
-/
namespace BugQuery.Expr

open Text (trim)

/-- `s` is a segment of `b`, with `before` and `after` around it. -/
structure Segment (b before s after : List Char) : Prop where
  text : b = before ++ (s ++ after)
  solid : Solid s
  opens : ∀ c ∈ before.getLast?, isSeparator c = true
  closes : ∀ c ∈ after.head?, isSeparator c = true

/-- The row of a segment after the text `before`: rows start at every `&`. -/
def rowNumber (before : List Char) : Nat := before.count '&'

/-- Its column: the number of `|` in its row, which is what follows the last `&`. -/
def columnNumber (before : List Char) : Nat := (before.rtakeWhile (· ≠ '&')).count '|'

/-! ## Segments -/

/-- What ends in a separator, if it does not end at once, has one. -/
theorem eq_nil_of_opens {before : List Char} (hs : Solid before)
    (h : ∀ c ∈ before.getLast?, isSeparator c = true) : before = [] := by
  refine List.getLast?_eq_none_iff.1 (Option.eq_none_iff_forall_ne_some.2 fun c hc => ?_)
  have hno := not_isSeparator_of_solid hs c (List.mem_of_getLast? hc)
  rw [h c hc] at hno
  cases hno

/-- The first segment ends at the first separator. -/
theorem eq_of_append_closed {s t u v : List Char} (hs : Solid s) (ht : Solid t)
    (hu : ∀ c ∈ u.head?, isSeparator c = true) (hv : ∀ c ∈ v.head?, isSeparator c = true)
    (h : s ++ u = t ++ v) : s = t ∧ u = v := by
  have hstop : ∀ w x : List Char, Solid w → (∀ c ∈ x.head?, isSeparator c = true) →
      (w ++ x).takeWhile (!isSeparator ·) = w := by
    intro w x hw hx
    rw [List.takeWhile_append_of_pos fun c hc => by simp [not_isSeparator_of_solid hw c hc]]
    cases x with
    | nil => simp
    | cons c x => rw [List.takeWhile_cons_of_neg (by simp [hx c rfl]), List.append_nil]
  have hst : s = t := by rw [← hstop s u hs hu, h, hstop t v ht hv]
  rw [hst] at h
  exact ⟨hst, List.append_cancel_left h⟩

theorem solid_of_append_left {s t : List Char} (h : Solid (s ++ t)) : Solid s :=
  ⟨fun hm => h.1 (List.mem_append_left t hm), fun hm => h.2 (List.mem_append_left t hm)⟩

/-- A text without separators is its own and only segment. -/
theorem segment_of_solid {b before s after : List Char} (hb : Solid b) :
    Segment b before s after ↔ before = [] ∧ s = b ∧ after = [] := by
  constructor
  · intro h
    have hnil : before = [] := eq_nil_of_opens (solid_of_append_left (h.text ▸ hb)) h.opens
    have htext : b ++ [] = s ++ after := by rw [List.append_nil, h.text, hnil, List.nil_append]
    obtain ⟨hs, hafter⟩ := eq_of_append_closed hb h.solid (by simp) h.closes htext
    exact ⟨hnil, hs.symm, hafter.symm⟩
  · rintro ⟨rfl, rfl, rfl⟩
    exact ⟨by simp, hb, by simp, by simp⟩

/-- After its first separator, a text has the segments of what follows. -/
theorem segment_joined {w t before s after : List Char} {sep : Separator} (hw : Solid w) :
    Segment (w ++ sep.char :: t) before s after ↔
      (before = [] ∧ s = w ∧ after = sep.char :: t) ∨
        ∃ u, before = w ++ sep.char :: u ∧ Segment t u s after := by
  have hsep : ∀ c ∈ (sep.char :: t).head?, isSeparator c = true := by
    simpa using isSeparator_char sep
  constructor
  · intro h
    have hfirst : before = [] → before = [] ∧ s = w ∧ after = sep.char :: t := fun hnil => by
      obtain ⟨hs, hafter⟩ := eq_of_append_closed hw h.solid hsep h.closes
        (by rw [h.text, hnil, List.nil_append])
      exact ⟨hnil, hs.symm, hafter.symm⟩
    rcases List.append_eq_append_iff.1 h.text with ⟨u, hbefore, hrest⟩ | ⟨u, hbefore, -⟩
    · cases u with
      | nil => exact .inl (hfirst (eq_nil_of_opens (by simpa [hbefore] using hw) h.opens))
      | cons c u =>
        obtain ⟨rfl, ht⟩ := List.cons.inj hrest
        refine .inr ⟨u, hbefore, ht, h.solid, fun c hc => h.opens c ?_, h.closes⟩
        obtain ⟨init, rfl⟩ := List.getLast?_eq_some_iff.1 hc
        rw [hbefore, ← List.cons_append, ← List.append_assoc, List.getLast?_concat]
        rfl
    · exact .inl (hfirst (eq_nil_of_opens (solid_of_append_left (hbefore ▸ hw)) h.opens))
  · intro hcases
    rcases hcases with ⟨rfl, rfl, rfl⟩ | ⟨u, rfl, h⟩
    · exact ⟨by simp, hw, by simp, hsep⟩
    · refine ⟨by simp [h.text], h.solid, fun c hc => ?_, h.closes⟩
      cases u with
      | nil =>
        obtain rfl : sep.char = c := by simpa using hc
        exact isSeparator_char sep
      | cons d u => exact h.opens c (by simpa [List.getLast?_append] using hc)

/-! ## Their numbers -/

theorem rowNumber_joined {w : List Char} (hw : Solid w) (sep : Separator) (u : List Char) :
    rowNumber (w ++ sep.char :: u) = rowNumber u + if sep = .row then 1 else 0 := by
  rw [rowNumber, List.count_append, List.count_eq_zero.2 hw.1, Nat.zero_add, List.count_cons]
  cases sep <;> rfl

/-- Columns are counted up at a `|`, and from 0 again after an `&`. -/
theorem columnNumber_concat (u : List Char) (c : Char) : columnNumber (u ++ [c]) =
    if c = '&' then 0 else columnNumber u + if c = '|' then 1 else 0 := by
  unfold columnNumber
  rw [List.rtakeWhile_concat]
  by_cases h : c = '&'
  · simp [h]
  · by_cases h' : c = '|' <;> simp [h, h']

theorem columnNumber_of_solid {w : List Char} (hw : Solid w) : columnNumber w = 0 :=
  List.count_eq_zero.2 fun hm => hw.2 ((List.rtakeWhile_suffix _ w).subset hm)

/-- A `|` counts until the next `&`, and what stands before an `&` does not count. -/
theorem columnNumber_joined {w : List Char} (hw : Solid w) (sep : Separator) (u : List Char) :
    columnNumber (w ++ sep.char :: u) =
      columnNumber u + if sep = .column ∧ rowNumber u = 0 then 1 else 0 := by
  induction u using List.reverseRecOn with
  | nil =>
    rw [columnNumber_concat, columnNumber_of_solid hw]
    cases sep <;> rfl
  | append_singleton u c ih =>
    rw [← List.cons_append, ← List.append_assoc, columnNumber_concat, columnNumber_concat, ih]
    by_cases h : c = '&'
    · simp [h, rowNumber]
    · have hrow : rowNumber (u ++ [c]) = rowNumber u := by simp [rowNumber, h]
      rw [if_neg h, if_neg h, hrow]
      omega

/-! ## Cells -/

/-- The cell of a text at a row and a column. -/
def cell? (b : List Char) (r k : Nat) : Option (List Char) := (cells b)[r]?.bind (·[k]?)

/-- In front of the cells of what follows a separator stands one more, in a row of its own or in
their first row. -/
theorem cell?_joined {w t x : List Char} {sep : Separator} (hw : Solid w) {r k : Nat} :
    cell? (w ++ sep.char :: t) r k = some x ↔ (r = 0 ∧ k = 0 ∧ trim w = x) ∨
      ∃ r' k', cell? t r' k' = some x ∧ r' + (if sep = .row then 1 else 0) = r ∧
        k' + (if sep = .column ∧ r' = 0 then 1 else 0) = k := by
  cases sep with
  | row =>
    rw [cell?, Separator.char, cells_row, cells_of_solid hw]
    cases r with
    | zero => cases k <;> simp
    | succ r => simp [cell?]
  | column =>
    obtain ⟨row, rows, hrows⟩ := List.exists_cons_of_ne_nil (cells_ne_nil t)
    rw [cell?, Separator.char, cells_column hw]
    simp only [cell?, hrows, List.modifyHead_cons]
    cases r with
    | zero =>
      cases k with
      | zero => simp
      | succ k => simp
    | succ r => simp

/-- The cell at a row and a column is the segment that has these numbers, trimmed. -/
theorem cell?_eq_some {b x : List Char} {r k : Nat} :
    cell? b r k = some x ↔ ∃ before s after, Segment b before s after ∧
      rowNumber before = r ∧ columnNumber before = k ∧ trim s = x := by
  induction b using separated_induction generalizing r k with
  | solid b hb =>
    have hcell : cell? b r k = some x ↔ r = 0 ∧ k = 0 ∧ trim b = x := by
      rw [cell?, cells_of_solid hb]
      cases r <;> cases k <;> simp
    simp only [hcell, segment_of_solid hb]
    constructor
    · rintro ⟨rfl, rfl, rfl⟩
      exact ⟨[], b, [], ⟨rfl, rfl, rfl⟩, rfl, rfl, rfl⟩
    · rintro ⟨before, s, after, ⟨rfl, rfl, rfl⟩, rfl, rfl, rfl⟩
      exact ⟨rfl, rfl, rfl⟩
  | joined w sep t hw ih =>
    simp only [cell?_joined hw, segment_joined hw, ih]
    constructor
    · rintro (⟨rfl, rfl, rfl⟩ | ⟨r', k', ⟨u, s, after, h, rfl, rfl, rfl⟩, rfl, rfl⟩)
      · exact ⟨[], w, sep.char :: t, .inl ⟨rfl, rfl, rfl⟩, rfl, rfl, rfl⟩
      · exact ⟨_, s, after, .inr ⟨u, rfl, h⟩, rowNumber_joined hw sep u,
          columnNumber_joined hw sep u, rfl⟩
    · rintro ⟨before, s, after, ⟨rfl, rfl, rfl⟩ | ⟨u, rfl, h⟩, rfl, rfl, rfl⟩
      · exact .inl ⟨rfl, rfl, rfl⟩
      · exact .inr ⟨_, _, ⟨u, s, after, h, rfl, rfl, rfl⟩, (rowNumber_joined hw sep u).symm,
          (columnNumber_joined hw sep u).symm⟩

/-- There is one segment more than there are separators. -/
theorem length_segmentsOf (b : List Char) :
    (segmentsOf b).length = 1 + b.count '&' + b.count '|' := by
  induction b using separated_induction with
  | solid b hb =>
    rw [segmentsOf_of_solid hb, List.count_eq_zero.2 hb.1, List.count_eq_zero.2 hb.2]
    rfl
  | joined w sep t hw ih =>
    rw [segmentsOf_joined, List.length_append, ih, segmentsOf_of_solid hw, List.count_append,
      List.count_append, List.count_eq_zero.2 hw.1, List.count_eq_zero.2 hw.2,
      List.length_singleton]
    cases sep <;> simp [Separator.char] <;> omega

end BugQuery.Expr
