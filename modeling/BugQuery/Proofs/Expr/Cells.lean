import BugQuery.Expr.Reader
import BugQuery.Proofs.Text.Entries

/-!
# The cells of an expression's text

Cut at every `&`, a text falls into rows, and a row, cut at every `|`, into
cells. Reading goes through a chain of segments instead, from the left and
with no separator binding stronger than the other; the two give the same
rows, and the segments are the cells, row after row.

* `rows_segments`, `toList_segments`: the chain of a text, by rows and in order.
* `flatten_cells`: the segments of a text are its cells.
* `separated_induction`: a text has no separator, or it goes on after its first one.
* `cells_row`, `cells_column`: the cells of a text that goes on after a separator.
* `cells_joinCells`: cells that are written out with separators are the cells of that text.
-/
namespace BugQuery.Expr

open Text (trim)

def isSeparator (c : Char) : Bool := c = '&' || c = '|'

/-- A text without separators. -/
def Solid (s : List Char) : Prop := '&' ∉ s ∧ '|' ∉ s

/-- What stands between the separators of a text, in order and trimmed. -/
def segmentsOf (s : List Char) : List (List Char) := (s.splitOnP isSeparator).map trim

/-- The text cut into rows at every `&`, the rows cut at every `|`, and the parts trimmed. -/
def cells (s : List Char) : List (List (List Char)) :=
  (s.splitOn '&').map fun row => (row.splitOn '|').map trim

/-! ## Chains and cells -/

theorem ofChar?_eq_none {c : Char} : Separator.ofChar? c = none ↔ c ≠ '&' ∧ c ≠ '|' := by
  unfold Separator.ofChar?
  by_cases h1 : c = '&' <;> by_cases h2 : c = '|' <;> simp [h1, h2]

theorem segments_row (s : List Char) :
    Chain.segments ('&' :: s) = Chain.cons [] .row (Chain.segments s) := rfl

theorem segments_column (s : List Char) :
    Chain.segments ('|' :: s) = Chain.cons [] .column (Chain.segments s) := rfl

theorem segments_of_ne {c : Char} (h1 : c ≠ '&') (h2 : c ≠ '|') (s : List Char) :
    Chain.segments (c :: s) = ⟨c :: (Chain.segments s).head, (Chain.segments s).tail⟩ := by
  rw [Chain.segments, ofChar?_eq_none.2 ⟨h1, h2⟩]

theorem toList_segments (s : List Char) :
    (Chain.segments s).toList = s.splitOnP isSeparator := by
  induction s with
  | nil => rfl
  | cons c s ih =>
    rw [List.splitOnP_cons_eq_if_modifyHead, ← ih]
    by_cases h1 : c = '&'
    · subst h1
      rw [segments_row]
      rfl
    · by_cases h2 : c = '|'
      · subst h2
        rw [segments_column]
        rfl
      · rw [segments_of_ne h1 h2]
        simp [isSeparator, h1, h2, Chain.toList]

/-- What is done to the first value of a chain is done to the first value of its first row. -/
theorem rowsFrom_modify {α : Type} (f : α → α) (x : α) (xs : List (Separator × α)) :
    Chain.rowsFrom (f x) xs = (Chain.rowsFrom x xs).modifyHead (List.modifyHead f) := by
  cases xs with
  | nil => rfl
  | cons y ys =>
    obtain ⟨sep, y⟩ := y
    cases sep with
    | row => rfl
    | column =>
      obtain ⟨r, rs, hy, hx⟩ := Chain.rowsFrom_column x y ys
      rw [hx, Chain.rowsFrom, hy]
      rfl

theorem splitOn_self (c : Char) (s : List Char) : (c :: s).splitOn c = [] :: s.splitOn c := by
  rw [List.splitOn_cons_eq_if_modifyHead, if_pos (by simp)]

theorem splitOn_of_ne {c d : Char} (h : d ≠ c) (s : List Char) :
    (d :: s).splitOn c = (s.splitOn c).modifyHead (List.cons d) := by
  rw [List.splitOn_cons_eq_if_modifyHead, if_neg (by simpa using h)]

/-- A chain has the rows that two nested cuts have. -/
theorem rows_segments (s : List Char) :
    (Chain.segments s).rows = (s.splitOn '&').map (·.splitOn '|') := by
  induction s with
  | nil => rfl
  | cons c s ih =>
    obtain ⟨row, rows, hrows⟩ := List.exists_cons_of_ne_nil (List.splitOn_ne_nil '&' s)
    by_cases h1 : c = '&'
    · subst h1
      rw [splitOn_self, List.map_cons, ← ih, segments_row]
      rfl
    · rw [splitOn_of_ne h1, hrows, List.modifyHead_cons, List.map_cons]
      rw [hrows, List.map_cons] at ih
      by_cases h2 : c = '|'
      · subst h2
        rw [splitOn_self, segments_column, Chain.rows, Chain.cons, Chain.rowsFrom]
        rw [Chain.rows] at ih
        rw [ih]
      · rw [splitOn_of_ne h2, segments_of_ne h1 h2, Chain.rows, rowsFrom_modify]
        rw [Chain.rows] at ih
        rw [ih]
        rfl

theorem flatten_cells (s : List Char) : (cells s).flatten = segmentsOf s := by
  have hrows : (s.splitOn '&').map (fun row => (row.splitOn '|').map trim) =
      ((s.splitOn '&').map (·.splitOn '|')).map (List.map trim) := by
    rw [List.map_map]
    rfl
  rw [cells, hrows, ← rows_segments, ← List.map_flatten, Chain.flatten_rows, toList_segments,
    segmentsOf]

/-! ## Texts by their first separator -/

theorem exists_separator {c : Char} (h : isSeparator c = true) :
    ∃ sep : Separator, c = sep.char := by
  rcases Bool.or_eq_true _ _ ▸ h with hrow | hcolumn
  · exact ⟨.row, of_decide_eq_true hrow⟩
  · exact ⟨.column, of_decide_eq_true hcolumn⟩

theorem isSeparator_char (sep : Separator) : isSeparator sep.char = true := by cases sep <;> rfl

/-- A text has no separator, or it goes on after its first one. -/
theorem separated_induction {P : List Char → Prop} (solid : ∀ s, Solid s → P s)
    (joined : ∀ s (sep : Separator) t, Solid s → P t → P (s ++ sep.char :: t)) (b : List Char) :
    P b := by
  have hsolid : ∀ s : List Char, (∀ c ∈ s, isSeparator c = false) → Solid s := fun s h =>
    ⟨fun hs => absurd (h _ hs) (by decide), fun hs => absurd (h _ hs) (by decide)⟩
  induction b using Text.parted_induction isSeparator with
  | solid s hs => exact solid s (hsolid s hs)
  | joined s c t hs hc ih =>
    obtain ⟨sep, rfl⟩ := exists_separator hc
    exact joined s sep t (hsolid s hs) ih

theorem not_isSeparator_of_solid {s : List Char} (h : Solid s) :
    ∀ c ∈ s, isSeparator c = false := by
  intro c hc
  refine Bool.eq_false_iff.2 fun hsep => ?_
  obtain ⟨sep, rfl⟩ := exists_separator hsep
  cases sep with
  | row => exact h.1 hc
  | column => exact h.2 hc

theorem segmentsOf_of_solid {s : List Char} (h : Solid s) : segmentsOf s = [trim s] := by
  rw [segmentsOf, List.splitOnP_eq_singleton (not_isSeparator_of_solid h)]
  rfl

theorem segmentsOf_joined (sep : Separator) (s t : List Char) :
    segmentsOf (s ++ sep.char :: t) = segmentsOf s ++ segmentsOf t := by
  rw [segmentsOf, List.splitOnP_append_cons s t (isSeparator_char sep), List.map_append]
  rfl

/-! ## Cells of longer texts -/

theorem cells_ne_nil (s : List Char) : cells s ≠ [] := by
  simp [cells, List.splitOn_ne_nil]

theorem ne_nil_of_mem_cells {s : List Char} {row : List (List Char)} (h : row ∈ cells s) :
    row ≠ [] := by
  obtain ⟨r, -, rfl⟩ := List.mem_map.1 h
  simp [List.splitOn_ne_nil]

theorem cells_of_solid {s : List Char} (h : Solid s) : cells s = [[trim s]] := by
  rw [cells, List.splitOn_eq_singleton h.1, List.map_singleton, List.splitOn_eq_singleton h.2,
    List.map_singleton]

/-- After an `&` the cells are those of a text of its own. -/
theorem cells_row (s t : List Char) : cells (s ++ '&' :: t) = cells s ++ cells t := by
  rw [cells, List.splitOn_append_cons_self, List.map_append]
  rfl

theorem cells_cons_of_isBlank {c : Char} (h : Text.isBlank c = true) (s : List Char) :
    cells (c :: s) = cells s := by
  have h1 : c ≠ '&' := by rintro rfl; revert h; decide
  have h2 : c ≠ '|' := by rintro rfl; revert h; decide
  obtain ⟨row, rows, hrows⟩ := List.exists_cons_of_ne_nil (List.splitOn_ne_nil '&' s)
  obtain ⟨p, ps, hp⟩ := List.exists_cons_of_ne_nil (List.splitOn_ne_nil '|' row)
  rw [cells, cells, splitOn_of_ne h1, hrows, List.modifyHead_cons, List.map_cons, List.map_cons,
    splitOn_of_ne h2, hp, List.modifyHead_cons, List.map_cons, List.map_cons,
    Text.trim_cons_of_isBlank h]

/-- After a `|` the first row goes on. -/
theorem cells_column {s : List Char} (h : Solid s) (t : List Char) :
    cells (s ++ '|' :: t) = (cells t).modifyHead (trim s :: ·) := by
  have hrows : ∀ u : List Char, '&' ∉ u →
      (u ++ '|' :: t).splitOn '&' = (t.splitOn '&').modifyHead (u ++ '|' :: ·) := by
    intro u hu
    induction u with
    | nil => exact splitOn_of_ne (by decide) t
    | cons c u ih =>
      rw [List.mem_cons, not_or] at hu
      rw [List.cons_append, splitOn_of_ne (Ne.symm hu.1), ih hu.2, List.modifyHead_modifyHead]
      rfl
  obtain ⟨row, rows, hrow⟩ := List.exists_cons_of_ne_nil (List.splitOn_ne_nil '&' t)
  rw [cells, cells, hrows s h.1, hrow, List.modifyHead_cons, List.map_cons, List.map_cons,
    List.splitOn_append_cons_self_of_not_mem h.2, List.map_cons, List.modifyHead_cons]

/-! ## Written cells -/

/-- Rows of cells as a text. -/
def joinCells (rows : List (List (List Char))) : List Char :=
  [' ', '&', ' '].intercalate (rows.map [' ', '|', ' '].intercalate)

theorem solid_append {s t : List Char} (hs : Solid s) (ht : Solid t) : Solid (s ++ t) := by
  simp only [Solid, List.mem_append, not_or]
  exact ⟨⟨hs.1, ht.1⟩, hs.2, ht.2⟩

theorem solid_of_isBlank {w : List Char} (h : ∀ c ∈ w, Text.isBlank c = true) : Solid w :=
  ⟨fun hc => absurd (h _ hc) (by decide), fun hc => absurd (h _ hc) (by decide)⟩

theorem solid_trim_append {s w : List Char} (hs : Solid s) (ht : Text.Trimmed s)
    (hw : ∀ c ∈ w, Text.isBlank c = true) :
    Solid (s ++ w) ∧ trim (s ++ w) = s := by
  refine ⟨solid_append hs (solid_of_isBlank hw), ?_⟩
  rw [Text.trim_append_of_isBlank hw, Text.trim_eq_self ht]

theorem forall_isBlank_space : ∀ c ∈ [' '], Text.isBlank c = true :=
  List.forall_mem_singleton.2 (by decide)

/-- A row that is written out, with blanks after it, is read as that row. -/
theorem cells_joinRow {w : List Char} (hw : ∀ c ∈ w, Text.isBlank c = true)
    {row : List (List Char)} (x : List Char) (h : ∀ s ∈ x :: row, Solid s ∧ Text.Trimmed s) :
    cells ([' ', '|', ' '].intercalate (x :: row) ++ w) = [x :: row] := by
  induction row generalizing x with
  | nil =>
    obtain ⟨hs, ht⟩ := h x (by simp)
    obtain ⟨hsolid, htrim⟩ := solid_trim_append hs ht hw
    rw [List.intercalate_singleton, cells_of_solid hsolid, htrim]
  | cons y row ih =>
    rw [List.forall_mem_cons] at h
    obtain ⟨hsolid, htrim⟩ := solid_trim_append h.1.1 h.1.2 forall_isBlank_space
    have htext : [' ', '|', ' '].intercalate (x :: y :: row) ++ w =
        (x ++ [' ']) ++ '|' :: ' ' :: ([' ', '|', ' '].intercalate (y :: row) ++ w) := by
      rw [List.intercalate_cons_cons]
      simp
    rw [htext, cells_column hsolid, cells_cons_of_isBlank (by decide), ih y h.2, htrim]
    rfl

/-- Rows of cells that are written out are read as those rows. -/
theorem cells_joinCells {rows : List (List (List Char))} (hne : rows ≠ [])
    (hrow : ∀ row ∈ rows, row ≠ []) (h : ∀ s ∈ rows.flatten, Solid s ∧ Text.Trimmed s) :
    cells (joinCells rows) = rows := by
  induction rows with
  | nil => exact absurd rfl hne
  | cons row rows ih =>
    rw [List.forall_mem_cons] at hrow
    rw [List.flatten_cons, List.forall_mem_append] at h
    obtain ⟨x, row, rfl⟩ := List.exists_cons_of_ne_nil hrow.1
    cases rows with
    | nil =>
      have hread := cells_joinRow (w := []) (by simp) x h.1
      rw [List.append_nil] at hread
      rw [joinCells, List.map_singleton, List.intercalate_singleton, hread]
    | cons next rows =>
      have hrest := ih (by simp) hrow.2 h.2
      have htext : joinCells ((x :: row) :: next :: rows) =
          ([' ', '|', ' '].intercalate (x :: row) ++ [' ']) ++
            '&' :: ' ' :: joinCells (next :: rows) := by
        rw [joinCells, List.map_cons, List.map_cons, List.intercalate_cons_cons]
        simp [joinCells]
      rw [htext, cells_row, cells_joinRow forall_isBlank_space x h.1, cells_cons_of_isBlank (by decide),
        hrest]
      rfl

end BugQuery.Expr
