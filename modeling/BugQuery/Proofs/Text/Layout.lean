import BugQuery.Proofs.Text.Entries

/-!
# Texts with an entry a line

A file of entries may be laid out in many ways: blanks may stand around an
entry, blank lines may stand anywhere, a line may end in a line feed with or
without a carriage return before it, and the last one may have no end at all.
Reading the entries undoes every layout, and every text is a layout of the
entries read from it.

* `Layout`: the texts that lay out a list of entries.
* `entries_of_layout`: the entries of such a text are those of the list.
* `layout_entries`: a text lays out its entries.
-/
namespace BugQuery.Text

/-- How a line ends. -/
inductive LineEnd : List Char → Prop where
  | lf : LineEnd ['\n']
  | crlf : LineEnd ['\r', '\n']

/-- The text has the entries `xs`, one a line. -/
inductive Layout : List (List Char) → List Char → Prop where
  /-- nothing, or blanks in a last line -/
  | nil {w : List Char} (hw : Margin '\n' w) : Layout [] w
  /-- an entry in a last line -/
  | last {w x w' : List Char} (hw : Margin '\n' w) (hw' : Margin '\n' w') :
    Layout [x] (w ++ (x ++ w'))
  | blank {xs : List (List Char)} {w e s : List Char} (hw : Margin '\n' w) (he : LineEnd e)
      (h : Layout xs s) : Layout xs (w ++ (e ++ s))
  | entry {x : List Char} {xs : List (List Char)} {w w' e s : List Char} (hw : Margin '\n' w)
      (hw' : Margin '\n' w') (he : LineEnd e) (h : Layout xs s) :
      Layout (x :: xs) (w ++ (x ++ (w' ++ (e ++ s))))

variable {w w' e : List Char}

/-- A line end is a line feed after a margin. -/
theorem LineEnd.exists_margin (he : LineEnd e) : ∃ w, Margin '\n' w ∧ e = w ++ ['\n'] := by
  cases he with
  | lf => exact ⟨[], by simp [Margin], rfl⟩
  | crlf =>
    refine ⟨['\r'], fun c hc => ?_, rfl⟩
    obtain rfl := List.mem_singleton.1 hc
    decide

/-! ## Entries of a layout -/

theorem entries_of_margin (hw : Margin '\n' w) : entries '\n' w = [] :=
  entries_eq_nil_iff.2 fun c hc _ => (hw c hc).1

/-- An entry within margins is read as such. -/
theorem entries_of_entry (hw : Margin '\n' w) (hw' : Margin '\n' w') {x : List Char}
    (hx : Trimmed x) (hne : x ≠ []) (hlf : '\n' ∉ x) : entries '\n' (w ++ (x ++ w')) = [x] := by
  rw [entries_margin_append hw, entries_append_margin hw', entries_of_not_mem hlf, trim_eq_self hx,
    if_neg hne]

/-- The end of a line ends an entry, and blanks before it do not count. -/
theorem entries_append_lineEnd (he : LineEnd e) (s t : List Char) :
    entries '\n' (s ++ (e ++ t)) = entries '\n' s ++ entries '\n' t := by
  obtain ⟨w, hw, rfl⟩ := he.exists_margin
  have hsplit : s ++ (w ++ ['\n'] ++ t) = (s ++ w) ++ '\n' :: t := by simp
  rw [hsplit, entries_append_sep, entries_append_margin hw]

theorem entries_of_layout {xs : List (List Char)} {s : List Char}
    (hxs : ∀ x ∈ xs, x ≠ [] ∧ Trimmed x ∧ '\n' ∉ x) (h : Layout xs s) : entries '\n' s = xs := by
  induction h with
  | nil hw => exact entries_of_margin hw
  | @last w x w' hw hw' =>
    obtain ⟨hne, hx, hlf⟩ := hxs x (by simp)
    exact entries_of_entry hw hw' hx hne hlf
  | blank hw he _ ih =>
    rw [entries_append_lineEnd he, entries_of_margin hw, ih hxs, List.nil_append]
  | @entry x xs w w' e s hw hw' he _ ih =>
    obtain ⟨⟨hne, hx, hlf⟩, hxs⟩ := List.forall_mem_cons.1 hxs
    have hline : w ++ (x ++ (w' ++ (e ++ s))) = (w ++ (x ++ w')) ++ (e ++ s) := by simp
    rw [hline, entries_append_lineEnd he, entries_of_entry hw hw' hx hne hlf, ih hxs]
    rfl

/-! ## The layout of a text -/

/-- A line is blank, or it is an entry within margins. -/
theorem line_cases {s : List Char} (hs : '\n' ∉ s) :
    (Margin '\n' s ∧ entries '\n' s = []) ∨ ∃ w x w', Margin '\n' w ∧ Margin '\n' w' ∧
      s = w ++ (x ++ w') ∧ entries '\n' s = [x] := by
  rw [entries_of_not_mem hs]
  by_cases hblank : trim s = []
  · exact .inl ⟨margin_of_not_mem (trim_eq_nil_iff.1 hblank) hs, if_pos hblank⟩
  · obtain ⟨w, w', hw, hw', htrim⟩ := exists_trim_between s
    have hmargin : ∀ {u : List Char}, u ⊆ s → (∀ c ∈ u, isBlank c = true) → Margin '\n' u :=
      fun hsub hu => margin_of_not_mem hu fun h => hs (hsub h)
    refine .inr ⟨w, trim s, w', hmargin ?_ hw, hmargin ?_ hw', htrim, if_neg hblank⟩
    · exact fun c hc => htrim ▸ List.mem_append_left _ hc
    · exact fun c hc => htrim ▸ List.mem_append_right _ (List.mem_append_right _ hc)

/-- Every text lays out its entries. -/
theorem layout_entries (s : List Char) : Layout (entries '\n' s) s := by
  induction s using cut_induction '\n' with
  | solid s hs =>
    obtain ⟨hmargin, hnone⟩ | ⟨w, x, w', hw, hw', rfl, hone⟩ := line_cases hs
    · rw [hnone]
      exact .nil hmargin
    · rw [hone]
      exact .last hw hw'
  | joined s t hs ih =>
    rw [entries_append_sep]
    obtain ⟨hmargin, hnone⟩ | ⟨w, x, w', hw, hw', rfl, hone⟩ := line_cases hs
    · rw [hnone, List.nil_append]
      exact .blank hmargin .lf ih
    · rw [hone, List.append_assoc, List.append_assoc]
      exact .entry hw hw' .lf ih

end BugQuery.Text
