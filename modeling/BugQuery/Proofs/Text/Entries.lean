import BugQuery.Proofs.Text.Trim

/-!
# The entries of separated texts

The pieces of a text are those of `List.splitOn`, so that cutting commutes
with putting texts together by the separator. The entries are the pieces that
are not blank, trimmed, and an entry has no other entry than itself.

* `pieces_eq_splitOn`: the pieces are those of `List.splitOn`.
* `entries_intercalate`: texts put together have the entries that each of them has, in order.
* `entries_eq_nil_iff`: a text has no entry just if it holds nothing but blanks and separators.
* `flatMap_entries_entries`: the entries of entries are these.
* `parted_induction`, `cut_induction`: a text has no separator, or it goes on after the first one.
* `entries_trim`: blanks at the ends of a text do not count.
-/
namespace BugQuery.Text

variable {sep : Char}

theorem pieces_eq_splitOn (sep : Char) : ∀ s : List Char, pieces sep s = s.splitOn sep
  | [] => (List.splitOn_nil sep).symm
  | c :: s => by
    have ih := pieces_eq_splitOn sep s
    rw [List.splitOn_cons_eq_if_modifyHead, ← ih]
    by_cases hc : c = sep
    · rw [hc, pieces_cons_sep, if_pos (beq_self_eq_true sep)]
    · obtain ⟨p, ps, hp⟩ := List.exists_cons_of_ne_nil (pieces_ne_nil sep s)
      rw [pieces_cons_of_ne hc hp, if_neg (by simpa using hc), hp, List.modifyHead_cons]

theorem pieces_append_sep (sep : Char) (s t : List Char) :
    pieces sep (s ++ sep :: t) = pieces sep s ++ pieces sep t := by
  simp only [pieces_eq_splitOn, List.splitOn_eq_splitOnP]
  exact List.splitOnP_append_cons s t (beq_self_eq_true sep)

theorem entries_append_sep (s t : List Char) :
    entries sep (s ++ sep :: t) = entries sep s ++ entries sep t := by
  rw [entries, pieces_append_sep, List.map_append, List.filter_append]
  rfl

theorem entries_intercalate : ∀ xs : List (List Char),
    entries sep ([sep].intercalate xs) = xs.flatMap (entries sep)
  | [] => rfl
  | [x] => by simp
  | x :: y :: xs => by
    rw [List.intercalate_cons_cons, List.append_assoc, List.singleton_append, entries_append_sep,
      entries_intercalate (y :: xs), ← List.flatMap_cons]

/-- What holds in all pieces holds of every character but the separators. -/
theorem forall_mem_pieces {P : Char → Prop} : ∀ s : List Char,
    (∀ p ∈ pieces sep s, ∀ c ∈ p, P c) ↔ ∀ c ∈ s, c ≠ sep → P c
  | [] => by simp [pieces]
  | c :: s => by
    have ih := forall_mem_pieces (P := P) s
    by_cases hc : c = sep
    · rw [hc, pieces_cons_sep, List.forall_mem_cons, List.forall_mem_cons, ih]
      simp
    · obtain ⟨q, qs, hq⟩ := List.exists_cons_of_ne_nil (pieces_ne_nil sep s)
      rw [hq, List.forall_mem_cons] at ih
      rw [pieces_cons_of_ne hc hq, List.forall_mem_cons, List.forall_mem_cons,
        List.forall_mem_cons, and_assoc, ih]
      simp [hc]

/-- There is no entry just if there is nothing but blanks and separators. -/
theorem entries_eq_nil_iff {s : List Char} :
    entries sep s = [] ↔ ∀ c ∈ s, c ≠ sep → isBlank c = true := by
  rw [← forall_mem_pieces]
  simp only [entries, List.filter_eq_nil_iff, List.forall_mem_map, Bool.not_eq_true,
    Bool.not_eq_false', List.isEmpty_iff, trim_eq_nil_iff]

/-- An entry has itself as its only entry. -/
theorem entries_of_mem_entries {s p : List Char} (h : p ∈ entries sep s) : entries sep p = [p] := by
  obtain ⟨htrimmed, hne, hsep⟩ := trimmed_of_mem_entries h
  have hpieces : pieces sep p = [p] := by
    rw [pieces_eq_splitOn, List.splitOn_eq_singleton hsep]
  rw [entries, hpieces, List.map_singleton, trim_eq_self htrimmed,
    List.filter_cons_of_pos (by simpa using hne), List.filter_nil]

theorem flatMap_entries_entries (s : List Char) :
    (entries sep s).flatMap (entries sep) = entries sep s := by
  have hmap : (entries sep s).map (entries sep) = (entries sep s).map fun p => [p] :=
    List.map_congr_left fun p hp => entries_of_mem_entries hp
  rw [List.flatMap_def, hmap, ← List.flatMap_def]
  exact List.flatMap_singleton' _

/-! ## Blanks around a text -/

/-- A text without separators is one piece, which is an entry unless it is blank. -/
theorem entries_of_not_mem {s : List Char} (h : sep ∉ s) :
    entries sep s = if trim s = [] then [] else [trim s] := by
  rw [entries, pieces_eq_splitOn, List.splitOn_eq_singleton h, List.map_singleton]
  by_cases hs : trim s = [] <;> simp [hs]

/-- A text has no character with the property, or it goes on after the first one. -/
theorem parted_induction (p : Char → Bool) {motive : List Char → Prop}
    (solid : ∀ s, (∀ c ∈ s, p c = false) → motive s)
    (joined : ∀ s c t, (∀ d ∈ s, p d = false) → p c = true → motive t → motive (s ++ c :: t))
    (s : List Char) : motive s := by
  induction hn : s.length using Nat.strongRecOn generalizing s with
  | ind n ih =>
    have htext : s.takeWhile (!p ·) ++ s.dropWhile (!p ·) = s := List.takeWhile_append_dropWhile
    have hsolid : ∀ c ∈ s.takeWhile (!p ·), p c = false := fun c hc => by
      simpa using List.all_eq_true.1 List.all_takeWhile c hc
    cases hrest : s.dropWhile (!p ·) with
    | nil =>
      rw [hrest, List.append_nil] at htext
      exact solid s (htext ▸ hsolid)
    | cons c t =>
      have hc := List.head?_dropWhile_not (!p ·) s
      rw [hrest] at htext hc
      have hlength := congrArg List.length htext
      rw [List.length_append, List.length_cons] at hlength
      rw [← htext]
      exact joined _ c t hsolid (by simpa using hc) (ih t.length (by omega) t rfl)

/-- A text does not hold the separator, or it goes on after the first one. -/
theorem cut_induction (sep : Char) {motive : List Char → Prop}
    (solid : ∀ s, sep ∉ s → motive s)
    (joined : ∀ s t, sep ∉ s → motive t → motive (s ++ sep :: t)) (s : List Char) : motive s := by
  have hnot : ∀ s : List Char, (∀ c ∈ s, (c == sep) = false) → sep ∉ s := fun s h hs => by
    simpa using h sep hs
  induction s using parted_induction (· == sep) with
  | solid s hs => exact solid s (hnot s hs)
  | joined s c t hs hc ih =>
    rw [eq_of_beq hc]
    exact joined s t (hnot s hs) ih

/-- Blanks that do not separate. -/
def Margin (sep : Char) (w : List Char) : Prop := ∀ c ∈ w, isBlank c = true ∧ c ≠ sep

theorem margin_of_not_mem {w : List Char} (hw : ∀ c ∈ w, isBlank c = true) (hsep : sep ∉ w) :
    Margin sep w := fun c hc => ⟨hw c hc, fun h => hsep (h ▸ hc)⟩

theorem entries_margin_append : ∀ {w : List Char}, Margin sep w →
    ∀ s, entries sep (w ++ s) = entries sep s
  | [], _, _ => rfl
  | c :: w, hw, s => by
    obtain ⟨⟨hblank, hne⟩, hw⟩ := List.forall_mem_cons.1 hw
    obtain ⟨p, ps, hp⟩ := List.exists_cons_of_ne_nil (pieces_ne_nil sep (w ++ s))
    rw [← entries_margin_append hw s, List.cons_append, entries, pieces_cons_of_ne hne hp, entries,
      hp, List.map_cons, List.map_cons, trim_cons_of_isBlank hblank]

theorem entries_append_margin {w : List Char} (hw : Margin sep w) (s : List Char) :
    entries sep (s ++ w) = entries sep s := by
  induction s using cut_induction sep with
  | solid s hs =>
    have hsw : sep ∉ s ++ w := fun h =>
      (List.mem_append.1 h).elim hs fun h => (hw sep h).2 rfl
    rw [entries_of_not_mem hsw, entries_of_not_mem hs,
      trim_append_of_isBlank fun c hc => (hw c hc).1]
  | joined s t _ ih =>
    rw [List.append_assoc, List.cons_append, entries_append_sep, entries_append_sep, ih]

/-- Where the separator is not blank itself, a text may be trimmed first. -/
theorem entries_trim (hsep : isBlank sep = false) (s : List Char) :
    entries sep (trim s) = entries sep s := by
  obtain ⟨w, w', hw, hw', hs⟩ := exists_trim_between s
  have hmargin : ∀ {u : List Char}, (∀ c ∈ u, isBlank c = true) → Margin sep u := fun hu =>
    margin_of_not_mem hu fun hmem => by simp [hu sep hmem] at hsep
  calc entries sep (trim s)
      = entries sep (w ++ (trim s ++ w')) := by
        rw [entries_margin_append (hmargin hw), entries_append_margin (hmargin hw')]
    _ = entries sep s := by rw [← hs]

end BugQuery.Text
