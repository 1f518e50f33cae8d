/-!
# Trimming texts and cutting them at a separator

A character is blank when it has the Unicode property `White_Space`. Texts
are trimmed by dropping blanks at their ends; inner blanks stay. `pieces`
cuts at every occurrence of a separator, `cut?` at the first one only, and
`entries` is what a comma list or a file of lines means: the pieces, trimmed,
less the blank ones.

* `pieces_ne_nil`, `not_mem_of_mem_pieces`: there is always a piece, and no
  piece holds the separator.
* `cut?_eq_some`: the two sides of a cut, put together, are the text.
-/
namespace BugQuery.Text

/-! ## Blanks -/

/-- The code points with the property `White_Space`, as inclusive ranges. -/
def blankRanges : List (Nat × Nat) :=
  [(0x09, 0x0d), (0x20, 0x20), (0x85, 0x85), (0xa0, 0xa0), (0x1680, 0x1680), (0x2000, 0x200a),
   (0x2028, 0x2029), (0x202f, 0x202f), (0x205f, 0x205f), (0x3000, 0x3000)]

def isBlank (c : Char) : Bool :=
  blankRanges.any fun r => decide (r.1 ≤ c.toNat) && decide (c.toNat ≤ r.2)

example : (blankRanges.map fun r => r.2 + 1 - r.1).sum = 25 := by decide

def trimStart (s : List Char) : List Char := s.dropWhile isBlank

def trimEnd (s : List Char) : List Char := (s.reverse.dropWhile isBlank).reverse

/-- The text without the blanks at its two ends. -/
def trim (s : List Char) : List Char := trimEnd (trimStart s)

/-! ## Pieces -/

/-- The parts of a text between occurrences of `sep`; always at least one. -/
def pieces (sep : Char) : List Char → List (List Char)
  | [] => [[]]
  | c :: s =>
    if c = sep then [] :: pieces sep s
    else match pieces sep s with
      | [] => [[c]]
      | p :: ps => (c :: p) :: ps

/-- The text before and after the first `sep`, if there is one. -/
def cut? (sep : Char) : List Char → Option (List Char × List Char)
  | [] => none
  | c :: s => if c = sep then some ([], s) else (cut? sep s).map fun (a, b) => (c :: a, b)

/-- The pieces of a text, trimmed, without the blank ones. -/
def entries (sep : Char) (s : List Char) : List (List Char) :=
  ((pieces sep s).map trim).filter fun p => !p.isEmpty

/-! ## Laws -/

theorem pieces_ne_nil (sep : Char) (s : List Char) : pieces sep s ≠ [] := by
  cases s with
  | nil => simp [pieces]
  | cons c s =>
    unfold pieces
    split
    · simp
    · split <;> simp

theorem pieces_cons_sep (sep : Char) (s : List Char) :
    pieces sep (sep :: s) = [] :: pieces sep s := by
  simp [pieces]

theorem pieces_cons_of_ne {sep c : Char} (h : c ≠ sep) {s p : List Char} {ps : List (List Char)}
    (hs : pieces sep s = p :: ps) : pieces sep (c :: s) = (c :: p) :: ps := by
  simp [pieces, h, hs]

theorem not_mem_of_mem_pieces {sep : Char} : ∀ {s p : List Char}, p ∈ pieces sep s → sep ∉ p
  | [], p, h => by simp [pieces] at h; simp [h]
  | c :: s, p, h => by
    by_cases hc : c = sep
    · subst hc
      rw [pieces_cons_sep] at h
      rcases List.mem_cons.1 h with rfl | h
      · simp
      · exact not_mem_of_mem_pieces h
    · obtain ⟨q, qs, hq⟩ := List.exists_cons_of_ne_nil (pieces_ne_nil sep s)
      rw [pieces_cons_of_ne hc hq] at h
      have ih : ∀ r ∈ q :: qs, sep ∉ r := fun r hr => not_mem_of_mem_pieces (hq ▸ hr)
      rcases List.mem_cons.1 h with rfl | h
      · simpa [Ne.symm hc] using ih q (by simp)
      · exact ih p (by simp [h])

theorem cut?_eq_some {sep : Char} : ∀ {s a b : List Char},
    cut? sep s = some (a, b) ↔ s = a ++ sep :: b ∧ sep ∉ a
  | [], a, b => by simp [cut?]
  | c :: s, a, b => by
    by_cases hc : c = sep
    · subst hc
      cases a with
      | nil => simp [cut?]
      | cons d a => simp [cut?]; intro h1 _; simp [h1]
    · cases a with
      | nil => simp [cut?, hc]
      | cons d a =>
        have ih := @cut?_eq_some sep s a b
        simp only [cut?, hc, if_false, Option.map_eq_some_iff, Prod.exists, Prod.mk.injEq,
          List.cons.injEq, List.cons_append, List.mem_cons, not_or]
        constructor
        · rintro ⟨a', b', h, ⟨rfl, rfl⟩, rfl⟩
          obtain ⟨h1, h2⟩ := ih.1 h
          exact ⟨⟨rfl, h1⟩, Ne.symm hc, h2⟩
        · rintro ⟨⟨rfl, h1⟩, _, h2⟩
          exact ⟨a, b, ih.2 ⟨h1, h2⟩, ⟨rfl, rfl⟩, rfl⟩

theorem cut?_eq_none {sep : Char} : ∀ {s : List Char}, cut? sep s = none ↔ sep ∉ s
  | [] => by simp [cut?]
  | c :: s => by
    by_cases hc : c = sep
    · simp [cut?, hc]
    · simp [cut?, hc, Ne.symm hc, cut?_eq_none (s := s)]

end BugQuery.Text
