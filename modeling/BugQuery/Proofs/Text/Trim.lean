import BugQuery.Text.Pieces
import Mathlib.Data.List.DropRight

/-!
# Runs of characters and trimmed texts

A run at the front of a text goes up to the first character of another kind.
Trimming takes the runs of blanks off the two ends of a text. What is left
starts and ends with no blank, is a part of the text with blanks around it,
and is empty only where all was blank.

* `takeWhile_run`, `dropWhile_run`: a run, and what follows it.
* `trim_eq_nil_iff`: nothing is left exactly of a text of blanks.
* `exists_trim_between`: a text is what trimming leaves of it, between blanks.
* `trimmed_iff`: a text without blanks at its ends has nothing to lose, and trimming leaves one.
* `trimmed_of_mem_entries`: entries are trimmed, hold no separator and are not empty.
-/
namespace BugQuery.Text

/-! ## Runs -/

theorem takeWhile_run {p : Char → Bool} {w s : List Char} (hw : ∀ c ∈ w, p c = true)
    (hs : ∀ c ∈ s.head?, p c = false) : (w ++ s).takeWhile p = w := by
  rw [List.takeWhile_append_of_pos hw]
  cases s with
  | nil => simp
  | cons c s => rw [List.takeWhile_cons_of_neg (by simp [hs c rfl]), List.append_nil]

theorem dropWhile_run {p : Char → Bool} {w s : List Char} (hw : ∀ c ∈ w, p c = true)
    (hs : ∀ c ∈ s.head?, p c = false) : (w ++ s).dropWhile p = s := by
  rw [List.dropWhile_append_of_pos hw]
  cases s with
  | nil => rfl
  | cons c s => exact List.dropWhile_cons_of_neg (by simp [hs c rfl])

/-! ## Trimmed texts -/

/-- Neither the first nor the last character is blank. -/
def Trimmed (s : List Char) : Prop :=
  (∀ c ∈ s.head?, isBlank c = false) ∧ ∀ c ∈ s.getLast?, isBlank c = false

theorem head?_trimStart (s : List Char) : ∀ c ∈ (trimStart s).head?, isBlank c = false := by
  intro c hc
  have h := List.head?_dropWhile_not isBlank s
  rw [← trimStart, hc] at h
  exact h

theorem trimStart_eq_self {s : List Char} (h : ∀ c ∈ s.head?, isBlank c = false) :
    trimStart s = s :=
  List.dropWhile_eq_self_iff.2 fun hs => by
    rw [h _ (List.head?_eq_getElem? ▸ List.getElem?_eq_getElem hs)]
    exact Bool.false_ne_true

theorem mem_of_mem_trim {c : Char} {s : List Char} (h : c ∈ trim s) : c ∈ s := by
  have h1 : c ∈ trimStart s := by
    have := (List.dropWhile_suffix isBlank).subset (List.mem_reverse.1 h)
    exact List.mem_reverse.1 this
  exact (List.dropWhile_suffix isBlank).subset h1

theorem trimEnd_eq_nil {s : List Char} : trimEnd s = [] ↔ ∀ c ∈ s, isBlank c = true :=
  List.rdropWhile_eq_nil_iff

theorem trim_eq_nil_iff {s : List Char} : trim s = [] ↔ ∀ c ∈ s, isBlank c = true := by
  rw [trim, trimEnd_eq_nil]
  constructor
  · intro h
    cases ht : trimStart s with
    | nil => exact List.dropWhile_eq_nil_iff.1 ht
    | cons d t =>
      have hd := head?_trimStart s d (by rw [ht]; rfl)
      rw [h d (by rw [ht]; simp)] at hd
      cases hd
  · intro h
    rw [trimStart, List.dropWhile_eq_nil_iff.2 h]
    simp

theorem exists_trimEnd_cons {c : Char} (h : isBlank c = false) (s : List Char) :
    ∃ t, trimEnd (c :: s) = c :: t := by
  unfold trimEnd
  rw [List.reverse_cons]
  generalize s.reverse = l
  induction l with
  | nil => exact ⟨[], by simp [h]⟩
  | cons e l ih =>
    by_cases he : isBlank e = true
    · simpa [he] using ih
    · exact ⟨l.reverse ++ [e], by simp [he]⟩

theorem head?_trimEnd {s : List Char} (h : ∀ c ∈ s.head?, isBlank c = false) :
    ∀ c ∈ (trimEnd s).head?, isBlank c = false := by
  cases s with
  | nil => intro c hc; simp [trimEnd] at hc
  | cons d s =>
    obtain ⟨t, ht⟩ := exists_trimEnd_cons (h d (by simp)) s
    rwa [ht]

/-- Text that starts with no blank keeps its first character. -/
theorem exists_trim_cons {c : Char} (h : isBlank c = false) (s : List Char) :
    ∃ t, trim (c :: s) = c :: t := by
  rw [trim, trimStart, List.dropWhile_cons_of_neg (by simp [h])]
  exact exists_trimEnd_cons h s

theorem trim_cons_of_isBlank {c : Char} (h : isBlank c = true) (s : List Char) :
    trim (c :: s) = trim s := by
  rw [trim, trimStart, List.dropWhile_cons_of_pos h]
  rfl

theorem trim_append_of_isBlank {w : List Char} (h : ∀ c ∈ w, isBlank c = true) (s : List Char) :
    trim (s ++ w) = trim s := by
  have hend : ∀ t, trimEnd (t ++ w) = trimEnd t := by
    intro t
    rw [trimEnd, List.reverse_append,
      List.dropWhile_append_of_pos fun c hc => h c (List.mem_reverse.1 hc)]
    rfl
  rw [trim, trimStart, List.dropWhile_append]
  split
  · rename_i hs
    rw [trim, trimStart, List.isEmpty_iff.1 hs, List.dropWhile_eq_nil_iff.2 h]
  · exact hend _

theorem trim_blanks_append {w : List Char} (h : ∀ c ∈ w, isBlank c = true) (s : List Char) :
    trim (w ++ s) = trim s := by
  rw [trim, trimStart, List.dropWhile_append_of_pos h]
  rfl

/-- A text is what trimming leaves of it, between blanks. -/
theorem exists_trim_between (s : List Char) : ∃ w w', (∀ c ∈ w, isBlank c = true) ∧
    (∀ c ∈ w', isBlank c = true) ∧ s = w ++ (trim s ++ w') := by
  have hblank : ∀ t : List Char, ∀ c ∈ t.takeWhile isBlank, isBlank c = true := fun t =>
    List.all_eq_true.1 List.all_takeWhile
  refine ⟨s.takeWhile isBlank, ((trimStart s).reverse.takeWhile isBlank).reverse, hblank s,
    fun c hc => hblank _ c (List.mem_reverse.1 hc), ?_⟩
  rw [trim, trimEnd, ← List.reverse_append, List.takeWhile_append_dropWhile, List.reverse_reverse]
  exact List.takeWhile_append_dropWhile.symm

theorem trimmed_trim (s : List Char) : Trimmed (trim s) := by
  constructor
  · exact head?_trimEnd (head?_trimStart s)
  · intro c hc
    rw [trim, trimEnd, List.getLast?_reverse] at hc
    exact head?_trimStart _ c hc

theorem trim_eq_self {s : List Char} (h : Trimmed s) : trim s = s := by
  rw [trim, trimStart_eq_self h.1, trimEnd, ← trimStart, trimStart_eq_self, List.reverse_reverse]
  intro c hc
  rw [List.head?_reverse] at hc
  exact h.2 c hc

theorem trimmed_iff {s : List Char} : Trimmed s ↔ trim s = s :=
  ⟨trim_eq_self, fun h => h ▸ trimmed_trim s⟩

/-- Only the two ends of a text count. -/
theorem trimmed_append {s t : List Char} (hs : s ≠ []) (ht : t ≠ [])
    (hfirst : ∀ c ∈ s.head?, isBlank c = false) (hlast : ∀ c ∈ t.getLast?, isBlank c = false)
    (m : List Char) : Trimmed (s ++ (m ++ t)) := by
  obtain ⟨c, s, rfl⟩ := List.exists_cons_of_ne_nil hs
  have hend : (c :: s ++ (m ++ t)).getLast? = t.getLast? := by
    rw [← List.append_assoc, List.getLast?_append, List.getLast?_eq_some_getLast ht, Option.some_or]
  refine ⟨hfirst, ?_⟩
  rwa [hend]

@[simp] theorem trim_trim (s : List Char) : trim (trim s) = trim s := trim_eq_self (trimmed_trim s)

/-! ## Entries -/

theorem trimmed_of_mem_entries {sep : Char} {s p : List Char} (h : p ∈ entries sep s) :
    Trimmed p ∧ p ≠ [] ∧ sep ∉ p := by
  obtain ⟨hm, hne⟩ := List.mem_filter.1 h
  obtain ⟨q, hq, rfl⟩ := List.mem_map.1 hm
  refine ⟨trimmed_trim q, by simpa using hne, fun hs => ?_⟩
  exact not_mem_of_mem_pieces hq (mem_of_mem_trim hs)

end BugQuery.Text
