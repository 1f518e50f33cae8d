import BugQuery.Proofs.Placeholder.Distinct
import BugQuery.Proofs.Text.Trim

/-!
# Placeholders, position by position

`Begins` says what a placeholder is, without saying how to find its parts:
`%{`, a name, and `}`, or a colon and a detail between these two. `Scan` says
which placeholders of a text count: the one at the first position where one
begins, and then those of the text that follows it. The scanner finds the
placeholder at the front of a text by taking runs of characters, and goes on
one character later where there is none.

* `atFront_eq_some`: the scanner finds a placeholder at the front just if one begins there.
* `scan_iff`: the names that it finds are those of the scan by positions, and of no other.
* `fields_scan`: the fields of a format are the trimmed names of that scan, less the blank
  ones, in the order of their first places.
-/
namespace BugQuery.Placeholder

/-- A placeholder with this name begins the text `s`, and `r` follows it. A detail ends at the
first brace. -/
structure Begins (s name r : List Char) : Prop where
  ne_nil : name ≠ []
  brace : '}' ∉ name
  colon : ':' ∉ name
  shape : s = '%' :: '{' :: (name ++ '}' :: r) ∨
    ∃ detail, '}' ∉ detail ∧ s = '%' :: '{' :: (name ++ ':' :: (detail ++ '}' :: r))

/-- The names of placeholders, each found at the first position where one begins in the text
after the one before it. -/
inductive Scan : List Char → List (List Char) → Prop where
  | done {s : List Char} (h : ∀ i name r, ¬ Begins (s.drop i) name r) : Scan s []
  | next {s name r : List Char} {names : List (List Char)} (i : Nat)
      (hfirst : ∀ j < i, ∀ name r, ¬ Begins (s.drop j) name r) (h : Begins (s.drop i) name r)
      (hrest : Scan r names) : Scan s (name :: names)

/-! ## The placeholder at the front -/

theorem isNameChar_iff {c : Char} : isNameChar c = true ↔ c ≠ '}' ∧ c ≠ ':' := by
  simp [isNameChar]

/-- What is left after a run starts with the character that ended it. -/
theorem eq_append_of_dropWhile {p : Char → Bool} {s r : List Char} {c : Char}
    (h : s.dropWhile p = c :: r) : s = s.takeWhile p ++ c :: r := by
  rw [← h, List.takeWhile_append_dropWhile]

theorem not_mem_takeWhile_name (s : List Char) :
    '}' ∉ s.takeWhile isNameChar ∧ ':' ∉ s.takeWhile isNameChar := by
  refine ⟨fun h => ?_, fun h => ?_⟩
  · exact (isNameChar_iff.1 (List.mem_takeWhile_imp h)).1 rfl
  · exact (isNameChar_iff.1 (List.mem_takeWhile_imp h)).2 rfl

theorem begins_of_atFront {s name r : List Char} (h : atFront s = some (name, r)) :
    Begins s name r := by
  unfold atFront at h
  split at h
  · rename_i s
    obtain ⟨hbrace, hcolon⟩ := not_mem_takeWhile_name s
    split at h
    · cases h
    rename_i hne
    split at h
    · rename_i hd
      cases h
      exact ⟨hne, hbrace, hcolon, .inl (by rw [← eq_append_of_dropWhile hd])⟩
    · rename_i q hd
      split at h
      · cases h
      · rename_i c t hq
        cases h
        have hc : c = '}' := by
          have hstop := List.head?_dropWhile_not (· ≠ '}') q
          rw [hq] at hstop
          simpa using hstop
        subst hc
        refine ⟨hne, hbrace, hcolon, .inr ⟨q.takeWhile (· ≠ '}'), fun hm => ?_, ?_⟩⟩
        · simpa using List.mem_takeWhile_imp hm
        · rw [← eq_append_of_dropWhile hq, ← eq_append_of_dropWhile hd]
    · cases h
  · cases h

theorem atFront_of_begins {s name r : List Char} (h : Begins s name r) :
    atFront s = some (name, r) := by
  have hname : ∀ c ∈ name, isNameChar c = true := fun c hc =>
    isNameChar_iff.2 ⟨fun he => h.brace (he ▸ hc), fun he => h.colon (he ▸ hc)⟩
  rcases h.shape with rfl | ⟨detail, hdetail, rfl⟩
  · have hstop : ∀ c ∈ ('}' :: r).head?, isNameChar c = false := fun c hc => by cases hc; rfl
    simp [atFront, Text.takeWhile_run hname hstop, Text.dropWhile_run hname hstop, h.ne_nil]
  · have hstop : ∀ c ∈ (':' :: (detail ++ '}' :: r)).head?, isNameChar c = false := fun c hc => by
      cases hc; rfl
    have hrun : ∀ c ∈ detail, decide (c ≠ '}') = true := fun c hc =>
      decide_eq_true fun he => hdetail (he ▸ hc)
    have hend : (detail ++ '}' :: r).dropWhile (· ≠ '}') = '}' :: r :=
      Text.dropWhile_run hrun (by simp)
    simp only [atFront, Text.takeWhile_run hname hstop, Text.dropWhile_run hname hstop,
      if_neg h.ne_nil, hend]

theorem atFront_eq_some {s name r : List Char} : atFront s = some (name, r) ↔ Begins s name r :=
  ⟨begins_of_atFront, atFront_of_begins⟩

theorem atFront_eq_none {s : List Char} : atFront s = none ↔ ∀ name r, ¬ Begins s name r := by
  rw [Option.eq_none_iff_forall_ne_some]
  exact ⟨fun h name r hb => h _ (atFront_eq_some.2 hb), fun h x hx => h _ _ (atFront_eq_some.1 hx)⟩

/-- A placeholder has one name, and ends at one place, so it does not matter which of the readings
at a position a search prefers. -/
theorem Begins.unique {s name name' r r' : List Char} (h : Begins s name r)
    (h' : Begins s name' r') : name = name' ∧ r = r' := by
  have heq := (atFront_eq_some.2 h).symm.trans (atFront_eq_some.2 h')
  simpa using heq

/-! ## The scan -/

theorem not_begins_nil (name r : List Char) : ¬ Begins [] name r := by
  rintro ⟨-, -, -, h | ⟨detail, -, h⟩⟩ <;> cases h

/-- Where no placeholder begins at the front, the scan is that of the rest. -/
theorem Scan.cons {c : Char} {s : List Char} {ns : List (List Char)} (h : Scan s ns)
    (hc : ∀ name r, ¬ Begins (c :: s) name r) : Scan (c :: s) ns := by
  cases h with
  | done h =>
    refine .done fun i => ?_
    cases i with
    | zero => exact hc
    | succ i => exact h i
  | next i hfirst hb hrest =>
    refine .next (i + 1) (fun j hj => ?_) hb hrest
    cases j with
    | zero => exact hc
    | succ j => exact hfirst j (Nat.lt_of_succ_lt_succ hj)

theorem scan_names (s : List Char) : Scan s (names s) := by
  fun_induction names s with
  | case1 => exact .done fun i => by simpa using not_begins_nil
  | case2 c s name r h ih =>
    exact .next 0 (fun j hj => absurd hj (Nat.not_lt_zero j)) (atFront_eq_some.1 h) ih
  | case3 c s h ih => exact ih.cons (atFront_eq_none.1 h)

theorem Scan.unique {s : List Char} {ns ms : List (List Char)} (h : Scan s ns) (h' : Scan s ms) :
    ns = ms := by
  induction h generalizing ms with
  | done hnone =>
    cases h' with
    | done => rfl
    | next i _ hb _ => exact absurd hb (hnone i _ _)
  | next i hfirst hb _ ih =>
    cases h' with
    | done hnone => exact absurd hb (hnone i _ _)
    | next j hfirst' hb' hrest' =>
      -- neither of the two positions can come before the other
      obtain rfl : i = j := by
        rcases Nat.lt_trichotomy i j with hlt | heq | hlt
        · exact absurd hb (hfirst' i hlt _ _)
        · exact heq
        · exact absurd hb' (hfirst j hlt _ _)
      obtain ⟨rfl, rfl⟩ := hb.unique hb'
      rw [ih hrest']

theorem scan_iff {s : List Char} {ns : List (List Char)} : Scan s ns ↔ ns = names s := by
  refine ⟨fun h => h.unique (scan_names s), ?_⟩
  rintro rfl
  exact scan_names s

theorem names_of_begins {s name r : List Char} (h : Begins s name r) :
    names s = name :: names r :=
  (scan_iff.1 (.next 0 (fun j hj => absurd hj (Nat.not_lt_zero j)) h (scan_names r))).symm

theorem names_cons {c : Char} {s : List Char} (h : ∀ name r, ¬ Begins (c :: s) name r) :
    names (c :: s) = names s :=
  (scan_iff.1 ((scan_names s).cons h)).symm

/-! ## Where no placeholder begins -/

theorem not_begins_of_ne {c : Char} (hc : c ≠ '%') (s name r : List Char) :
    ¬ Begins (c :: s) name r := by
  rintro ⟨-, -, -, h | ⟨detail, -, h⟩⟩
  · exact hc (List.cons.inj h).1
  · exact hc (List.cons.inj h).1

/-- A name has a first character. -/
theorem not_begins_of_stop {c : Char} (hc : c = '}' ∨ c = ':') (s name r : List Char) :
    ¬ Begins ('%' :: '{' :: c :: s) name r := by
  intro h
  obtain ⟨d, name, rfl⟩ := List.exists_cons_of_ne_nil h.ne_nil
  have hd : d = c := by
    rcases h.shape with he | ⟨detail, -, he⟩
    all_goals
      simp only [List.cons_append, List.cons.injEq] at he
      exact he.2.2.1.symm
  subst hd
  rcases hc with rfl | rfl
  · exact h.brace (by simp)
  · exact h.colon (by simp)

theorem names_of_stop {c : Char} (hc : c = '}' ∨ c = ':') (r : List Char) :
    names ('%' :: '{' :: c :: r) = names r := by
  have hother : c ≠ '%' := by rcases hc with rfl | rfl <;> decide
  rw [names_cons (not_begins_of_stop hc r), names_cons (not_begins_of_ne (by decide) _),
    names_cons (not_begins_of_ne hother _)]

theorem brace_mem_of_begins {s name r : List Char} (h : Begins s name r) : '}' ∈ s := by
  rcases h.shape with rfl | ⟨detail, -, rfl⟩ <;> simp

theorem names_of_not_mem {s : List Char} (h : '}' ∉ s) : names s = [] :=
  (scan_iff.1 (.done fun i _ _ hb =>
    h ((List.drop_subset i s) (brace_mem_of_begins hb)))).symm

/-! ## The fields of a format -/

/-- The names, trimmed, less the blank ones. -/
def trimmedNames (ns : List (List Char)) : List String :=
  ((ns.map Text.trim).filter fun n => !n.isEmpty).map String.ofList

theorem fields_eq (format : String) :
    fields format = distinct (trimmedNames (names format.toList)) := rfl

/-- The names of a scan hold neither of the characters that end a name. -/
theorem not_mem_of_scan {s : List Char} {ns : List (List Char)} (h : Scan s ns) :
    ∀ name ∈ ns, '}' ∉ name ∧ ':' ∉ name := by
  induction h with
  | done => simp
  | next i _ hb _ ih => exact List.forall_mem_cons.2 ⟨⟨hb.brace, hb.colon⟩, ih⟩

theorem exists_of_mem_trimmedNames {ns : List (List Char)} {name : String}
    (h : name ∈ trimmedNames ns) : ∃ n ∈ ns, name.toList = Text.trim n ∧ Text.trim n ≠ [] := by
  obtain ⟨t, ht, rfl⟩ := List.mem_map.1 h
  obtain ⟨hm, hne⟩ := List.mem_filter.1 ht
  obtain ⟨n, hn, rfl⟩ := List.mem_map.1 hm
  exact ⟨n, hn, String.toList_ofList, by simpa using hne⟩

/-- What is left of a name that is not blank is not blank. -/
theorem exists_not_isBlank_of_trim {s : List Char} (h : Text.trim s ≠ []) :
    ∃ c ∈ Text.trim s, Text.isBlank c = false := by
  rw [← Text.trim_trim, ne_eq, Text.trim_eq_nil_iff] at h
  push Not at h
  simpa using h

/-- The fields of a format are those that the scan by positions gives, and nothing else is: its
names, trimmed, less the blank ones, in the order of their first places. So no field comes twice,
is blank or untrimmed, or holds a brace or a colon. A name may hold the opening of a placeholder,
an opening without a name begins none, and without a closing brace there is none. -/
theorem fields_scan (format : String) :
    (∀ ys, ys = fields format ↔ ∃ ns, Scan format.toList ns ∧ FirstsOf (trimmedNames ns) ys) ∧
    (fields format).Nodup ∧
    (∀ name ∈ fields format, (∃ c ∈ name.toList, Text.isBlank c = false) ∧
      Text.trim name.toList = name.toList ∧ '}' ∉ name.toList ∧ ':' ∉ name.toList) ∧
    (∀ a b r, '}' ∉ a ++ b → ':' ∉ a ++ b →
      names ('%' :: '{' :: (a ++ '%' :: '{' :: (b ++ '}' :: r))) =
        (a ++ '%' :: '{' :: b) :: names r) ∧
    (∀ r, names ('%' :: '{' :: '}' :: r) = names r ∧ names ('%' :: '{' :: ':' :: r) = names r) ∧
    ∀ r, '}' ∉ r → names ('%' :: '{' :: r) = [] := by
  have hfirsts := firstsOf_distinct (trimmedNames (names format.toList))
  refine ⟨fun ys => ?_, hfirsts.nodup, fun name hname => ?_, fun a b r hbrace hcolon => ?_,
    fun r => ⟨names_of_stop (.inl rfl) r, names_of_stop (.inr rfl) r⟩, fun r hr => ?_⟩
  · rw [fields_eq, eq_distinct_iff]
    refine ⟨fun h => ⟨_, scan_names _, h⟩, fun hex => ?_⟩
    obtain ⟨ns, hns, h⟩ := hex
    rwa [scan_iff.1 hns] at h
  · obtain ⟨n, hn, htext, hne⟩ := exists_of_mem_trimmedNames ((hfirsts.mem name).1 hname)
    obtain ⟨hbrace, hcolon⟩ := not_mem_of_scan (scan_names format.toList) n hn
    rw [htext]
    exact ⟨exists_not_isBlank_of_trim hne, Text.trim_trim n,
      fun h => hbrace (Text.mem_of_mem_trim h), fun h => hcolon (Text.mem_of_mem_trim h)⟩
  · refine names_of_begins ⟨by simp, ?_, ?_, .inl (by simp)⟩
    · simpa using hbrace
    · simpa using hcolon
  · refine names_of_not_mem ?_
    simpa using hr

example : fields "%{ bug_id }%{} %{flags:needinfo}%{bug_id}" = ["bug_id", "flags"] := by
  decide +kernel

end BugQuery.Placeholder
