import BugQuery.Proofs.Text.Trim
import BugQuery.Toml.Token

/-!
# TOML tokens read back

A text between double quotes can hold any character: the ones that may not
stand for themselves are written by their code points. `Spells` is the
relation of a row of tokens and its texts, with blanks, and comments up to
the end of their lines, between the tokens; a bare word has to end before the
next one begins.

* `readBasic_flatMap_escape`: a quoted text is read back, for every character in it.
* `readToken_of_spelled`: a token is read off the front of a text that starts with it.
* `tokens?_of_spells`: a text of a row of tokens is read as that row.
* `exists_spells`: there is a text for every row of tokens that can be written.
-/
namespace BugQuery.Toml

/-! ## Quoted texts -/

/-- A character between double quotes, as itself or by its code point. -/
def escape (c : Char) : List Char :=
  if isLineChar c ∧ c ≠ '"' ∧ c ≠ '\\' then [c]
  else ['\\', 'u', '0', '0', Nat.digitChar (c.toNat / 16), Nat.digitChar (c.toNat % 16)]

def quote (s : String) : List Char := '"' :: (s.toList.flatMap escape ++ ['"'])

/-- Only ASCII characters do not stand for themselves. -/
theorem toNat_lt_of_escaped {c : Char} (h : ¬ (isLineChar c ∧ c ≠ '"' ∧ c ≠ '\\')) :
    c.toNat < 0x80 := by
  by_cases hq : c = '"'
  · subst hq
    decide
  by_cases hb : c = '\\'
  · subst hb
    decide
  have hline : isLineChar c ≠ true := fun hl => h ⟨hl, hq, hb⟩
  simp only [isLineChar, Bool.or_eq_true, Bool.and_eq_true, decide_eq_true_eq, not_or, not_and,
    ne_eq, Decidable.not_not] at hline
  omega

theorem readEscape_code {c : Char} (h : c.toNat < 0x80) (r : List Char) :
    readEscape ('u' :: '0' :: '0' ::
        Nat.digitChar (c.toNat / 16) :: Nat.digitChar (c.toNat % 16) :: r) =
      some (c, r) := by
  have hnumber := Text.hexNumber?_digits (n := c.toNat) (by omega)
  have hlong : ¬ ('0' :: '0' :: Nat.digitChar (c.toNat / 16) :: Nat.digitChar (c.toNat % 16) ::
      r).length < 4 := by
    simp only [List.length_cons]
    omega
  simp only [readEscape, codeEscape, if_neg hlong, List.take_succ_cons, List.take_zero, hnumber,
    Option.bind_eq_bind, Option.bind_some, Text.charOfCode?_toNat, List.drop_succ_cons,
    List.drop_zero]

theorem readBasic_of_escape {c : Char} {s r : List Char} (h : readEscape s = some (c, r)) :
    readBasic ('\\' :: s) = (readBasic r).map fun x => (c :: x.1, x.2) := by
  rw [readBasic]
  split
  · rename_i hnone
    rw [h] at hnone
    cases hnone
  · rename_i d t hsome
    rw [h] at hsome
    cases hsome
    rfl

theorem readBasic_of_plain {c : Char} (hc : isLineChar c = true) (hq : c ≠ '"') (hb : c ≠ '\\')
    (r : List Char) : readBasic (c :: r) = (readBasic r).map fun x => (c :: x.1, x.2) := by
  rw [readBasic]
  · rw [if_pos hc]
  · exact hq
  · exact hb

/-- What a character is written as is read as that character. -/
theorem readBasic_escape_append (c : Char) (r : List Char) :
    readBasic (escape c ++ r) = (readBasic r).map fun x => (c :: x.1, x.2) := by
  unfold escape
  split
  · rename_i h
    exact readBasic_of_plain h.1 h.2.1 h.2.2 r
  · rename_i h
    exact readBasic_of_escape (readEscape_code (toNat_lt_of_escaped h) r)

theorem readBasic_flatMap_escape (s r : List Char) :
    readBasic (s.flatMap escape ++ '"' :: r) = some (s, r) := by
  induction s with
  | nil => rw [List.flatMap_nil, List.nil_append, readBasic]
  | cons c s ih => rw [List.flatMap_cons, List.append_assoc, readBasic_escape_append, ih]; rfl

/-! ## Single tokens -/

/-- `w` is a text of the token. -/
inductive Spelled : Token → List Char → Prop where
  | newline : Spelled .newline ['\n']
  | newlineAfterReturn : Spelled .newline ['\r', '\n']
  | dot : Spelled .dot ['.']
  | equals : Spelled .equals ['=']
  | comma : Spelled .comma [',']
  | openList : Spelled .openList ['[']
  | closeList : Spelled .closeList [']']
  | openTable : Spelled .openTable ['{']
  | closeTable : Spelled .closeTable ['}']
  | bare {c : Char} {w : List Char} (hc : isBareChar c = true) (hw : ∀ d ∈ w, isBareChar d = true) :
      Spelled (.bare (String.ofList (c :: w))) (c :: w)
  | text (s : String) : Spelled (.text s) (quote s)

/-- The token ends before `s`: a word does not go on, nor is the quote behind a text the third of
three. -/
def EndsBefore : Token → List Char → Prop
  | .bare _, s => ∀ c ∈ s.head?, isBareChar c = false
  | .text _, s => s.head? ≠ some '"'
  | _, _ => True

/-- A bare word is read to its end. -/
theorem readToken_of_bare {c : Char} (hc : isBareChar c = true) {w s : List Char}
    (hw : ∀ d ∈ w, isBareChar d = true) (hs : ∀ d ∈ s.head?, isBareChar d = false) :
    readToken (c :: (w ++ s)) = some (.bare (String.ofList (c :: w)), s) := by
  have hall : ∀ d ∈ c :: w, isBareChar d = true := by
    rw [List.forall_mem_cons]
    exact ⟨hc, hw⟩
  have htake := Text.takeWhile_run hall hs
  have hdrop := Text.dropWhile_run hall hs
  rw [List.cons_append] at htake hdrop
  unfold readToken
  split
  case h_14 => rw [htake, hdrop, if_neg (by simp)]
  -- every other token starts with a character that stands in no word
  all_goals
    rename_i heq
    rw [(List.cons.inj heq).1] at hc
    exact absurd hc (by decide)

/-- No quote stands inside a quoted text, so it does not start like a text of several lines. -/
theorem flatMap_escape_ne (t : List Char) {s : List Char} (hs : s.head? ≠ some '"')
    (r : List Char) :
    t.flatMap escape ++ '"' :: s ≠ '"' :: '"' :: r := by
  intro h
  cases t with
  | nil =>
    rw [List.flatMap_nil, List.nil_append] at h
    exact hs (by rw [(List.cons.inj h).2]; rfl)
  | cons c t =>
    rw [List.flatMap_cons, List.append_assoc, escape] at h
    split at h
    · rename_i hc
      exact hc.2.1 (List.cons.inj h).1
    · exact absurd (List.cons.inj h).1 (by decide)

theorem readToken_quote (t : String) {s : List Char} (hs : s.head? ≠ some '"') :
    readToken (quote t ++ s) = some (.text t, s) := by
  have htext : quote t ++ s = '"' :: (t.toList.flatMap escape ++ '"' :: s) := by simp [quote]
  rw [htext, readToken, readBasic_flatMap_escape]
  · simp
  · exact flatMap_escape_ne t.toList hs

/-- A token is read off the front of a text that starts with it. -/
theorem readToken_of_spelled {t : Token} {w s : List Char} (h : Spelled t w) (hs : EndsBefore t s) :
    readToken (w ++ s) = some (t, s) := by
  cases h with
  | bare hc hw => exact readToken_of_bare hc hw hs
  | text t => exact readToken_quote t hs
  | _ => rfl

/-- No token starts with a blank, nor like a comment. -/
theorem exists_cons_of_spelled {t : Token} {w : List Char} (h : Spelled t w) :
    ∃ c v, w = c :: v ∧ isSpace c = false ∧ c ≠ '#' := by
  cases h with
  | bare hc hw =>
    rename_i c w
    refine ⟨c, w, rfl, ?_, ?_⟩
    · rw [Bool.eq_false_iff]
      intro hspace
      simp only [isSpace, Bool.or_eq_true, decide_eq_true_eq] at hspace
      rcases hspace with rfl | rfl <;> exact absurd hc (by decide)
    · rintro rfl
      exact absurd hc (by decide)
  | _ => exact ⟨_, _, rfl, by decide, by decide⟩

/-! ## Rows of tokens -/

/-- `s` is a text of the row of tokens `ts`: blanks and comments stand between the tokens. -/
inductive Spells : List Token → List Char → Prop where
  | nil : Spells [] []
  | space {ts : List Token} {c : Char} {s : List Char} (hc : isSpace c = true) (h : Spells ts s) :
      Spells ts (c :: s)
  | comment {ts : List Token} {w s : List Char} (hw : ∀ c ∈ w, isLineChar c = true)
      (hs : ∀ c ∈ s.head?, isLineChar c = false) (h : Spells ts s) : Spells ts ('#' :: (w ++ s))
  | token {t : Token} {ts : List Token} {w s : List Char} (hw : Spelled t w)
      (hs : EndsBefore t s) (h : Spells ts s) : Spells (t :: ts) (w ++ s)

theorem tokensWithin_of_spells {ts : List Token} {s : List Char} (h : Spells ts s) :
    ∀ n, s.length ≤ n → tokensWithin n s = some ts := by
  induction h with
  | nil =>
    intro n _
    cases n <;> rfl
  | space hc _ ih =>
    intro n hn
    cases n with
    | zero => exact absurd hn (Nat.not_succ_le_zero _)
    | succ n => rw [tokensWithin, if_pos hc, ih n (Nat.le_of_succ_le_succ hn)]
  | comment hw hs _ ih =>
    intro n hn
    cases n with
    | zero => exact absurd hn (Nat.not_succ_le_zero _)
    | succ n =>
      rw [List.length_cons, List.length_append] at hn
      rw [tokensWithin, if_neg (by decide), if_pos rfl, Text.dropWhile_run hw hs, ih n (by omega)]
  | token hw hs _ ih =>
    intro n hn
    have hread := readToken_of_spelled hw hs
    obtain ⟨c, v, rfl, hspace, hcomment⟩ := exists_cons_of_spelled hw
    cases n with
    | zero => exact absurd hn (Nat.not_succ_le_zero _)
    | succ n =>
      rw [List.length_append, List.length_cons] at hn
      rw [List.cons_append] at hread ⊢
      rw [tokensWithin, if_neg (by simp [hspace]), if_neg hcomment, hread]
      simp only [Option.bind_eq_bind, Option.bind_some, ih n (by omega)]

theorem tokens?_of_spells {ts : List Token} {s : List Char} (h : Spells ts s) :
    tokens? s = some ts :=
  tokensWithin_of_spells h s.length (Nat.le_refl _)

theorem endsBefore_space (t : Token) (s : List Char) : EndsBefore t (' ' :: s) := by
  cases t with
  | bare w =>
    intro c hc
    cases hc
    decide
  | text s => exact fun h => absurd (Option.some.inj h) (by decide)
  | _ => trivial

/-- With a blank behind every token none runs into the next one. -/
theorem exists_spells {ts : List Token} (h : ∀ t ∈ ts, ∃ w, Spelled t w) : ∃ s, Spells ts s := by
  induction ts with
  | nil => exact ⟨[], .nil⟩
  | cons t ts ih =>
    rw [List.forall_mem_cons] at h
    obtain ⟨⟨w, hw⟩, hts⟩ := h
    obtain ⟨s, hs⟩ := ih hts
    exact ⟨w ++ ' ' :: s, .token hw (endsBefore_space t s) (.space rfl hs)⟩

end BugQuery.Toml
