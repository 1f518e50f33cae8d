import BugQuery.Json.Token
import BugQuery.Proofs.Text.Trim

/-!
# Tokens read back

Every token is read back from what it is written as, whatever follows, with
one exception: a number goes on as long as there are digits. So a row of
tokens can be written without blanks where no digit follows a number, and
with blanks anywhere between two tokens. `Spells` is the relation of a row
of tokens and its texts.

* `readQuoted_flatMap_escape`: a quoted text is read back, for every character in it.
* `readToken_write`: a token is read off the front of a text that starts with it.
* `tokens?_of_spells`: a text of a row of tokens is read as that row.
* `le_toNat_of_mem_write`: no token is written with a control character.
-/
namespace BugQuery.Json

/-- The text does not start with a digit. -/
def NoDigit (s : List Char) : Prop := ∀ c ∈ s.head?, c.isDigit = false

theorem noDigit_append {s r : List Char} (hs : NoDigit s) (hr : NoDigit r) : NoDigit (s ++ r) := by
  cases s with
  | nil => exact hr
  | cons c s => exact hs

/-! ## Numbers -/

theorem toDigits_ne_zero_cons {n : Nat} (h : 0 < n) (ds : List Char) :
    Nat.toDigits 10 n ≠ '0' :: ds := by
  induction n using Nat.strongRecOn generalizing ds with
  | ind n ih =>
    intro hds
    by_cases hn : n < 10
    · have hchar : ∀ m : Fin 10, Nat.digitChar m.val = '0' → m.val = 0 := by decide
      rw [Nat.toDigits_of_lt_base hn] at hds
      have := hchar ⟨n, hn⟩ (List.cons.inj hds).1
      simp only at this
      omega
    · rw [Nat.toDigits_of_base_le (by decide) (by omega)] at hds
      obtain ⟨c, cs, hcs⟩ := List.exists_cons_of_ne_nil (Nat.toDigits_ne_nil (n := n / 10) (b := 10))
      rw [hcs, List.cons_append] at hds
      rw [(List.cons.inj hds).1] at hcs
      exact ih (n / 10) (by omega) (by omega) cs hcs

theorem isDigit_of_mem_toDigits {n : Nat} : ∀ c ∈ Nat.toDigits 10 n, c.isDigit = true :=
  fun _ hc => Nat.isDigit_of_mem_toDigits (by decide) (by decide) hc

/-- A number is written without a leading zero, so it is read back. -/
theorem readNat?_toDigits (n : Nat) {r : List Char} (hr : NoDigit r) :
    readNat? (Nat.toDigits 10 n ++ r) = some (n, r) := by
  unfold readNat?
  rw [Text.takeWhile_run isDigit_of_mem_toDigits hr, Text.dropWhile_run isDigit_of_mem_toDigits hr]
  rcases Nat.eq_zero_or_pos n with rfl | hn
  · rw [Nat.toDigits_zero]
    rfl
  · split
    · rename_i h
      exact absurd h Nat.toDigits_ne_nil
    · rename_i h
      exact absurd h (toDigits_ne_zero_cons hn [])
    · rename_i h
      exact absurd h (toDigits_ne_zero_cons hn _)
    · rw [Nat.ofDigitChars_ten_toDigits]

/-! ## Quoted texts -/

theorem le_toNat_digitChar (n : Nat) (h : n < 16) : 0x20 ≤ (Nat.digitChar n).toNat := by
  have hall : ∀ m : Fin 16, 0x20 ≤ (Nat.digitChar m.val).toNat := by decide
  exact hall ⟨n, h⟩

theorem readEscape_hex {c : Char} (h : c.toNat < 0x20) (r : List Char) :
    readEscape ('u' :: '0' :: '0' ::
        Nat.digitChar (c.toNat / 16) :: Nat.digitChar (c.toNat % 16) :: r) =
      some (c, r) := by
  have hnumber := Text.hexNumber?_digits (n := c.toNat) (by omega)
  simp only [readEscape, hnumber, Option.bind_eq_bind, Option.bind_some, Text.charOfCode?_toNat]

/-- A character is written as itself, or as an escape that is read as the character. -/
theorem escape_cases (c : Char) :
    (escape c = [c] ∧ c ≠ '"' ∧ c ≠ '\\' ∧ 0x20 ≤ c.toNat) ∨
    ∃ s, escape c = '\\' :: s ∧ (∀ r, readEscape (s ++ r) = some (c, r)) ∧
      ∀ d ∈ s, 0x20 ≤ d.toNat := by
  unfold escape
  -- the seven characters that have a letter of their own
  iterate 7
    split
    · subst c
      exact .inr ⟨[_], rfl, fun _ => rfl, List.forall_mem_singleton.2 (by decide)⟩
  split
  · rename_i hc
    refine .inr ⟨_, rfl, readEscape_hex hc, ?_⟩
    simp only [List.forall_mem_cons]
    exact ⟨by decide, by decide, by decide, le_toNat_digitChar _ (by omega),
      le_toNat_digitChar _ (by omega), by simp⟩
  · rename_i hq hb _ _ _ _ _ hc
    exact .inl ⟨rfl, hq, hb, by omega⟩

theorem readQuoted_of_escape {c : Char} {s r : List Char} (h : readEscape s = some (c, r)) :
    readQuoted ('\\' :: s) = (readQuoted r).map fun x => (c :: x.1, x.2) := by
  rw [readQuoted]
  split
  · rename_i hnone
    rw [h] at hnone
    cases hnone
  · rename_i d t hsome
    rw [h] at hsome
    cases hsome
    rfl

theorem readQuoted_of_plain {c : Char} (hq : c ≠ '"') (hb : c ≠ '\\') (hc : 0x20 ≤ c.toNat)
    (r : List Char) : readQuoted (c :: r) = (readQuoted r).map fun x => (c :: x.1, x.2) := by
  rw [readQuoted]
  · rw [if_neg (by omega)]
  · exact hq
  · exact hb

/-- What a character is written as is read as that character. -/
theorem readQuoted_escape_append (c : Char) (r : List Char) :
    readQuoted (escape c ++ r) = (readQuoted r).map fun x => (c :: x.1, x.2) := by
  rcases escape_cases c with ⟨h, hq, hb, hc⟩ | ⟨s, h, hread, -⟩
  · rw [h, List.singleton_append, readQuoted_of_plain hq hb hc]
  · rw [h, List.cons_append, readQuoted_of_escape (hread r)]

theorem readQuoted_flatMap_escape (s r : List Char) :
    readQuoted (s.flatMap escape ++ '"' :: r) = some (s, r) := by
  induction s with
  | nil => rw [List.flatMap_nil, List.nil_append, readQuoted]
  | cons c s ih => rw [List.flatMap_cons, List.append_assoc, readQuoted_escape_append, ih]; rfl

/-! ## Single tokens -/

/-- A written integer starts with a minus sign or a digit. -/
theorem exists_writeInt_eq_cons (n : Int) :
    ∃ c s, writeInt n = c :: s ∧ (c = '-' ∨ c.isDigit = true) := by
  unfold writeInt
  split
  · exact ⟨'-', _, rfl, .inl rfl⟩
  · obtain ⟨c, s, h⟩ := List.exists_cons_of_ne_nil (Nat.toDigits_ne_nil (n := n.natAbs) (b := 10))
    exact ⟨c, s, h, .inr (isDigit_of_mem_toDigits c (by rw [h]; simp))⟩

theorem readToken_of_isDigit {c : Char} (h : c.isDigit = true) (s : List Char) :
    readToken (c :: s) = (readNat? (c :: s)).map fun x => (.int x.1, x.2) := by
  unfold readToken
  split
  case h_12 => rfl
  -- all other tokens start with a character of their own
  all_goals
    rename_i heq
    cases heq
    exact absurd h (by decide)

theorem readToken_writeInt (n : Int) {r : List Char} (hr : NoDigit r) :
    readToken (writeInt n ++ r) = some (.int n, r) := by
  have hread := readNat?_toDigits n.natAbs hr
  by_cases hn : n < 0
  · obtain ⟨k, hk⟩ : ∃ k, n.natAbs = k + 1 := ⟨n.natAbs - 1, by omega⟩
    have hneg : -((k + 1 : Nat) : Int) = n := by omega
    rw [hk] at hread
    rw [writeInt, if_pos hn, hk, List.cons_append, readToken, hread]
    simp only [hneg]
  · obtain ⟨c, s, hcs, hc⟩ := exists_writeInt_eq_cons n
    have hnat : (n.natAbs : Int) = n := by omega
    have hdigits : writeInt n = Nat.toDigits 10 n.natAbs := by rw [writeInt, if_neg hn]
    have hdigit : c.isDigit = true := isDigit_of_mem_toDigits c (by rw [← hdigits, hcs]; simp)
    rw [← hdigits, hcs, List.cons_append] at hread
    rw [hcs, List.cons_append, readToken_of_isDigit hdigit, hread, Option.map_some, hnat]

/-- A token is read off the front; only a number minds what follows. -/
theorem readToken_write {t : Token} {r : List Char} (h : ∀ n, t = .int n → NoDigit r) :
    readToken (t.write ++ r) = some (t, r) := by
  cases t with
  | int n => exact readToken_writeInt n (h n rfl)
  | text s =>
    rw [Token.write, quote, List.cons_append, List.append_assoc, List.singleton_append, readToken,
      readQuoted_flatMap_escape]
    simp only [Option.map_some, String.ofList_toList]
  | bool b => cases b <;> rfl
  | _ => rfl

theorem exists_write_eq_cons (t : Token) : ∃ c s, t.write = c :: s ∧ isSpace c = false := by
  cases t with
  | int n =>
    obtain ⟨c, s, hcs, hc⟩ := exists_writeInt_eq_cons n
    refine ⟨c, s, hcs, ?_⟩
    have hne : ∀ d, isSpace d = true → ¬ (d = '-' ∨ d.isDigit = true) := by
      intro d hd
      simp only [isSpace, Bool.or_eq_true, decide_eq_true_eq] at hd
      rcases hd with ((rfl | rfl) | rfl) | rfl <;> decide
    exact Bool.eq_false_iff.2 fun hs => hne c hs hc
  | bool b => cases b <;> exact ⟨_, _, rfl, rfl⟩
  | _ => exact ⟨_, _, rfl, rfl⟩

/-! ## Rows of tokens -/

/-- `s` is a text of the row of tokens `ts`: each as it is written, with blanks between them. -/
inductive Spells : List Token → List Char → Prop where
  | nil : Spells [] []
  | space {ts : List Token} {c : Char} {s : List Char} (hc : isSpace c = true) (h : Spells ts s) :
      Spells ts (c :: s)
  | token {t : Token} {ts : List Token} {s : List Char} (hs : ∀ n, t = .int n → NoDigit s)
      (h : Spells ts s) : Spells (t :: ts) (t.write ++ s)

theorem spells_singleton (t : Token) : Spells [t] t.write := by
  have h := Spells.token (t := t) (s := []) (fun _ _ c hc => by cases hc) .nil
  rwa [List.append_nil] at h

theorem spells_append {ts us : List Token} {s r : List Char} (hs : Spells ts s) (hr : Spells us r)
    (hn : NoDigit r) : Spells (ts ++ us) (s ++ r) := by
  induction hs with
  | nil => exact hr
  | space hc _ ih => exact .space hc ih
  | token hs _ ih =>
    rw [List.append_assoc]
    exact .token (fun n hint => noDigit_append (hs n hint) hn) ih

theorem tokens?_cons_of_isSpace {c : Char} (h : isSpace c = true) (s : List Char) :
    tokens? (c :: s) = tokens? s := by
  rw [tokens?, if_pos h]

theorem tokens?_of_readToken {c : Char} {s r : List Char} {t : Token} (h : isSpace c = false)
    (hread : readToken (c :: s) = some (t, r)) : tokens? (c :: s) = (tokens? r).map (t :: ·) := by
  rw [tokens?, if_neg (by simp [h])]
  split
  · rename_i hnone
    rw [hread] at hnone
    cases hnone
  · rename_i hsome
    rw [hread] at hsome
    cases hsome
    rfl

/-- A text of a row of tokens is read as that row. -/
theorem tokens?_of_spells {ts : List Token} {s : List Char} (h : Spells ts s) :
    tokens? s = some ts := by
  induction h with
  | nil => rw [tokens?]
  | space hc _ ih => rw [tokens?_cons_of_isSpace hc, ih]
  | @token t ts s hs _ ih =>
    have hread := readToken_write hs
    obtain ⟨c, r, hw, hc⟩ := exists_write_eq_cons t
    rw [hw, List.cons_append] at hread ⊢
    rw [tokens?_of_readToken hc hread, ih]
    rfl

/-! ## No control characters -/

theorem le_toNat_of_isDigit {c : Char} (h : c.isDigit = true) : 0x20 ≤ c.toNat := by
  simp only [Char.isDigit, Bool.and_eq_true, decide_eq_true_eq] at h
  have hlow : (48 : UInt32).toNat ≤ c.val.toNat := UInt32.le_iff_toNat_le.1 h.1
  exact Nat.le_trans (by decide) hlow

theorem le_toNat_of_mem_escape {c d : Char} (h : d ∈ escape c) : 0x20 ≤ d.toNat := by
  rcases escape_cases c with ⟨he, -, -, hc⟩ | ⟨s, he, -, hs⟩
  · rw [he, List.mem_singleton] at h
    rwa [h]
  · rw [he, List.mem_cons] at h
    rcases h with rfl | h
    · decide
    · exact hs d h

theorem le_toNat_of_mem_writeInt {n : Int} {d : Char} (h : d ∈ writeInt n) : 0x20 ≤ d.toNat := by
  unfold writeInt at h
  split at h
  · rcases List.mem_cons.1 h with rfl | h
    · decide
    · exact le_toNat_of_isDigit (isDigit_of_mem_toDigits d h)
  · exact le_toNat_of_isDigit (isDigit_of_mem_toDigits d h)

theorem le_toNat_of_mem_of_all {s : List Char} {d : Char}
    (hs : s.all (fun c => decide (0x20 ≤ c.toNat)) = true) (h : d ∈ s) : 0x20 ≤ d.toNat :=
  of_decide_eq_true (List.all_eq_true.1 hs d h)

/-- No token is written with a control character. -/
theorem le_toNat_of_mem_write {t : Token} {d : Char} (h : d ∈ t.write) : 0x20 ≤ d.toNat := by
  cases t with
  | int n => exact le_toNat_of_mem_writeInt h
  | text s =>
    simp only [Token.write, quote, List.mem_cons, List.mem_append, List.mem_flatMap,
      List.not_mem_nil, or_false] at h
    rcases h with rfl | ⟨c, -, hd⟩ | rfl
    · decide
    · exact le_toNat_of_mem_escape hd
    · decide
  | bool b => cases b <;> exact le_toNat_of_mem_of_all (by decide) h
  | _ => exact le_toNat_of_mem_of_all (by decide) h

end BugQuery.Json
