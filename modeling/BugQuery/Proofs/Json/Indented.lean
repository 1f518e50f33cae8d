import BugQuery.Proofs.Json.RoundTrip

/-!
# Indented payloads read back

The indented text of a payload is a text of the same row of tokens as the
text on one line: line breaks and blanks stand between tokens only, behind
brackets, commas and colons. So both are read back as the payload.

* `spells_block`: items in brackets, each on a line of its own, spell their tokens.
* `payload?_indented`: the indented text of a payload is read as the payload.
-/
namespace BugQuery.Json

theorem isSpace_of_mem_newline {depth : Nat} {c : Char} (h : c ∈ newline depth) :
    isSpace c = true := by
  rcases List.mem_cons.1 h with rfl | h
  · decide
  · rw [List.eq_of_mem_replicate h]
    decide

theorem spells_append_of_isSpace {ts : List Token} {w s : List Char}
    (hw : ∀ c ∈ w, isSpace c = true) (h : Spells ts s) : Spells ts (w ++ s) := by
  induction w with
  | nil => exact h
  | cons c w ih =>
    rw [List.forall_mem_cons] at hw
    exact .space hw.1 (ih hw.2)

theorem spells_newline {ts : List Token} {s : List Char} (depth : Nat) (h : Spells ts s) :
    Spells ts (newline depth ++ s) :=
  spells_append_of_isSpace (fun _ hc => isSpace_of_mem_newline hc) h

theorem noDigit_newline (depth : Nat) (s : List Char) : NoDigit (newline depth ++ s) := by
  intro c hc
  cases hc
  decide

/-- A token that is no number can be followed by anything. -/
theorem spells_cons {t : Token} {ts : List Token} {s : List Char} (ht : ∀ n, t ≠ .int n)
    (h : Spells ts s) : Spells (t :: ts) (t.write ++ s) :=
  .token (fun n hn => absurd hn (ht n)) h

section

variable {α : Type} {tokens : α → List Token} {text : α → List Char}

/-- The items behind the first one, and the closing bracket. -/
theorem spells_further (closing : Token) (depth : Nat) {xs : List α}
    (h : ∀ x ∈ xs, Spells (tokens x) (text x)) :
    Spells ((xs.flatMap fun x => .comma :: tokens x) ++ [closing])
      ((xs.flatMap fun x => Token.comma.write ++ newline (depth + 1) ++ text x) ++
        (newline depth ++ closing.write)) ∧
    NoDigit ((xs.flatMap fun x => Token.comma.write ++ newline (depth + 1) ++ text x) ++
      (newline depth ++ closing.write)) := by
  induction xs with
  | nil => exact ⟨spells_newline depth (spells_singleton closing), noDigit_newline depth _⟩
  | cons x xs ih =>
    rw [List.forall_mem_cons] at h
    obtain ⟨hspells, hdigit⟩ := ih h.2
    simp only [List.flatMap_cons, List.append_assoc, List.cons_append]
    refine ⟨spells_cons (by simp) (spells_newline _ (spells_append h.1 hspells hdigit)), ?_⟩
    intro c hc
    cases hc
    decide

/-- Items in brackets, each on a line of its own, spell the items with commas between them. -/
theorem spells_block {opening closing : Token} (ho : ∀ n, opening ≠ .int n) (depth : Nat)
    {xs : List α} (h : ∀ x ∈ xs, Spells (tokens x) (text x)) :
    Spells (opening :: (commaJoin (xs.map tokens) ++ [closing]))
      (block opening closing depth (xs.map text)) := by
  cases xs with
  | nil => exact spells_cons ho (spells_singleton closing)
  | cons x xs =>
    rw [List.forall_mem_cons] at h
    obtain ⟨hspells, hdigit⟩ := spells_further closing depth h.2
    rw [List.map_cons, List.map_cons, commaJoin_cons, block]
    simp only [List.flatMap_map, List.append_assoc] at hspells hdigit ⊢
    exact spells_cons ho (spells_newline _ (spells_append h.1 hspells hdigit))

end

theorem spells_indentedValue (v : PayloadValue) : Spells (valueTokens v) (indentedValue v) := by
  cases v with
  | list items =>
    rw [valueTokens_list]
    exact spells_block (by simp) 1 fun s _ => spells_singleton (.text s)
  | _ => exact compact_valueTokens _

/-- An entry is written with a blank behind its colon. -/
theorem spells_indentedEntry (e : String × PayloadValue) : Spells (entryTokens e)
    ((Token.text e.1).write ++ Token.colon.write ++ [' '] ++ indentedValue e.2) := by
  simp only [List.append_assoc]
  exact spells_cons (by simp) <| spells_cons (by simp) <|
    spells_append_of_isSpace (by simp [isSpace]) (spells_indentedValue e.2)

/-- The indented text of a payload is read as the payload. -/
theorem payload?_indented (p : Payload) : payload? (indented p) = some p := by
  refine payload?_of_spells ?_
  rw [payloadTokens_eq, indented, String.toList_ofList]
  exact spells_block (by simp) 0 fun e _ => spells_indentedEntry e

end BugQuery.Json
