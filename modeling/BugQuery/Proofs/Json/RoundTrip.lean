import BugQuery.Json.Object
import BugQuery.Proofs.FirstFailure
import BugQuery.Proofs.Json.Tokens

/-!
# Payloads and option sets read back

The text of a payload is read back as that payload, each value of the kind
it was. The row of its tokens is read back to its entries, and the text is a
text of that row: numbers stand before a comma or a closing bracket only. An
object gives options where no value of it is a number.

* `readValue_valueTokens`, `readEntries_commaJoin`: the tokens of values and of entries.
* `entries?_of_spells`: any text of an object's tokens gives its entries.
* `payload?_compact`: the one-line text of a payload is read as the payload.
* `optionSet?_eq_some`, `gives_of_writes`: which texts give options, and which.
-/
namespace BugQuery.Json

/-! ## Tokens to entries -/

theorem commaJoin_cons (x : List Token) (xs : List (List Token)) :
    commaJoin (x :: xs) = x ++ xs.flatMap fun y => .comma :: y := by
  induction xs generalizing x with
  | nil => simp [commaJoin]
  | cons y ys ih => rw [commaJoin, ih, List.flatMap_cons, List.cons_append]

theorem moreTexts_append (items : List String) (r : List Token) :
    moreTexts (items.flatMap (fun s => [.comma, .text s]) ++ .closeList :: r) = some (items, r) := by
  induction items with
  | nil => rfl
  | cons s items ih =>
    rw [List.flatMap_cons, List.append_assoc]
    simp only [List.cons_append, List.nil_append, moreTexts, ih, Option.map_some]

theorem readTexts_commaJoin (items : List String) (r : List Token) :
    readTexts (commaJoin (items.map fun s => [.text s]) ++ .closeList :: r) = some (items, r) := by
  cases items with
  | nil => rfl
  | cons s items =>
    rw [List.map_cons, commaJoin_cons, List.flatMap_map, List.append_assoc]
    simp only [List.cons_append, List.nil_append, readTexts, moreTexts_append, Option.map_some]

theorem valueTokens_list (items : List String) : valueTokens (.list items) =
    .openList :: (commaJoin (items.map fun s => [.text s]) ++ [.closeList]) := rfl

theorem readValue_valueTokens (v : PayloadValue) (r : List Token) :
    readValue (valueTokens v ++ r) = some (v, r) := by
  cases v with
  | int n =>
    have hn : Int64.minValue.toInt ≤ n.toInt ∧ n.toInt ≤ Int64.maxValue.toInt :=
      ⟨n.minValue_le_toInt, n.toInt_le⟩
    rw [valueTokens, List.cons_append, readValue, if_pos hn, Int64.ofInt_toInt]
    rfl
  | list items =>
    rw [valueTokens_list, List.cons_append, List.append_assoc, List.singleton_append, readValue,
      readTexts_commaJoin, Option.map_some]
  | bool b => rfl
  | text s => rfl

/-- The tokens of an entry. -/
def entryTokens (e : String × PayloadValue) : List Token := .text e.1 :: .colon :: valueTokens e.2

/-- The tokens of an object. -/
def objectTokens (es : List (String × PayloadValue)) : List Token :=
  .openObject :: (commaJoin (es.map entryTokens) ++ [.closeObject])

theorem payloadTokens_eq (p : Payload) : payloadTokens p = objectTokens p.entries := rfl

theorem moreEntries_cons {k : String} {v : PayloadValue} {s r : List Token}
    (h : readValue s = some (v, r)) : moreEntries (.comma :: .text k :: .colon :: s) =
      (moreEntries r).map fun x => ((k, v) :: x.1, x.2) := by
  rw [moreEntries]
  split
  · rename_i hnone
    rw [h] at hnone
    cases hnone
  · rename_i hsome
    rw [h] at hsome
    cases hsome
    rfl

theorem moreEntries_append (es : List (String × PayloadValue)) (r : List Token) :
    moreEntries (es.flatMap (fun e => .comma :: entryTokens e) ++ .closeObject :: r) =
      some (es, r) := by
  induction es with
  | nil => rw [List.flatMap_nil, List.nil_append, moreEntries]
  | cons e es ih =>
    rw [List.flatMap_cons, List.append_assoc, entryTokens]
    simp only [List.cons_append, moreEntries_cons (readValue_valueTokens e.2 _), ih,
      Option.map_some]

theorem readEntries_commaJoin (es : List (String × PayloadValue)) (r : List Token) :
    readEntries (commaJoin (es.map entryTokens) ++ .closeObject :: r) = some (es, r) := by
  cases es with
  | nil => rfl
  | cons e es =>
    rw [List.map_cons, commaJoin_cons, List.flatMap_map, List.append_assoc, entryTokens]
    simp only [List.cons_append, readEntries, readValue_valueTokens, moreEntries_append,
      Option.bind_eq_bind, Option.bind_some]

/-- However its tokens are laid out, an object is read back. -/
theorem entries?_of_spells {es : List (String × PayloadValue)} {s : String}
    (h : Spells (objectTokens es) s.toList) : entries? s = some es := by
  rw [entries?, tokens?_of_spells h, objectTokens]
  simp only [Option.bind_eq_bind, Option.bind_some, readEntries_commaJoin]

theorem payload?_of_spells {p : Payload} {s : String} (h : Spells (payloadTokens p) s.toList) :
    payload? s = some p := by
  rw [payload?, entries?_of_spells h, Option.map_some, SortedMap.ofList_entries]

/-! ## The text without blanks -/

/-- Written one after the other, the tokens are read back. -/
def Compact (ts : List Token) : Prop := Spells ts (ts.flatMap Token.write)

theorem compact_singleton (t : Token) : Compact [t] := by
  rw [Compact, List.flatMap_singleton]
  exact spells_singleton t

theorem compact_append {ts us : List Token} (ht : Compact ts) (hu : Compact us)
    (hn : NoDigit (us.flatMap Token.write)) : Compact (ts ++ us) := by
  rw [Compact, List.flatMap_append]
  exact spells_append ht hu hn

/-- Only a number may not stand after a number. -/
theorem noDigit_flatMap_write {t : Token} (ht : ∀ n, t ≠ .int n) (ts : List Token) :
    NoDigit ((t :: ts).flatMap Token.write) := by
  cases t with
  | int n => exact absurd rfl (ht n)
  | bool b => cases b <;> (intro c hc; cases hc; decide)
  | _ => intro c hc; cases hc; decide

theorem compact_cons {t : Token} {ts : List Token} (ht : ∀ n, t ≠ .int n) (h : Compact ts) :
    Compact (t :: ts) :=
  .token (fun n hn => absurd hn (ht n)) h

theorem noDigit_commas (xs : List (List Token)) {t : Token} (ht : ∀ n, t ≠ .int n) :
    NoDigit ((xs.flatMap (fun y => .comma :: y) ++ [t]).flatMap Token.write) := by
  cases xs with
  | nil => exact noDigit_flatMap_write ht []
  | cons x xs => exact noDigit_flatMap_write (by simp) _

theorem compact_commas {xs : List (List Token)} (h : ∀ x ∈ xs, Compact x) {t : Token}
    (ht : ∀ n, t ≠ .int n) : Compact (xs.flatMap (fun y => .comma :: y) ++ [t]) := by
  induction xs with
  | nil => exact compact_singleton t
  | cons x xs ih =>
    rw [List.forall_mem_cons] at h
    rw [List.flatMap_cons, List.append_assoc]
    exact compact_append (compact_cons (by simp) h.1) (ih h.2) (noDigit_commas xs ht)

theorem compact_bracketed {xs : List (List Token)} (h : ∀ x ∈ xs, Compact x) {s t : Token}
    (hs : ∀ n, s ≠ .int n) (ht : ∀ n, t ≠ .int n) : Compact (s :: (commaJoin xs ++ [t])) := by
  refine compact_cons hs ?_
  cases xs with
  | nil => exact compact_singleton t
  | cons x xs =>
    rw [List.forall_mem_cons] at h
    rw [commaJoin_cons, List.append_assoc]
    exact compact_append h.1 (compact_commas h.2 ht) (noDigit_commas xs ht)

theorem compact_valueTokens (v : PayloadValue) : Compact (valueTokens v) := by
  cases v with
  | list items =>
    refine compact_bracketed ?_ (by simp) (by simp)
    simp only [List.forall_mem_map]
    exact fun s _ => compact_singleton (.text s)
  | _ => exact compact_singleton _

theorem compact_objectTokens (es : List (String × PayloadValue)) : Compact (objectTokens es) := by
  refine compact_bracketed ?_ (by simp) (by simp)
  simp only [List.forall_mem_map]
  exact fun e _ => compact_cons (by simp) (compact_cons (by simp) (compact_valueTokens e.2))

theorem compact_payloadTokens (p : Payload) : Compact (payloadTokens p) :=
  compact_objectTokens p.entries

/-- The one-line text of a payload is read as the payload. It has no control character in it, so
it is one line. -/
theorem payload?_compact (p : Payload) :
    payload? (compact p) = some p ∧ (∀ c ∈ (compact p).toList, 0x20 ≤ c.toNat) ∧
      (compact p).toList.splitOn '\n' = [(compact p).toList] := by
  have hprintable : ∀ c ∈ (compact p).toList, 0x20 ≤ c.toNat := by
    intro c hc
    rw [compact, String.toList_ofList, List.mem_flatMap] at hc
    obtain ⟨t, -, hc⟩ := hc
    exact le_toNat_of_mem_write hc
  refine ⟨payload?_of_spells ?_, hprintable, List.splitOn_eq_singleton fun hbreak => ?_⟩
  · rw [compact, String.toList_ofList]
    exact compact_payloadTokens p
  · exact absurd (hprintable '\n' hbreak) (by decide)

/-! ## Option sets -/

/-- An option value as a value of an object. -/
def ofOption : OptionValue → PayloadValue
  | .flag on => .bool on
  | .text s => .text s
  | .list items => .list items

def ofOptions (es : List (String × OptionValue)) : List (String × PayloadValue) :=
  es.map fun e => (e.1, ofOption e.2)

/-- The text `s` is an object of option values, and these make `o`: the last one of a key counts. -/
def Gives (s : String) (o : OptionSet) : Prop :=
  ∃ es, entries? s = some (ofOptions es) ∧ SortedMap.ofList es = o

/-- The text `s` is written from the options `o`, as one object with the keys in any order. -/
def Writes (o : OptionSet) (s : String) : Prop :=
  ∃ es, SortedMap.ofList es = o ∧ Spells (objectTokens (ofOptions es)) s.toList

theorem optionValue?_eq_some {v : PayloadValue} {w : OptionValue} :
    optionValue? v = some w ↔ v = ofOption w := by
  cases v <;> cases w <;> simp [optionValue?, ofOption]

theorem optionSet?_eq_some {s : String} {o : OptionSet} : optionSet? s = some o ↔ Gives s o := by
  have hentry : ∀ {e : String × PayloadValue} {f : String × OptionValue},
      (optionValue? e.2).map (fun v => (e.1, v)) = some f ↔ e = (f.1, ofOption f.2) := by
    intro e f
    simp only [Option.map_eq_some_iff, optionValue?_eq_some, Prod.ext_iff]
    constructor
    · intro hex
      obtain ⟨v, hv, hkey, rfl⟩ := hex
      exact ⟨hkey, hv⟩
    · intro h
      exact ⟨f.2, h.2, h.1, rfl⟩
  have hentries : ∀ {es : List (String × PayloadValue)} {fs : List (String × OptionValue)},
      es.mapM (fun e => (optionValue? e.2).map fun v => (e.1, v)) = some fs ↔ es = ofOptions fs :=
    FirstFailure.mapM_eq_some_iff hentry
  simp only [optionSet?, Gives, Option.bind_eq_bind, Option.bind_eq_some_iff, hentries,
    Option.some.injEq]
  constructor
  · intro hex
    obtain ⟨_, hes, fs, rfl, ho⟩ := hex
    exact ⟨fs, hes, ho⟩
  · intro hex
    obtain ⟨fs, hes, ho⟩ := hex
    exact ⟨_, hes, fs, rfl, ho⟩

theorem optionSet?_eq_none {s : String} : optionSet? s = none ↔ ∀ o, ¬ Gives s o := by
  simp only [Option.eq_none_iff_forall_ne_some, ne_eq, optionSet?_eq_some]

theorem gives_of_writes {o : OptionSet} {s : String} (h : Writes o s) : Gives s o := by
  obtain ⟨es, ho, hs⟩ := h
  exact ⟨es, entries?_of_spells hs, ho⟩

theorem exists_writes (o : OptionSet) : ∃ s, Writes o s := by
  refine ⟨String.ofList ((objectTokens (ofOptions o.entries)).flatMap Token.write), o.entries,
    SortedMap.ofList_entries o, ?_⟩
  rw [String.toList_ofList]
  exact compact_objectTokens _

end BugQuery.Json
