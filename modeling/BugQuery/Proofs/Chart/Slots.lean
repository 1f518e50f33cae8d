import BugQuery.Chart
import BugQuery.Proofs.Expr.Terms

/-!
# The keys of charts

Every key of a chart is one of four kinds, with the numbers it stands for in
decimal digits. A `Slot` is such a key taken apart, and no two slots have the
same key: digits hold no hyphen, so a position is read back from its text,
and the four stems differ in their first letter.

* `Position.text_injective`: a position is determined by its text.
* `Slot.key_injective`: no two slots share a key.
* `keys_apart`: the same of the keys as they are written, with any stem for the positions.
* `mem_entriesFrom`, `get?_key_ofList_entriesFrom`: the entries of charts numbered in a row are
  what their slots hold.
-/
namespace BugQuery

/-- A number is read back from its digits. -/
theorem ofDigitChars_toString (n : Nat) : Nat.ofDigitChars 10 (toString n).toList 0 = n := by
  rw [Nat.toString_eq_ofList_toDigits, String.toList_ofList, Nat.ofDigitChars_ten_toDigits]

theorem eq_of_toList_toString {m n : Nat} (h : (toString m).toList = (toString n).toList) :
    m = n := by
  rw [← ofDigitChars_toString m, h, ofDigitChars_toString]

theorem hyphen_not_mem_toString (n : Nat) : '-' ∉ (toString n).toList := by
  rw [Nat.toString_eq_ofList_toDigits, String.toList_ofList]
  intro h
  exact absurd (Nat.isDigit_of_mem_toDigits (by decide) (by decide) h) (by decide)

theorem append_hyphen_injective {a b c d : List Char} (h : a ++ '-' :: b = c ++ '-' :: d)
    (ha : '-' ∉ a) (hc : '-' ∉ c) : a = c ∧ b = d := by
  have h1 : Text.cut? '-' (a ++ '-' :: b) = some (a, b) := Text.cut?_eq_some.2 ⟨rfl, ha⟩
  have h2 : Text.cut? '-' (c ++ '-' :: d) = some (c, d) := Text.cut?_eq_some.2 ⟨rfl, hc⟩
  rw [h, h2] at h1
  cases h1
  exact ⟨rfl, rfl⟩

theorem Position.text_injective {p q : Position} (h : p.text = q.text) : p = q := by
  have h' := congrArg String.toList h
  simp only [Position.text, String.toList_append, List.append_assoc] at h'
  have hdigits := hyphen_not_mem_toString
  obtain ⟨hc, h'⟩ := append_hyphen_injective h' (hdigits _) (hdigits _)
  obtain ⟨hr, hk⟩ := append_hyphen_injective h' (hdigits _) (hdigits _)
  cases p
  cases q
  rw [Position.mk.injEq]
  exact ⟨eq_of_toList_toString hc, eq_of_toList_toString hr, eq_of_toList_toString hk⟩

theorem Position.key_injective {p q : Position} {stem : String} (h : p.key stem = q.key stem) :
    p = q := by
  have h' := congrArg String.toList h
  simp only [Position.key, String.toList_append, List.append_cancel_left_eq] at h'
  exact Position.text_injective (String.toList_inj.1 h')

namespace Chart

theorem negateKey_injective {m n : Nat} (h : negateKey m = negateKey n) : m = n := by
  have h' := congrArg String.toList h
  simp only [negateKey, String.toList_append, List.append_cancel_left_eq] at h'
  exact eq_of_toList_toString h'

/-- What a key of a chart stands for. -/
inductive Slot where
  | field (p : Position)
  | type (p : Position)
  | value (p : Position)
  | negate (chart : Nat)
  deriving DecidableEq, Repr

namespace Slot

def stem : Slot → String
  | field _ => "field"
  | type _ => "type"
  | value _ => "value"
  | negate _ => "negate"

def key : Slot → String
  | field p => p.key "field"
  | type p => p.key "type"
  | value p => p.key "value"
  | negate n => negateKey n

theorem stem_of_key_eq {s t : Slot} (h : s.key = t.key) : s.stem = t.stem := by
  have h' := congrArg (fun k => k.toList.head?) h
  cases s <;> cases t <;> simp [key, stem, Position.key, negateKey] at h' ⊢

theorem key_injective {s t : Slot} (h : s.key = t.key) : s = t := by
  have hs := stem_of_key_eq h
  cases s <;> cases t <;> simp only [stem, String.reduceEq] at hs
  · rw [Position.key_injective h]
  · rw [Position.key_injective h]
  · rw [Position.key_injective h]
  · rw [negateKey_injective h]

end Slot

/-- The stems of the keys of a term. -/
def termStems : List String := ["field", "type", "value"]

theorem exists_slot {stem : String} (h : stem ∈ termStems) (p : Position) :
    ∃ s : Slot, s.stem = stem ∧ s.key = p.key stem := by
  simp only [termStems, List.mem_cons, List.not_mem_nil, or_false] at h
  rcases h with rfl | rfl | rfl
  · exact ⟨.field p, rfl, rfl⟩
  · exact ⟨.type p, rfl, rfl⟩
  · exact ⟨.value p, rfl, rfl⟩

/-- With any one stem a key tells its three numbers; the keys of a term never coincide under two
stems, nor with the mark of a negation, and such a mark tells its number. -/
theorem keys_apart :
    (∀ (stem : String) (c r k c' r' k' : Nat),
      (Position.mk c r k).key stem = (Position.mk c' r' k').key stem ↔
        c = c' ∧ r = r' ∧ k = k') ∧
    (∀ stem ∈ termStems, ∀ stem' ∈ termStems, stem ≠ stem' →
      ∀ p q : Position, p.key stem ≠ q.key stem') ∧
    (∀ stem ∈ termStems, ∀ (p : Position) (n : Nat), p.key stem ≠ negateKey n) ∧
    ∀ m n : Nat, negateKey m = negateKey n ↔ m = n := by
  refine ⟨?_, ?_, ?_, ?_⟩
  · intro stem c r k c' r' k'
    constructor
    · intro h
      cases Position.key_injective h
      exact ⟨rfl, rfl, rfl⟩
    · intro h
      obtain ⟨rfl, rfl, rfl⟩ := h
      rfl
  · intro stem hstem stem' hstem' hne p q h
    obtain ⟨s, rfl, hs⟩ := exists_slot hstem p
    obtain ⟨t, rfl, ht⟩ := exists_slot hstem' q
    exact hne (Slot.stem_of_key_eq (hs.trans (h.trans ht.symm)))
  · intro stem hstem p n h
    obtain ⟨s, rfl, hs⟩ := exists_slot hstem p
    have hnegate : s.stem = "negate" := Slot.stem_of_key_eq (t := .negate n) (hs.trans h)
    rw [hnegate] at hstem
    exact absurd hstem (by decide)
  · intro m n
    exact ⟨negateKey_injective, congrArg negateKey⟩

/-! ## What charts hold -/

end Chart

/-- The wire name of a field; a name that the table does not know stands for itself. -/
def TermField.wireName (fields : FieldTable) : TermField → String
  | verbatim name => name
  | shortcut name => fields.translate name

theorem TermField.wireName_of_wire? {fields : FieldTable} {f : TermField} {wire : String}
    (h : f.wire? fields = some wire) : f.wireName fields = wire := by
  cases f with
  | verbatim name => exact Option.some.inj h
  | shortcut name =>
    rw [TermField.wire?] at h
    rw [wireName, FieldTable.translate, h]
    rfl

/-- The term at a row and a column. -/
def Expr.term? (e : Expr) (row column : Nat) : Option Term := e.rows[row]?.bind (·[column]?)

theorem Expr.mem_positionedTerms_iff_term? {e : Expr} {r k : Nat} {t : Term} :
    (r, k, t) ∈ e.positionedTerms ↔ e.term? r k = some t := by
  rw [mem_positionedTerms, term?, Option.bind_eq_some_iff]

namespace Chart

/-- The entries of an expression as chart number `n`. -/
def entries (fields : FieldTable) (n : Nat) (e : Expr) : List (String × PayloadValue) :=
  e.positionedTerms.flatMap
      (fun x => termEntries ⟨n, x.1, x.2.1⟩ (x.2.2.field.wireName fields) x.2.2) ++
    if e.negate then [(negateKey n, .int 1)] else []

/-- The entries of expressions as charts, the first of which has number `n`. -/
def entriesFrom (fields : FieldTable) : Nat → List Expr → List (String × PayloadValue)
  | _, [] => []
  | n, e :: es => entries fields n e ++ entriesFrom fields (n + 1) es

namespace Slot

def chart : Slot → Nat
  | field p => p.chart
  | type p => p.chart
  | value p => p.chart
  | negate n => n

/-- What a slot of the chart of an expression holds. -/
def held? (fields : FieldTable) (e : Expr) : Slot → Option PayloadValue
  | field p => (e.term? p.row p.column).map fun t => .text (t.field.wireName fields)
  | type p => (e.term? p.row p.column).map fun t => .text t.operator
  | value p => (e.term? p.row p.column).map fun t => .text t.value
  | negate _ => if e.negate then some (.int 1) else none

end Slot

theorem mem_entries {fields : FieldTable} {n : Nat} {e : Expr} {k : String} {v : PayloadValue} :
    (k, v) ∈ entries fields n e ↔
      ∃ s : Slot, s.chart = n ∧ s.key = k ∧ s.held? fields e = some v := by
  simp only [entries, List.mem_append, List.mem_flatMap, Prod.exists, termEntries, List.mem_cons,
    Prod.mk.injEq, List.not_mem_nil, or_false, Expr.mem_positionedTerms_iff_term?]
  constructor
  · intro hcases
    rcases hcases with ⟨r, c, t, ht, h⟩ | h
    · rcases h with ⟨rfl, rfl⟩ | ⟨rfl, rfl⟩ | ⟨rfl, rfl⟩
      · exact ⟨.field ⟨n, r, c⟩, rfl, rfl, by simp [Slot.held?, ht]⟩
      · exact ⟨.type ⟨n, r, c⟩, rfl, rfl, by simp [Slot.held?, ht]⟩
      · exact ⟨.value ⟨n, r, c⟩, rfl, rfl, by simp [Slot.held?, ht]⟩
    · by_cases hn : e.negate = true
      · simp only [hn, if_true, List.mem_singleton, Prod.mk.injEq] at h
        exact ⟨.negate n, rfl, h.1.symm, by simp [Slot.held?, hn, h.2]⟩
      · simp [hn] at h
  · intro hex
    obtain ⟨s, rfl, rfl, h⟩ := hex
    cases s with
    | field p =>
      obtain ⟨t, ht, rfl⟩ := Option.map_eq_some_iff.1 h
      exact .inl ⟨p.row, p.column, t, ht, .inl ⟨rfl, rfl⟩⟩
    | type p =>
      obtain ⟨t, ht, rfl⟩ := Option.map_eq_some_iff.1 h
      exact .inl ⟨p.row, p.column, t, ht, .inr (.inl ⟨rfl, rfl⟩)⟩
    | value p =>
      obtain ⟨t, ht, rfl⟩ := Option.map_eq_some_iff.1 h
      exact .inl ⟨p.row, p.column, t, ht, .inr (.inr ⟨rfl, rfl⟩)⟩
    | negate n =>
      by_cases hn : e.negate = true
      · simp only [Slot.held?, hn, if_true, Option.some.injEq] at h
        right
        simp [hn, Slot.key, Slot.chart, h]
      · simp [Slot.held?, hn] at h

theorem mem_entriesFrom {fields : FieldTable} {k : String} {v : PayloadValue} :
    ∀ {n : Nat} {es : List Expr}, (k, v) ∈ entriesFrom fields n es ↔
      ∃ (s : Slot) (i : Nat) (e : Expr), s.chart = n + i ∧ es[i]? = some e ∧ s.key = k ∧
        s.held? fields e = some v
  | n, [] => by simp [entriesFrom]
  | n, e :: es => by
    rw [entriesFrom, List.mem_append, mem_entries, mem_entriesFrom]
    constructor
    · intro hcases
      rcases hcases with ⟨s, hs, hk, hv⟩ | ⟨s, i, e', hs, he, hk, hv⟩
      · exact ⟨s, 0, e, hs, rfl, hk, hv⟩
      · exact ⟨s, i + 1, e', by omega, he, hk, hv⟩
    · intro hex
      obtain ⟨s, i, e', hs, he, hk, hv⟩ := hex
      cases i with
      | zero =>
        cases he
        exact .inl ⟨s, hs, hk, hv⟩
      | succ i => exact .inr ⟨s, i, e', by omega, he, hk, hv⟩

/-- Slots have their own keys, so an entry's key decides its value. -/
theorem entriesFrom_functional {fields : FieldTable} {n : Nat} {es : List Expr} {k : String}
    {v w : PayloadValue} (hv : (k, v) ∈ entriesFrom fields n es)
    (hw : (k, w) ∈ entriesFrom fields n es) : v = w := by
  obtain ⟨s, i, e, hs, he, hk, h⟩ := mem_entriesFrom.1 hv
  obtain ⟨s', i', e', hs', he', hk', h'⟩ := mem_entriesFrom.1 hw
  obtain rfl := Slot.key_injective (hk.trans hk'.symm)
  obtain rfl : i = i' := by omega
  rw [he] at he'
  cases he'
  rw [h] at h'
  exact Option.some.inj h'

/-- A payload made of charts holds what their slots hold and nothing else. -/
theorem get?_ofList_entriesFrom {fields : FieldTable} {n : Nat} {es : List Expr} {k : String}
    {v : PayloadValue} : (SortedMap.ofList (entriesFrom fields n es)).get? k = some v ↔
      ∃ (s : Slot) (i : Nat) (e : Expr), s.chart = n + i ∧ es[i]? = some e ∧ s.key = k ∧
        s.held? fields e = some v := by
  rw [SortedMap.get?_ofList_eq_some_iff fun _ _ => entriesFrom_functional, mem_entriesFrom]

/-- Among charts numbered from 0, a slot's key finds what the slot holds in its chart. -/
theorem get?_key_ofList_entriesFrom (fields : FieldTable) (es : List Expr) (s : Slot) :
    (SortedMap.ofList (entriesFrom fields 0 es)).get? s.key =
      es[s.chart]?.bind fun e => s.held? fields e := by
  ext v
  rw [get?_ofList_entriesFrom, Option.bind_eq_some_iff]
  constructor
  · intro hex
    obtain ⟨t, i, e, hc, he, hk, hv⟩ := hex
    obtain rfl := Slot.key_injective hk
    rw [hc, Nat.zero_add]
    exact ⟨e, he, hv⟩
  · intro hex
    obtain ⟨e, he, hv⟩ := hex
    exact ⟨s, s.chart, e, (Nat.zero_add _).symm, he, rfl, hv⟩

theorem entriesFrom_append (fields : FieldTable) : ∀ (n : Nat) (es fs : List Expr),
    entriesFrom fields n (es ++ fs) =
      entriesFrom fields n es ++ entriesFrom fields (n + es.length) fs
  | n, [], fs => rfl
  | n, e :: es, fs => by
    rw [List.cons_append, entriesFrom, entriesFrom_append fields (n + 1) es fs, entriesFrom,
      List.append_assoc, List.length_cons, show n + 1 + es.length = n + (es.length + 1) by omega]

end Chart

end BugQuery
