import BugQuery.Proofs.Chart.Entries

/-!
# What becomes of an expression

Any expression can be asked for as a chart: rows may be empty, and a row may
mix fields that are written out with fields that options stand for. Terms are
taken row after row. The first one whose option the table does not know is
reported; if there is none, every term is found at its place, and nothing else
is there but the mark of a negation. Written fields are not looked up.

* `firstUnknown_of_find?`, `FirstUnknown.unique`: the term that is reported.
* `find?_unknown_eq_none`, `encode_eq_error_iff`: when the encoding fails, and with what.
* `holds_fragment`: the entries of a chart, term by term.
* `encodeTerms_congr`: the table is asked for options only.
* `encode_exact`: how the encoding of an expression ends, and what it holds.
-/
namespace BugQuery

/-- The name of a field on the wire: a written one is sent as it is, an option's is looked up. -/
inductive TermField.Named (fields : FieldTable) : TermField → String → Prop where
  | written (name : String) : Named fields (.verbatim name) name
  | found {name wire : String} (h : fields.get? name = some wire) :
    Named fields (.shortcut name) wire

theorem TermField.named_iff {fields : FieldTable} {f : TermField} {wire : String} :
    f.Named fields wire ↔ f.wire? fields = some wire := by
  cases f with
  | verbatim name =>
    constructor
    · intro h
      cases h
      rfl
    · intro h
      cases h
      exact .written _
  | shortcut name =>
    constructor
    · intro h
      cases h with
      | found h => exact h
    · intro h
      exact .found h

theorem TermField.wire?_eq_none {fields : FieldTable} {f : TermField} :
    f.wire? fields = none ↔ ∃ name, f = .shortcut name ∧ fields.get? name = none := by
  unfold wire?
  cases f <;> simp

namespace Chart

open BugQuery.Expr (Earlier)

/-! ## The term that is reported -/

/-- The term at the row and column names an option that the table does not know. -/
def UnknownAt (fields : FieldTable) (e : Expr) (r k : Nat) (name : String) : Prop :=
  ∃ t, e.term? r k = some t ∧ t.field = .shortcut name ∧ fields.get? name = none

/-- The first term that names an option which the table does not know names this one. -/
def FirstUnknown (fields : FieldTable) (e : Expr) (name : String) : Prop :=
  ∃ r k, UnknownAt fields e r k name ∧
    ∀ r' k' other, Earlier r' k' r k → ¬ UnknownAt fields e r' k' other

variable {fields : FieldTable} {e : Expr}

theorem FirstUnknown.unique {a b : String} (ha : FirstUnknown fields e a)
    (hb : FirstUnknown fields e b) : a = b := by
  obtain ⟨r, k, hat, hearlier⟩ := ha
  obtain ⟨r', k', hat', hearlier'⟩ := hb
  rcases Expr.earlier_trichotomy r k r' k' with h | ⟨rfl, rfl⟩ | h
  · exact absurd hat (hearlier' _ _ _ h)
  · obtain ⟨t, ht, hfield, -⟩ := hat
    obtain ⟨t', ht', hfield', -⟩ := hat'
    rw [ht] at ht'
    cases ht'
    rw [hfield] at hfield'
    cases hfield'
    rfl
  · exact absurd hat' (hearlier _ _ _ h)

theorem unknown_iff {x : Nat × Nat × Term} : unknown fields x = true ↔
    ∃ name, x.2.2.field = .shortcut name ∧ fields.get? name = none :=
  Option.isNone_iff_eq_none.trans TermField.wire?_eq_none

/-- Such a term is among those that the encoding stops at. -/
theorem unknown_of_unknownAt {r k : Nat} {name : String} (h : UnknownAt fields e r k name) :
    ∃ t, (r, k, t) ∈ e.positionedTerms ∧ unknown fields (r, k, t) = true := by
  obtain ⟨t, ht, hfield, hnone⟩ := h
  exact ⟨t, Expr.mem_positionedTerms_iff_term?.2 ht, unknown_iff.2 ⟨name, hfield, hnone⟩⟩

theorem find?_unknown_eq_none : e.positionedTerms.find? (unknown fields) = none ↔
    ∀ r k name, ¬ UnknownAt fields e r k name := by
  rw [List.find?_eq_none]
  constructor
  · intro h r k name hat
    obtain ⟨t, hmem, hunknown⟩ := unknown_of_unknownAt hat
    exact h _ hmem hunknown
  · intro h x hx hunknown
    obtain ⟨name, hfield, hnone⟩ := unknown_iff.1 hunknown
    exact h x.1 x.2.1 name ⟨x.2.2, Expr.mem_positionedTerms_iff_term?.1 hx, hfield, hnone⟩

/-- The search meets the terms in their order, so what it finds is the first. -/
theorem firstUnknown_of_find? {x : Nat × Nat × Term}
    (h : e.positionedTerms.find? (unknown fields) = some x) :
    FirstUnknown fields e x.2.2.field.name := by
  obtain ⟨r, k, t⟩ := x
  obtain ⟨hunknown, before, after, hsplit, hbefore⟩ := List.find?_eq_some_iff_append.1 h
  obtain ⟨name, hfield, hnone⟩ := unknown_iff.1 hunknown
  have ht : e.term? r k = some t := Expr.mem_positionedTerms_iff_term?.1 (by simp [hsplit])
  rw [hfield, TermField.name]
  refine ⟨r, k, ⟨t, ht, hfield, hnone⟩, ?_⟩
  intro r' k' other hearlier hat
  obtain ⟨t', hmem', hunknown'⟩ := unknown_of_unknownAt hat
  have hordered := e.pairwise_positionedTerms
  rw [hsplit, List.pairwise_append, List.pairwise_cons] at hordered
  rw [hsplit, List.mem_append, List.mem_cons] at hmem'
  unfold Earlier at hearlier
  rcases hmem' with hin | heq | hin
  · have hknown := hbefore _ hin
    rw [hunknown'] at hknown
    cases hknown
  · cases heq
    omega
  · have hlater : r < r' ∨ (r = r' ∧ k < k') := hordered.2.1.1 _ hin
    omega

theorem encode_eq_error_iff {backend : String} {c : Nat} {x : QueryError} :
    (encode fields backend c e).result = .error x ↔
      ∃ name, FirstUnknown fields e name ∧ x = .unsupportedOption name backend := by
  rw [result_encode]
  cases hf : e.positionedTerms.find? (unknown fields) with
  | none =>
    constructor
    · intro h
      cases h
    · intro hex
      obtain ⟨name, ⟨r, k, hat, -⟩, -⟩ := hex
      exact absurd hat (find?_unknown_eq_none.1 hf r k name)
  | some y =>
    have hfirst := firstUnknown_of_find? hf
    constructor
    · intro h
      cases h
      exact ⟨_, hfirst, rfl⟩
    · intro hex
      obtain ⟨name, hname, rfl⟩ := hex
      rw [hname.unique hfirst]

/-! ## The entries of a chart -/

/-- Where the table knows all options, a field's name is the one of its entries. -/
theorem named_iff_of_known (hknown : ∀ r k name, ¬ UnknownAt fields e r k name) {r k : Nat}
    {t : Term} (ht : e.term? r k = some t) {wire : String} :
    t.field.Named fields wire ↔ t.field.wireName fields = wire := by
  rw [TermField.named_iff]
  constructor
  · exact TermField.wireName_of_wire?
  · intro h
    cases hw : t.field.wire? fields with
    | some w => rw [← h, TermField.wireName_of_wire? hw]
    | none =>
      obtain ⟨name, hfield, hnone⟩ := TermField.wire?_eq_none.1 hw
      exact absurd ⟨t, ht, hfield, hnone⟩ (hknown r k name)

theorem get?_fragment_iff {c : Nat} {key : String} {v : PayloadValue} :
    (fragment fields (c, e)).get? key = some v ↔
      (∃ r k t, e.term? r k = some t ∧
        (key, v) ∈ termEntries ⟨c, r, k⟩ (t.field.wireName fields) t) ∨
      (e.negate = true ∧ key = negateKey c ∧ v = .int 1) := by
  rw [get?_fragment, ← mem_entries, entries, List.mem_append, List.mem_flatMap]
  simp only [Prod.exists, Expr.mem_positionedTerms_iff_term?]
  cases e.negate <;> simp

/-- A table is asked only for the options that terms name. -/
theorem encodeTerms_congr {other : FieldTable} (backend : String) (c : Nat) :
    ∀ {ts : List (Nat × Nat × Term)},
      (∀ x ∈ ts, x.2.2.field.wire? other = x.2.2.field.wire? fields) →
      encodeTerms other backend c ts = encodeTerms fields backend c ts
  | [], _ => rfl
  | (row, column, t) :: ts, h => by
    rw [List.forall_mem_cons] at h
    unfold encodeTerms
    rw [h.1, encodeTerms_congr backend c h.2]

/-- The payload is the expression as chart number `c`: three entries for every term, with the name
of its field on the wire, one for a negation, and no other. -/
structure Holds (fields : FieldTable) (c : Nat) (e : Expr) (p : Payload) : Prop where
  entries : ∀ key v, p.get? key = some v ↔
    (∃ r k t wire, e.term? r k = some t ∧ t.field.Named fields wire ∧
      (key, v) ∈ [(Position.key ⟨c, r, k⟩ "field", .text wire),
        (Position.key ⟨c, r, k⟩ "type", .text t.operator),
        (Position.key ⟨c, r, k⟩ "value", .text t.value)]) ∨
    (e.negate = true ∧ key = negateKey c ∧ v = .int 1)
  size : p.size = 3 * e.termCount + if e.negate then 1 else 0

theorem holds_fragment (hknown : ∀ r k name, ¬ UnknownAt fields e r k name) (c : Nat) :
    Holds fields c e (fragment fields (c, e)) where
  entries key v := by
    rw [get?_fragment_iff]
    refine or_congr_left (exists₃_congr fun r k t => ?_)
    constructor
    · intro hboth
      obtain ⟨ht, hmem⟩ := hboth
      exact ⟨_, ht, (named_iff_of_known hknown ht).2 rfl, hmem⟩
    · intro hex
      obtain ⟨wire, ht, hwire, hmem⟩ := hex
      exact ⟨ht, (named_iff_of_known hknown ht).1 hwire ▸ hmem⟩
  size := size_fragment fields (c, e)

/-- How the encoding of an expression as chart number `c` ends. -/
structure Encodes (fields : FieldTable) (backend : String) (c : Nat) (e : Expr) : Prop where
  fails : (∃ x, (encode fields backend c e).result = .error x) ↔
    ∃ r k name, UnknownAt fields e r k name
  first : ∀ x, (encode fields backend c e).result = .error x ↔
    ∃ name, FirstUnknown fields e name ∧ x = .unsupportedOption name backend
  succeeds : (∀ r k name, ¬ UnknownAt fields e r k name) →
    ∃ p, (encode fields backend c e).result = .ok p ∧ Holds fields c e p
  /-- nothing but options is looked up -/
  written : ∀ other : FieldTable,
    (∀ r k t name, e.term? r k = some t → t.field = .shortcut name →
      other.get? name = fields.get? name) →
    encode other backend c e = encode fields backend c e

/-- Whatever the expression is, its encoding fails just on an option that the table does not know,
the first of them; if there is none, it gives the chart of the expression. -/
theorem encode_exact (fields : FieldTable) (backend : String) (c : Nat) (e : Expr) :
    Encodes fields backend c e where
  fails := by
    constructor
    · intro hex
      obtain ⟨x, hx⟩ := hex
      obtain ⟨name, ⟨r, k, hat, -⟩, -⟩ := encode_eq_error_iff.1 hx
      exact ⟨r, k, name, hat⟩
    · intro hex
      obtain ⟨r, k, name, hat⟩ := hex
      rw [result_encode]
      cases hf : e.positionedTerms.find? (unknown fields) with
      | none => exact absurd hat (find?_unknown_eq_none.1 hf r k name)
      | some x => exact ⟨_, rfl⟩
  first x := encode_eq_error_iff
  succeeds hknown := by
    refine ⟨fragment fields (c, e), ?_, holds_fragment hknown c⟩
    rw [result_encode, find?_unknown_eq_none.2 hknown]
    rfl
  written other h := by
    unfold encode
    rw [encodeTerms_congr]
    intro x hx
    have ht : e.term? x.1 x.2.1 = some x.2.2 := Expr.mem_positionedTerms_iff_term?.1 hx
    cases hfield : x.2.2.field with
    | verbatim name => rfl
    | shortcut name => exact h _ _ _ name ht hfield

example : (encode ⟨[[("flag", "flagtypes.name")]]⟩ "extended" 0
    ⟨false, [[], [⟨.verbatim "flag", "equals", "a"⟩, ⟨.shortcut "cc", "equals", "b"⟩]]⟩).result =
      .error (.unsupportedOption "cc" "extended") := by rfl

end Chart

end BugQuery
