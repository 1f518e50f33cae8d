import BugQuery.Error
import BugQuery.Proofs.FirstFailure

/-!
# The terms of expressions that were read

* `field_of_parse`, `term_of_parseValues`: where the fields and operators of terms come from.
* `parse_eq_error`, `parseValues_eq_error`: what can be wrong with a text.
* `parseValues_withOperator`: read with another known operator, a text gives the same
  expression with that operator, or the same defect.
* `mem_positionedTerms`: positions are row and column numbers.
* `pairwise_positionedTerms`: terms are listed row after row, and in a row by column.
-/
namespace BugQuery

namespace Expr

open FirstFailure

/-! ## Reading -/

theorem exists_of_mem_readTerms {term : List Char → Except Defect Term} {s : List Char} {e : Expr}
    {t : Term} (h : readTerms term s = .ok e) (ht : t ∈ e.rows.flatten) : ∃ u, term u = .ok t := by
  unfold readTerms at h
  dsimp only at h
  split at h
  · cases h
  · obtain ⟨terms, hm, he⟩ := bind_eq_ok.1 h
    cases he
    rw [Chain.flatten_rows] at ht
    obtain ⟨u, hu⟩ := Chain.exists_of_mem_mapM hm ht
    unfold readSegment at hu
    split at hu
    · cases hu
    · exact ⟨_, hu⟩

theorem parse_eq_ok {input : String} {e : Expr} : parse input = .ok e ↔ read input = .ok e :=
  mapError_eq_ok

theorem parseValues_eq_ok {field operator input : String} {e : Expr} :
    parseValues field operator input = .ok e ↔ readValues field operator input = .ok e :=
  mapError_eq_ok

/-- An expression that was read has a term. -/
theorem flatten_rows_ne_nil {term : List Char → Except Defect Term} {s : List Char} {e : Expr}
    (h : readTerms term s = .ok e) : e.rows.flatten ≠ [] := by
  unfold readTerms at h
  dsimp only at h
  split at h
  · cases h
  · obtain ⟨terms, -, he⟩ := bind_eq_ok.1 h
    cases he
    rw [Chain.flatten_rows]
    exact List.cons_ne_nil _ _

/-- In a query of its own, every term writes its field. -/
theorem field_of_parse {input : String} {e : Expr} (h : parse input = .ok e) {t : Term}
    (ht : t ∈ e.rows.flatten) : ∃ name, t.field = .verbatim name := by
  obtain ⟨u, hu⟩ := exists_of_mem_readTerms (parse_eq_ok.1 h) ht
  unfold readTriple at hu
  split at hu
  · cases hu
  · split at hu
    · cases hu
    · split at hu
      · cases hu
      · cases hu
        exact ⟨_, rfl⟩

/-- Given for an option, every term has the option's field and the operator asked for. -/
theorem term_of_parseValues {field operator input : String} {e : Expr}
    (h : parseValues field operator input = .ok e) {t : Term} (ht : t ∈ e.rows.flatten) :
    t.field = .shortcut field ∧ t.operator = operator := by
  rw [parseValues_eq_ok, readValues] at h
  split at h
  · obtain ⟨u, hu⟩ := exists_of_mem_readTerms h ht
    cases hu
    exact ⟨rfl, rfl⟩
  · cases h

/-! ## Defects -/

theorem defect_of_readTerms {term : List Char → Except Defect Term} {s : List Char} {d : Defect}
    (h : readTerms term s = .error d) :
    d = .emptyExpression ∨ d = .emptyTerm ∨ ∃ u, term u = .error d := by
  unfold readTerms at h
  dsimp only at h
  split at h
  · cases h
    exact .inl rfl
  · rcases bind_eq_error.1 h with hm | ⟨terms, -, he⟩
    · obtain ⟨u, hu⟩ := Chain.exists_of_mapM_error hm
      unfold readSegment at hu
      split at hu
      · cases hu
        exact .inr (.inl rfl)
      · exact .inr (.inr ⟨_, hu⟩)
    · cases he

/-- In whole terms, operators are not looked at. -/
theorem parse_eq_error {input : String} {x : QueryError} (h : parse input = .error x) :
    ∃ d, x = .malformedExpression input d ∧ ∀ s, d ≠ .unknownOperator s := by
  unfold parse at h
  cases hr : read input with
  | ok e => rw [hr] at h; cases h
  | error d =>
    rw [hr] at h
    cases h
    refine ⟨d, rfl, ?_⟩
    rintro s rfl
    rcases defect_of_readTerms hr with hd | hd | ⟨u, hu⟩
    · cases hd
    · cases hd
    · unfold readTriple at hu
      split at hu
      · cases hu
      · split at hu
        · cases hu
        · split at hu <;> cases hu

/-- With a known operator, the values alone can be malformed. -/
theorem parseValues_eq_error {field operator input : String} {x : QueryError}
    (hknown : operator ∈ operators) (h : parseValues field operator input = .error x) :
    ∃ d, x = .malformedExpression input d ∧ ∀ s, d ≠ .unknownOperator s := by
  unfold parseValues at h
  cases hr : readValues field operator input with
  | ok e => rw [hr] at h; cases h
  | error d =>
    rw [hr] at h
    cases h
    refine ⟨d, rfl, ?_⟩
    rintro s rfl
    rw [readValues, if_pos hknown] at hr
    rcases defect_of_readTerms hr with hd | hd | ⟨u, hu⟩
    · cases hd
    · cases hd
    · cases hu

/-! ## Other operators -/

/-- The same expression with one operator throughout. -/
def withOperator (operator : String) (e : Expr) : Expr :=
  { e with rows := e.rows.map (List.map fun t => { t with operator := operator }) }

theorem readTerms_map (term : List Char → Except Defect Term) (g : Term → Term) (s : List Char) :
    readTerms (fun u => (term u).map g) s =
      (readTerms term s).map fun e => { e with rows := e.rows.map (List.map g) } := by
  have hseg : readSegment (fun u => (term u).map g) = fun u => (readSegment term u).map g := by
    funext u
    unfold readSegment
    split <;> rfl
  unfold readTerms
  dsimp only
  split
  · rfl
  · rw [hseg, Chain.mapM_map]
    cases (Chain.segments (body s).2).mapM (readSegment term) with
    | error d => rfl
    | ok terms =>
      simp only [Except.map, bind, Except.bind]
      rw [Chain.rows_map]

theorem parseValues_withOperator {operator operator' : String} (h : operator ∈ operators)
    (h' : operator' ∈ operators) (field input : String) :
    parseValues field operator' input =
      (parseValues field operator input).map (withOperator operator') := by
  have hmap := readTerms_map (readValue field operator)
    (fun t => { t with operator := operator' }) input.toList
  have hread : readValues field operator' input =
      (readValues field operator input).map (withOperator operator') := by
    rw [readValues, if_pos h', readValues, if_pos h]
    exact hmap
  unfold parseValues
  rw [hread]
  cases readValues field operator input <;> rfl

/-! ## Positions -/

theorem mem_numbered {α : Type} {k : Nat} {x : α} : ∀ {start : Nat} {xs : List α},
    (k, x) ∈ numbered start xs ↔ start ≤ k ∧ xs[k - start]? = some x
  | start, [] => by simp [numbered]
  | start, y :: ys => by
    rw [numbered, List.mem_cons, mem_numbered]
    constructor
    · intro hcases
      rcases hcases with h | ⟨hk, hx⟩
      · cases h
        simp
      · refine ⟨by omega, ?_⟩
        rwa [show k - start = (k - (start + 1)) + 1 by omega, List.getElem?_cons_succ]
    · intro hboth
      obtain ⟨hk, hx⟩ := hboth
      by_cases he : k = start
      · subst he
        rw [Nat.sub_self, List.getElem?_cons_zero, Option.some.injEq] at hx
        exact .inl (by rw [hx])
      · rw [show k - start = (k - (start + 1)) + 1 by omega, List.getElem?_cons_succ] at hx
        exact .inr ⟨by omega, hx⟩

theorem mem_positions {α : Type} {r k : Nat} {x : α} : ∀ {start : Nat} {rows : List (List α)},
    (r, k, x) ∈ positions start rows ↔
      start ≤ r ∧ ∃ row, rows[r - start]? = some row ∧ row[k]? = some x
  | start, [] => by simp [positions]
  | start, row :: rows => by
    rw [positions, List.mem_append, mem_positions]
    have hhead : (r, k, x) ∈ (numbered 0 row).map (fun y => (start, y.1, y.2)) ↔
        r = start ∧ row[k]? = some x := by
      simp only [List.mem_map, Prod.mk.injEq, Prod.exists]
      constructor
      · intro hex
        obtain ⟨_, _, h, rfl, rfl, rfl⟩ := hex
        exact ⟨rfl, (mem_numbered.1 h).2⟩
      · intro hboth
        obtain ⟨rfl, h⟩ := hboth
        exact ⟨k, x, mem_numbered.2 ⟨Nat.zero_le k, h⟩, rfl, rfl, rfl⟩
    rw [hhead]
    constructor
    · intro hcases
      rcases hcases with ⟨rfl, h⟩ | ⟨hr, row', h, hx⟩
      · exact ⟨Nat.le_refl r, row, by simp, h⟩
      · refine ⟨by omega, row', ?_, hx⟩
        rwa [show r - start = (r - (start + 1)) + 1 by omega, List.getElem?_cons_succ]
    · intro hex
      obtain ⟨hr, row', h, hx⟩ := hex
      by_cases he : r = start
      · subst he
        rw [Nat.sub_self, List.getElem?_cons_zero, Option.some.injEq] at h
        exact .inl ⟨rfl, h ▸ hx⟩
      · rw [show r - start = (r - (start + 1)) + 1 by omega, List.getElem?_cons_succ] at h
        exact .inr ⟨by omega, row', h, hx⟩

theorem mem_positionedTerms {e : Expr} {r k : Nat} {t : Term} :
    (r, k, t) ∈ e.positionedTerms ↔ ∃ row, e.rows[r]? = some row ∧ row[k]? = some t := by
  rw [positionedTerms, mem_positions]
  simp

theorem mem_flatten_of_mem_positionedTerms {e : Expr} {r k : Nat} {t : Term}
    (h : (r, k, t) ∈ e.positionedTerms) : t ∈ e.rows.flatten := by
  obtain ⟨row, hr, ht⟩ := mem_positionedTerms.1 h
  exact List.mem_flatten.2 ⟨row, List.mem_of_getElem? hr, List.mem_of_getElem? ht⟩

/-- Row after row, and in a row by column, the first place comes before the second. -/
def Earlier (r k r' k' : Nat) : Prop := r < r' ∨ (r = r' ∧ k < k')

theorem earlier_trichotomy (r k r' k' : Nat) :
    Earlier r k r' k' ∨ (r = r' ∧ k = k') ∨ Earlier r' k' r k := by
  unfold Earlier
  omega

theorem pairwise_numbered {α : Type} : ∀ (start : Nat) (xs : List α),
    (numbered start xs).Pairwise fun x y => x.1 < y.1
  | _, [] => .nil
  | start, x :: xs => by
    unfold numbered
    rw [List.pairwise_cons]
    refine ⟨?_, pairwise_numbered (start + 1) xs⟩
    intro y hy
    have hstart := (mem_numbered (k := y.1) (x := y.2)).1 hy
    omega

theorem pairwise_positions {α : Type} : ∀ (start : Nat) (rows : List (List α)),
    (positions start rows).Pairwise fun x y => Earlier x.1 x.2.1 y.1 y.2.1
  | _, [] => .nil
  | start, row :: rows => by
    unfold positions
    rw [List.pairwise_append]
    refine ⟨?_, pairwise_positions (start + 1) rows, ?_⟩
    · rw [List.pairwise_map]
      exact (pairwise_numbered 0 row).imp fun hlt => .inr ⟨rfl, hlt⟩
    · intro x hx y hy
      obtain ⟨z, -, rfl⟩ := List.mem_map.1 hx
      have hstart := (mem_positions (r := y.1) (k := y.2.1) (x := y.2.2)).1 hy
      exact .inl (show start < y.1 by omega)

theorem pairwise_positionedTerms (e : Expr) :
    e.positionedTerms.Pairwise fun x y => Earlier x.1 x.2.1 y.1 y.2.1 :=
  pairwise_positions 0 e.rows

/-- No row and column come twice. -/
theorem nodup_positionedTerms (e : Expr) :
    (e.positionedTerms.map fun x => (x.1, x.2.1)).Nodup := by
  refine List.pairwise_map.2 (e.pairwise_positionedTerms.imp ?_)
  intro x y hearlier heq
  obtain ⟨hr, hk⟩ := Prod.mk.inj heq
  unfold Earlier at hearlier
  omega

end Expr

end BugQuery
