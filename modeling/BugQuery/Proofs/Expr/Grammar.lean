import BugQuery.Proofs.Expr.Cells
import BugQuery.Proofs.Expr.Terms

/-!
# The grammar of expressions

What the texts of expressions are, and which expressions they stand for,
said by cutting the text and not by reading it: the rows of a text are its
cells, and a text is well-formed when every cell has the form that terms
have. There are two such forms, whole terms and values alone.

* `opened_body`, `Opened.negate_iff`: the body of a text, after blanks and one `!`.
* `TermForm.Describes`, `describes_readTerms`: what it is for a reader to follow a form of terms.
* `parse_grammar`: which texts are read, as what, and what is wrong with the others.
-/
namespace BugQuery

open Text (trim isBlank)

namespace Expr

/-- `b` is what follows the leading blanks of `s` and one `!`, if there is one. -/
structure Opened (s : List Char) (negate : Bool) (b : List Char) : Prop where
  text : ∃ blanks, (∀ c ∈ blanks, isBlank c = true) ∧
    s = blanks ++ if negate then '!' :: b else b
  first : negate = false → ∀ c ∈ b.head?, isBlank c = false ∧ c ≠ '!'

theorem opened_body (s : List Char) : Opened s (body s).1 (body s).2 := by
  have hblank : ∀ c ∈ s.takeWhile isBlank, isBlank c = true := fun c hc => by
    simpa using List.all_eq_true.1 List.all_takeWhile c hc
  have htext : s = s.takeWhile isBlank ++ Text.trimStart s := List.takeWhile_append_dropWhile.symm
  have hfirst := Text.head?_trimStart s
  unfold body
  split
  · rename_i r hr
    exact ⟨⟨_, hblank, by rw [← hr]; exact htext⟩, fun h => by cases h⟩
  · rename_i r hr
    refine ⟨⟨_, hblank, htext⟩, fun _ c hc => ⟨hfirst c hc, ?_⟩⟩
    rintro rfl
    obtain ⟨t, ht⟩ := List.head?_eq_some_iff.1 hc
    exact hr t ht

/-- A text opens in one way only. -/
theorem body_of_opened {s b : List Char} {negate : Bool} (h : Opened s negate b) :
    body s = (negate, b) := by
  obtain ⟨⟨blanks, hblank, rfl⟩, hfirst⟩ := h
  have hstart : ∀ t : List Char, (∀ c ∈ t.head?, isBlank c = false) →
      Text.trimStart (blanks ++ t) = t := by
    intro t ht
    rw [Text.trimStart, List.dropWhile_append_of_pos hblank, ← Text.trimStart,
      Text.trimStart_eq_self ht]
  cases negate with
  | true =>
    rw [body, if_pos rfl, hstart _ (by simp; decide)]
    rfl
  | false =>
    rw [body, if_neg (by simp), hstart _ fun c hc => (hfirst rfl c hc).1]
    split
    · rename_i r
      exact absurd rfl (hfirst rfl '!' rfl).2
    · rfl

/-- The `!` that opens a text is its first character, blanks apart. -/
theorem Opened.negate_iff {s b : List Char} {negate : Bool} (h : Opened s negate b) :
    negate = true ↔ s.find? (!isBlank ·) = some '!' := by
  obtain ⟨⟨blanks, hblank, rfl⟩, hfirst⟩ := h
  have hskip : blanks.find? (!isBlank ·) = none :=
    List.find?_eq_none.2 fun c hc => by simp [hblank c hc]
  rw [List.find?_append, hskip, Option.none_or]
  cases negate with
  | true => exact iff_of_true rfl rfl
  | false =>
    refine iff_of_false (by simp) fun hbang => ?_
    cases b with
    | nil => cases hbang
    | cons c b =>
      obtain ⟨hc, hne⟩ := hfirst rfl c rfl
      rw [if_neg (by simp), List.find?_cons_of_pos (by simp [hc])] at hbang
      exact hne (Option.some.inj hbang)

/-! ## Forms of terms -/

/-- How the terms of an expression are written; segments are trimmed. -/
structure TermForm where
  /-- The segments that have this form. -/
  Fits : List Char → Prop
  /-- What is wrong with a segment that does not have it. -/
  defect : List Char → Defect
  /-- The term that a segment of this form is. -/
  term : List Char → Term

/-- What stands before the first hyphen, and what stands after it. -/
def beforeHyphen (t : List Char) : List Char := t.takeWhile (· ≠ '-')

def afterHyphen (t : List Char) : List Char := (t.dropWhile (· ≠ '-')).drop 1

/-- Whole terms: field, operator and value, of which the value may be blank, between the first
two hyphens. -/
def wholeTerm : TermForm where
  Fits t := t ≠ [] ∧ 2 ≤ t.count '-' ∧ trim (beforeHyphen t) ≠ [] ∧
    trim (beforeHyphen (afterHyphen t)) ≠ []
  defect t :=
    if t = [] then .emptyTerm
    else if t.count '-' < 2 then .notTriple (String.ofList t)
    else .missingPart (String.ofList t)
  term t :=
    { field := .verbatim (String.ofList (trim (beforeHyphen t)))
      operator := String.ofList (trim (beforeHyphen (afterHyphen t)))
      value := String.ofList (trim (afterHyphen (afterHyphen t))) }

/-- Values alone, for a field and an operator. -/
def valueTerm (field operator : String) : TermForm where
  Fits t := t ≠ []
  defect _ := .emptyTerm
  term t := { field := .shortcut field, operator := operator, value := String.ofList t }

namespace TermForm

/-- A reader of single terms follows the form. -/
def Reads (form : TermForm) (term : List Char → Except Defect Term) : Prop :=
  ∀ s, (form.Fits (trim s) → readSegment term s = .ok (form.term (trim s))) ∧
    (¬ form.Fits (trim s) → readSegment term s = .error (form.defect (trim s)))

/-- The result `r` of reading `input` with the body `b` is what the form says: an expression of the
cells of `b` if they all have the form, and else the defect of the first one that does not. -/
structure Describes (form : TermForm) (input : String) (negate : Bool) (b : List Char)
    (r : Except QueryError Expr) : Prop where
  accepts : (∃ e, r = .ok e) ↔ trim b ≠ [] ∧ ∀ t ∈ segmentsOf b, form.Fits t
  expression : ∀ e, r = .ok e → e.negate = negate ∧ e.rows = (cells b).map (List.map form.term)
  blank : trim b = [] → r = .error (.malformedExpression input .emptyExpression)
  flawed : trim b ≠ [] → ∀ before t after, segmentsOf b = before ++ t :: after →
    (∀ u ∈ before, form.Fits u) → ¬ form.Fits t →
    r = .error (.malformedExpression input (form.defect t))

end TermForm

/-! ## Readers that follow a form -/

section Reading

variable {form : TermForm} {term : List Char → Except Defect Term} {s : List Char}

theorem readTerms_of_blank (h : trim (body s).2 = []) :
    readTerms term s = .error .emptyExpression := by
  unfold readTerms
  exact if_pos h

theorem readTerms_of_fits (hread : form.Reads term) (hb : trim (body s).2 ≠ [])
    (h : ∀ t ∈ segmentsOf (body s).2, form.Fits t) :
    readTerms term s = .ok ⟨(body s).1, (cells (body s).2).map (List.map form.term)⟩ := by
  have hmap : (Chain.segments (body s).2).mapM (readSegment term) =
      .ok ((Chain.segments (body s).2).map fun u => form.term (trim u)) := by
    refine Chain.mapM_of_ok fun u hu => (hread u).1 (h _ ?_)
    rw [toList_segments] at hu
    exact List.mem_map.2 ⟨u, hu, rfl⟩
  have hrows : ((Chain.segments (body s).2).map fun u => form.term (trim u)).rows =
      (cells (body s).2).map (List.map form.term) := by
    rw [Chain.rows_map, rows_segments, cells]
    simp only [List.map_map, Function.comp_def]
  unfold readTerms
  simp only [if_neg hb, hmap, FirstFailure.ok_bind, hrows]

theorem readTerms_of_not_fits (hread : form.Reads term) (hb : trim (body s).2 ≠ [])
    {before after : List (List Char)} {t : List Char}
    (hsegments : segmentsOf (body s).2 = before ++ t :: after)
    (hbefore : ∀ u ∈ before, form.Fits u) (ht : ¬ form.Fits t) :
    readTerms term s = .error (form.defect t) := by
  obtain ⟨us, vs, huvs, rfl, hvs⟩ := List.map_eq_append_iff.1 hsegments
  obtain ⟨v, ws, rfl, rfl, -⟩ := List.map_eq_cons_iff.1 hvs
  rw [List.forall_mem_map] at hbefore
  have hmap : (Chain.segments (body s).2).mapM (readSegment term) = .error (form.defect (trim v)) :=
    Chain.mapM_of_error (by rw [toList_segments, huvs]) (fun u hu => (hread u).1 (hbefore u hu))
      ((hread v).2 ht)
  unfold readTerms
  simp only [if_neg hb, hmap]
  rfl

/-- A reader whose terms follow a form gives what the form says. -/
theorem describes_readTerms (hread : form.Reads term) (input : String) :
    form.Describes input (body input.toList).1 (body input.toList).2
      ((readTerms term input.toList).mapError (.malformedExpression input)) where
  accepts := by
    by_cases hb : trim (body input.toList).2 = []
    · rw [readTerms_of_blank hb]
      simp [FirstFailure.mapError_eq_ok, hb]
    · by_cases hall : ∀ t ∈ segmentsOf (body input.toList).2, form.Fits t
      · rw [readTerms_of_fits hread hb hall]
        exact ⟨fun _ => ⟨hb, hall⟩, fun _ => ⟨_, rfl⟩⟩
      · obtain ⟨before, t, after, hsegments, hbefore, ht⟩ := FirstFailure.exists_first_not hall
        rw [readTerms_of_not_fits hread hb hsegments hbefore ht]
        simp [FirstFailure.mapError_eq_ok, hall]
  expression e h := by
    rw [FirstFailure.mapError_eq_ok] at h
    by_cases hb : trim (body input.toList).2 = []
    · rw [readTerms_of_blank hb] at h
      cases h
    · by_cases hall : ∀ t ∈ segmentsOf (body input.toList).2, form.Fits t
      · rw [readTerms_of_fits hread hb hall] at h
        cases h
        exact ⟨rfl, rfl⟩
      · obtain ⟨before, t, after, hsegments, hbefore, ht⟩ := FirstFailure.exists_first_not hall
        rw [readTerms_of_not_fits hread hb hsegments hbefore ht] at h
        cases h
  blank hb := by
    rw [readTerms_of_blank hb]
    rfl
  flawed hb before t after hsegments hbefore ht := by
    rw [readTerms_of_not_fits hread hb hsegments hbefore ht]
    rfl

end Reading

/-! ## The two readers -/

theorem beforeHyphen_append {a : List Char} (ha : '-' ∉ a) (b : List Char) :
    beforeHyphen (a ++ '-' :: b) = a := by
  have hall : ∀ c ∈ a, decide (c ≠ '-') = true := fun c hc =>
    decide_eq_true fun he => ha (he ▸ hc)
  rw [beforeHyphen, List.takeWhile_append_of_pos hall, List.takeWhile_cons_of_neg (by simp),
    List.append_nil]

theorem afterHyphen_append {a : List Char} (ha : '-' ∉ a) (b : List Char) :
    afterHyphen (a ++ '-' :: b) = b := by
  have hall : ∀ c ∈ a, decide (c ≠ '-') = true := fun c hc =>
    decide_eq_true fun he => ha (he ▸ hc)
  rw [afterHyphen, List.dropWhile_append_of_pos hall, List.dropWhile_cons_of_neg (by simp)]
  rfl

theorem count_append_hyphen {a : List Char} (ha : '-' ∉ a) (b : List Char) :
    (a ++ '-' :: b).count '-' = b.count '-' + 1 := by
  rw [List.count_append, List.count_eq_zero.2 ha, List.count_cons_self]
  omega

theorem readSegment_of_ne_nil {term : List Char → Except Defect Term} {s : List Char}
    (h : trim s ≠ []) : readSegment term s = term (trim s) := by
  unfold readSegment
  split
  · rename_i hs
    exact absurd hs h
  · rfl

theorem readSegment_of_eq_nil {term : List Char → Except Defect Term} {s : List Char}
    (h : trim s = []) : readSegment term s = .error .emptyTerm := by
  rw [readSegment, h]

/-- A segment is cut at its first two hyphens, if it has them. -/
theorem reads_readTriple : wholeTerm.Reads readTriple := by
  intro s
  by_cases hs : trim s = []
  · rw [readSegment_of_eq_nil hs]
    simp [wholeTerm, hs]
  rw [readSegment_of_ne_nil hs]
  generalize trim s = t at hs
  unfold readTriple
  cases hcut : Text.cut? '-' t with
  | none =>
    have hcount : t.count '-' = 0 := List.count_eq_zero.2 (Text.cut?_eq_none.1 hcut)
    simp [wholeTerm, hs, hcount]
  | some x =>
    obtain ⟨field, r⟩ := x
    obtain ⟨rfl, hfield⟩ := Text.cut?_eq_some.1 hcut
    cases hcut' : Text.cut? '-' r with
    | none =>
      have hcount : r.count '-' = 0 := List.count_eq_zero.2 (Text.cut?_eq_none.1 hcut')
      simp [wholeTerm, count_append_hyphen hfield, hcount, hcut']
    | some y =>
      obtain ⟨operator, value⟩ := y
      obtain ⟨rfl, hoperator⟩ := Text.cut?_eq_some.1 hcut'
      simp only [wholeTerm, beforeHyphen_append hfield, afterHyphen_append hfield,
        beforeHyphen_append hoperator, afterHyphen_append hoperator, count_append_hyphen hfield,
        count_append_hyphen hoperator, hcut', hs, if_false]
      have htwo : ¬ value.count '-' + 1 + 1 < 2 := by omega
      by_cases hparts : trim field = [] ∨ trim operator = []
      · rw [if_pos hparts, if_neg htwo]
        refine ⟨fun hfits => ?_, fun _ => rfl⟩
        rcases hparts with h | h
        · exact absurd h hfits.2.2.1
        · exact absurd h hfits.2.2.2
      · rw [if_neg hparts]
        rw [not_or] at hparts
        exact ⟨fun _ => rfl, fun hno => absurd ⟨hs, by omega, hparts⟩ hno⟩

theorem reads_readValue (field operator : String) :
    (valueTerm field operator).Reads (readValue field operator) := by
  intro s
  by_cases hs : trim s = []
  · rw [readSegment_of_eq_nil hs]
    simp [valueTerm, hs]
  · rw [readSegment_of_ne_nil hs]
    simp [valueTerm, readValue, hs]

theorem describes_parse (input : String) :
    wholeTerm.Describes input (body input.toList).1 (body input.toList).2 (parse input) :=
  describes_readTerms reads_readTriple input

theorem describes_parseValues {operator : String} (h : operator ∈ operators)
    (field input : String) : (valueTerm field operator).Describes input (body input.toList).1
      (body input.toList).2 (parseValues field operator input) := by
  rw [parseValues, readValues, if_pos h]
  exact describes_readTerms (reads_readValue field operator) input

/-- A text is an expression if its body is not blank and every segment has the form of a term; its
rows are then the cells of the body. Otherwise the whole text is refused for its first segment
that has not that form. Values are read in the same way if the operator is known, and else are
refused whatever they are. -/
theorem parse_grammar (input : String) :
    ∃ negate b, Opened input.toList negate b ∧
      wholeTerm.Describes input negate b (parse input) ∧
      ∀ field operator,
        (operator ∈ operators →
          (valueTerm field operator).Describes input negate b (parseValues field operator input)) ∧
        (operator ∉ operators → parseValues field operator input =
          .error (.malformedExpression input (.unknownOperator operator))) := by
  refine ⟨_, _, opened_body input.toList, describes_parse input, fun field operator =>
    ⟨fun h => describes_parseValues h field input, fun h => ?_⟩⟩
  rw [parseValues, readValues, if_neg h]
  rfl

end Expr

end BugQuery
