import BugQuery.Proofs.Chart.Encoding

/-!
# What events tell about charts

A chart is told by one event that gives its number, and then one event for
each of its terms. `eventsFrom` lists these events for expressions that are
numbered in a row, in the way in which `entriesFrom` lists their entries.

* `assigned_eventsFrom`, `assigned_before_term`: the numbers come in order, and every term stands
  between the number of its own chart and the next.
* `mem_eventsFrom_assigned`, `mem_eventsFrom_term`: which charts and terms are told.
* `nodup_indices_eventsFrom`: no position is told twice.
* `events_charts`: an option's entries are told up to the first that does not read.
-/
namespace BugQuery

open FirstFailure

namespace Event

/-- The number that an event gives to a chart. -/
def assigned? : Event → Option Nat
  | assignedChart _ n => some n
  | _ => none

/-- The position of the term that an event tells. -/
def index? : Event → Option Position
  | chartTerm i _ _ => some i
  | _ => none

/-- The event is about a chart. -/
def ofChart (e : Event) : Bool := e.assigned?.isSome || e.index?.isSome

theorem mem_filter_ofChart {e : Event} (h : e.ofChart = true) {events : List Event} :
    e ∈ events.filter ofChart ↔ e ∈ events := by
  rw [List.mem_filter, and_iff_left h]

/-- What is read only off events about charts is not changed by leaving out the others. -/
theorem filterMap_filter_ofChart {α : Type} {f : Event → Option α}
    (h : ∀ e, (f e).isSome = true → e.ofChart = true) (events : List Event) :
    (events.filter ofChart).filterMap f = events.filterMap f := by
  have hf : (fun e => if e.ofChart = true then f e else none) = f := by
    funext e
    split
    · rfl
    · rename_i hno
      exact (Option.not_isSome_iff_eq_none.1 fun hsome => hno (h e hsome)).symm
  rw [List.filterMap_filter, hf]

theorem assigned_filter_ofChart (events : List Event) :
    (events.filter ofChart).filterMap assigned? = events.filterMap assigned? :=
  filterMap_filter_ofChart (fun e h => by rw [ofChart, h, Bool.true_or]) events

theorem indices_filter_ofChart (events : List Event) :
    (events.filter ofChart).filterMap index? = events.filterMap index? :=
  filterMap_filter_ofChart (fun e h => by rw [ofChart, h, Bool.or_true]) events

end Event

namespace Chart

/-! ## The events of charts -/

/-- The event that tells a term of chart `n`. -/
def termEvent (fields : FieldTable) (n : Nat) (x : Nat × Nat × Term) : Event :=
  .chartTerm ⟨n, x.1, x.2.1⟩ (x.2.2.field.wireName fields) x.2.2.operator

/-- The events of expressions as charts, the first of which has number `n`; each expression comes
with the option that it was given for. -/
def eventsFrom (fields : FieldTable) : Nat → List (SearchOption × Expr) → List Event
  | _, [] => []
  | n, (o, e) :: xs =>
    (.assignedChart o n :: e.positionedTerms.map (termEvent fields n)) ++
      eventsFrom fields (n + 1) xs

theorem eventsFrom_append (fields : FieldTable) : ∀ (n : Nat) (xs ys : List (SearchOption × Expr)),
    eventsFrom fields n (xs ++ ys) =
      eventsFrom fields n xs ++ eventsFrom fields (n + xs.length) ys
  | n, [], ys => rfl
  | n, (o, e) :: xs, ys => by
    rw [List.cons_append, eventsFrom, eventsFrom_append fields (n + 1) xs ys, eventsFrom,
      List.append_assoc, List.length_cons, show n + 1 + xs.length = n + (xs.length + 1) by omega]

theorem ofChart_of_mem_eventsFrom {fields : FieldTable} {x : Event} :
    ∀ {n : Nat} {xs : List (SearchOption × Expr)}, x ∈ eventsFrom fields n xs → x.ofChart = true
  | n, (o, e) :: xs, h => by
    rcases List.mem_append.1 h with h | h
    · rcases List.mem_cons.1 h with rfl | h
      · rfl
      · obtain ⟨t, -, rfl⟩ := List.mem_map.1 h
        rfl
    · exact ofChart_of_mem_eventsFrom h

theorem filter_eventsFrom (fields : FieldTable) (n : Nat) (xs : List (SearchOption × Expr)) :
    (eventsFrom fields n xs).filter Event.ofChart = eventsFrom fields n xs :=
  List.filter_eq_self.2 fun _ h => ofChart_of_mem_eventsFrom h

theorem assigned_terms (fields : FieldTable) (n : Nat) (ts : List (Nat × Nat × Term)) :
    (ts.map (termEvent fields n)).filterMap Event.assigned? = [] := by
  rw [List.filterMap_map]
  exact List.filterMap_eq_nil_iff.2 fun _ _ => rfl

theorem indices_terms (fields : FieldTable) (n : Nat) (ts : List (Nat × Nat × Term)) :
    (ts.map (termEvent fields n)).filterMap Event.index? =
      ts.map fun x => (⟨n, x.1, x.2.1⟩ : Position) := by
  rw [List.filterMap_map, ← List.filterMap_eq_map]
  rfl

/-- Charts are numbered in a row. -/
theorem assigned_eventsFrom (fields : FieldTable) : ∀ (n : Nat) (xs : List (SearchOption × Expr)),
    (eventsFrom fields n xs).filterMap Event.assigned? = List.range' n xs.length
  | _, [] => rfl
  | n, (o, e) :: xs => by
    rw [eventsFrom, List.filterMap_append, List.filterMap_cons_some (f := Event.assigned?) rfl,
      assigned_terms, assigned_eventsFrom fields (n + 1) xs, List.length_cons, List.range'_succ]
    rfl

theorem mem_eventsFrom_assigned {fields : FieldTable} {o : SearchOption} {m : Nat} :
    ∀ {n : Nat} {xs : List (SearchOption × Expr)}, .assignedChart o m ∈ eventsFrom fields n xs ↔
      ∃ i e, m = n + i ∧ xs[i]? = some (o, e)
  | n, [] => by simp [eventsFrom]
  | n, (a, f) :: xs => by
    have hterms : .assignedChart o m ∉ f.positionedTerms.map (termEvent fields n) := by
      simp [termEvent]
    rw [eventsFrom, List.mem_append, List.mem_cons, or_iff_left hterms, mem_eventsFrom_assigned]
    constructor
    · intro hcases
      rcases hcases with h | ⟨i, e, hm, he⟩
      · cases h
        exact ⟨0, f, rfl, rfl⟩
      · exact ⟨i + 1, e, by omega, he⟩
    · intro hex
      obtain ⟨i, e, hm, he⟩ := hex
      cases i with
      | zero =>
        cases he
        exact .inl (by rw [hm, Nat.add_zero])
      | succ i => exact .inr ⟨i, e, by omega, he⟩

theorem mem_eventsFrom_term {fields : FieldTable} {p : Position} {field operator : String} :
    ∀ {n : Nat} {xs : List (SearchOption × Expr)},
      .chartTerm p field operator ∈ eventsFrom fields n xs ↔
        ∃ i o e t, p.chart = n + i ∧ xs[i]? = some (o, e) ∧ e.term? p.row p.column = some t ∧
          t.field.wireName fields = field ∧ t.operator = operator
  | n, [] => by simp [eventsFrom]
  | n, (a, f) :: xs => by
    have hterms : .chartTerm p field operator ∈ f.positionedTerms.map (termEvent fields n) ↔
        ∃ t, p.chart = n ∧ f.term? p.row p.column = some t ∧
          t.field.wireName fields = field ∧ t.operator = operator := by
      simp only [List.mem_map, Prod.exists, Expr.mem_positionedTerms_iff_term?, termEvent,
        Event.chartTerm.injEq]
      constructor
      · intro hex
        obtain ⟨r, k, t, ht, rfl, hfield, hoperator⟩ := hex
        exact ⟨t, rfl, ht, hfield, hoperator⟩
      · intro hex
        obtain ⟨t, rfl, ht, hfield, hoperator⟩ := hex
        exact ⟨_, _, t, ht, rfl, hfield, hoperator⟩
    have hnumber : .chartTerm p field operator ≠ Event.assignedChart a n := nofun
    rw [eventsFrom, List.mem_append, List.mem_cons, or_iff_right hnumber, hterms,
      mem_eventsFrom_term]
    constructor
    · intro hcases
      rcases hcases with ⟨t, hp, ht⟩ | ⟨i, o, e, t, hp, hi, ht⟩
      · exact ⟨0, a, f, t, hp, rfl, ht⟩
      · exact ⟨i + 1, o, e, t, by omega, hi, ht⟩
    · intro hex
      obtain ⟨i, o, e, t, hp, hi, ht⟩ := hex
      cases i with
      | zero =>
        cases hi
        exact .inl ⟨t, hp, ht⟩
      | succ i => exact .inr ⟨i, o, e, t, by omega, hi, ht⟩

/-- No position is told twice: a later chart has another number. -/
theorem nodup_indices_eventsFrom (fields : FieldTable) :
    ∀ (n : Nat) (xs : List (SearchOption × Expr)),
      ((eventsFrom fields n xs).filterMap Event.index?).Nodup
  | _, [] => List.nodup_nil
  | n, (o, e) :: xs => by
    have hhere : (e.positionedTerms.map fun x => (⟨n, x.1, x.2.1⟩ : Position)).Nodup := by
      have hnodup := List.Pairwise.map (S := (· ≠ ·))
        (fun x : Nat × Nat => (⟨n, x.1, x.2⟩ : Position)) (fun a b hne h =>
          hne (Prod.ext (congrArg Position.row h) (congrArg Position.column h)))
        e.nodup_positionedTerms
      rwa [List.map_map] at hnodup
    rw [eventsFrom, List.filterMap_append, List.filterMap_cons_none rfl, indices_terms]
    refine List.nodup_append.2 ⟨hhere, nodup_indices_eventsFrom fields (n + 1) xs, ?_⟩
    rintro p hp _ hq rfl
    obtain ⟨x, -, rfl⟩ := List.mem_map.1 hp
    obtain ⟨event, hevent, hindex⟩ := List.mem_filterMap.1 hq
    cases event <;> cases hindex
    obtain ⟨i, -, -, -, hchart, -⟩ := mem_eventsFrom_term.1 hevent
    simp only at hchart
    omega

/-- Before the event of a term, the last number is that of the term's own chart. -/
theorem assigned_before_term {fields : FieldTable} {p : Position} {field operator : String}
    {after : List Event} : ∀ {n : Nat} {xs : List (SearchOption × Expr)} {before : List Event},
    eventsFrom fields n xs = before ++ .chartTerm p field operator :: after →
      (before.filterMap Event.assigned?).getLast? = some p.chart
  | _, [], before, h => by simp [eventsFrom] at h
  | n, (o, e) :: xs, before, h => by
    rw [eventsFrom] at h
    rcases List.append_eq_append_iff.1 h with ⟨later, rfl, hlater⟩ | ⟨rest, hblock, hrest⟩
    · -- the term is one of a later chart
      rw [List.filterMap_append, List.getLast?_append, assigned_before_term hlater]
      rfl
    · cases rest with
      | nil =>
        have hfirst : eventsFrom fields (n + 1) xs = [] ++ .chartTerm p field operator :: after :=
          hrest.symm
        cases assigned_before_term hfirst
      | cons x rest =>
        -- the term is one of this chart, whose first event gives the number
        obtain ⟨rfl, -⟩ := List.cons.inj hrest
        cases before with
        | nil => cases hblock
        | cons b before =>
          obtain ⟨rfl, hterms⟩ := List.cons.inj hblock
          obtain ⟨ts, us, -, rfl, hus⟩ := List.map_eq_append_iff.1 hterms
          obtain ⟨t, -, -, ht, -⟩ := List.map_eq_cons_iff.1 hus
          cases ht
          rw [List.filterMap_cons_some (f := Event.assigned?) rfl, assigned_terms]
          rfl

/-! ## Encoding notes them -/

theorem events_encodeTerms {fields : FieldTable} (backend : String) (n : Nat) :
    ∀ {ts : List (Nat × Nat × Term)}, (∀ x ∈ ts, (x.2.2.field.wire? fields).isSome = true) →
      (encodeTerms fields backend n ts).events = ts.map (termEvent fields n)
  | [], _ => rfl
  | (row, column, t) :: ts, h => by
    rw [List.forall_mem_cons] at h
    obtain ⟨wire, hw⟩ := Option.isSome_iff_exists.1 h.1
    have ih := events_encodeTerms backend n h.2
    unfold encodeTerms
    simp only [hw, Traced.bind_eq]
    rw [Traced.bind_of_ok (Traced.result_note _), List.map_cons, termEvent,
      TermField.wireName_of_wire? hw, ← ih]
    exact congrArg (_ :: ·) (Traced.events_bind_ok _ _)

theorem events_encode {fields : FieldTable} {e : Expr}
    (h : ∀ t ∈ e.rows.flatten, (t.field.wire? fields).isSome = true) (backend : String) (n : Nat) :
    (encode fields backend n e).events = e.positionedTerms.map (termEvent fields n) := by
  have hterms : ∀ x ∈ e.positionedTerms, (x.2.2.field.wire? fields).isSome = true := fun x hx =>
    h x.2.2 (Expr.mem_flatten_of_mem_positionedTerms hx)
  rw [← events_encodeTerms backend n hterms]
  exact Traced.events_bind_ok _ _

end Chart

namespace Query

/-- The entries of an option are told in turn, up to the first that does not read. -/
theorem events_charts {q : Query} {o : SearchOption} {form : ChartForm}
    (hf : form = .values → (q.backend.fields.get? o.name).isSome = true) (operator : String) :
    ∀ (raws : List String) (n : Nat), (q.charts o form operator raws n).events =
      Chart.eventsFrom q.backend.fields n
        ((passing (chartExpr o form operator) raws).map fun e => (o, e))
  | [], _ => rfl
  | raw :: raws, n => by
    unfold charts
    rw [passing]
    cases he : chartExpr o form operator raw with
    | error x => rfl
    | ok e =>
      have hknown := wire?_of_chartExpr hf he
      have hresult := Chart.result_encode_of_known hknown q.backend.name n
      simp only [Traced.bind_eq, Traced.pure_eq]
      rw [Traced.bind_of_ok (Traced.result_ofExcept _), Traced.bind_of_ok (Traced.result_note _),
        Traced.bind_of_ok hresult, Traced.events_bind_ok, events_charts hf operator raws (n + 1),
        Chart.events_encode hknown]
      rfl

end Query

end BugQuery
