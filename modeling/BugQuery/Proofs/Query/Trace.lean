import BugQuery.Proofs.Chart.Events
import BugQuery.Proofs.Query.Charts

/-!
# The events of a run and the charts on its payload

The events about charts are noted while an option's entries are read, one
after the other; the keys of charts come on the payload when all entries of
the option have been read. `Told` says what the two have in common after any
number of options. An option that fails leaves events without keys, and they
are the last ones.

* `told_step`, `told_editAll`, `told_of_error`: one option keeps `Told`, so does a run, and the
  option that a run fails on adds to the events at most.
* `Told.inOrder`, `Told.tells`: what this says about the events alone, and about the payload.
* `compileOnto_trace`: what the events of a compilation say about its payload, however it ends.
-/
namespace BugQuery

open FirstFailure

/-- On the payload there is a key of chart number `n`. -/
def Chart.On (p : Payload) (n : Nat) : Prop :=
  ∃ s : Slot, s.chart = n ∧ (p.get? s.key).isSome = true

namespace Query

/-! ## The events of one option -/

theorem exists_term_of_readEntry {q : Query} {x : SearchOption × String} {e : Expr}
    (h : q.readEntry x = .ok e) : ∃ row column t, e.term? row column = some t := by
  have hne : e.rows.flatten ≠ [] := by
    unfold readEntry at h
    split at h
    · exact Expr.flatten_rows_ne_nil (Expr.parse_eq_ok.1 h)
    · rw [Expr.parseValues_eq_ok, Expr.readValues] at h
      split at h
      · exact Expr.flatten_rows_ne_nil h
      · cases h
  obtain ⟨t, ht⟩ := List.exists_mem_of_ne_nil _ hne
  obtain ⟨row, hrow, ht⟩ := List.mem_flatten.1 ht
  obtain ⟨r, hr⟩ := List.mem_iff_getElem?.1 hrow
  obtain ⟨k, hk⟩ := List.mem_iff_getElem?.1 ht
  exact ⟨r, k, t, Option.bind_eq_some_iff.2 ⟨row, hr, hk⟩⟩

theorem events_step {q : Query} {o : SearchOption} {v : OptionValue} (hv : q.given? o = some v)
    (s : State) :
    (q.step o s).events = .compilingOption o :: (q.edit o v s.numbering).events := by
  unfold step
  simp only [hv, Traced.bind_eq]
  rw [Traced.bind_of_ok (Traced.result_note _)]
  exact congrArg (_ :: ·) (Traced.events_bind_ok _ _)

theorem events_edit_of_not_chart {q : Query} {o : SearchOption}
    (h : ∀ form, o.handling ≠ .chart form) (v : OptionValue) (n : Numbering) :
    (q.edit o v n).events = [] := by
  unfold edit
  cases hh : o.handling with
  | chart form => exact absurd hh (h form)
  | _ => rfl

theorem chartsOf_of_not_chart {q : Query} {o : SearchOption}
    (h : ∀ form, o.handling ≠ .chart form) : q.chartsOf o = [] := by
  unfold chartsOf
  cases hh : o.handling with
  | chart form => exact absurd hh (h form)
  | _ => rfl

/-- The events of a chart option tell its entries up to the first that does not read; they are all
of its entries if its edit can be made. -/
theorem events_chartEdit {q : Query} {o : SearchOption} {form : ChartForm}
    (ho : o ∈ q.backend.order) (hh : o.handling = .chart form) {v : OptionValue}
    (hv : q.given? o = some v) (n : Numbering) :
    ∃ es, (q.chartEdit o form v n).events =
        Chart.eventsFrom q.backend.fields n.chart (es.map fun e => (o, e)) ∧
      ∀ r, (q.chartEdit o form v n).result = .ok r → (q.chartsOf o).mapM q.readEntry = .ok es := by
  have hf := Backend.isSome_of_chart ho hh
  rw [result_chartEdit hf]
  unfold chartEdit
  simp only [Traced.bind_eq, Traced.pure_eq]
  cases hm : q.modifierText .booleanType with
  | error x => exact ⟨[], rfl, fun r h => nomatch h⟩
  | ok operator =>
    rw [Traced.bind_of_ok (Traced.result_ofExcept _)]
    cases hraws : textsOf o v with
    | error x => exact ⟨[], rfl, fun r h => nomatch h⟩
    | ok raws =>
      refine ⟨passing (chartExpr o form operator) raws, ?_, ?_⟩
      · rw [Traced.bind_of_ok (Traced.result_ofExcept _), Traced.events_bind_ok,
          events_charts hf operator raws n.chart]
        rfl
      · intro r h
        rw [ok_bind, ok_bind] at h
        obtain ⟨es, hes, -⟩ := bind_eq_ok.1 h
        rw [mapM_chartsOf hv hh (textsOf_eq_ok.1 hraws) hm, passing_of_mapM hes, hes]

/-- The events of an option about charts tell some of its entries, and all if its edit can be
made. -/
theorem exists_told_of_step {q : Query} {o : SearchOption} (ho : o ∈ q.backend.order) (s : State) :
    ∃ es, (q.step o s).events.filter Event.ofChart =
        Chart.eventsFrom q.backend.fields s.numbering.chart (es.map fun e => (o, e)) ∧
      ∀ r, q.editOf o s.numbering = .ok r → (q.chartsOf o).mapM q.readEntry = .ok es := by
  cases hv : q.given? o with
  | none =>
    refine ⟨[], ?_, fun _ _ => by rw [chartsOf_of_not_given hv]; rfl⟩
    rw [step, hv]
    rfl
  | some v =>
    rw [events_step hv, editOf_of_given hv, List.filter_cons_of_neg Bool.false_ne_true]
    by_cases hchart : ∃ form, o.handling = .chart form
    · obtain ⟨form, hh⟩ := hchart
      have hedit : q.edit o v s.numbering = q.chartEdit o form v s.numbering := by
        rw [edit, hh]
      obtain ⟨es, hevents, hall⟩ := events_chartEdit ho hh hv s.numbering
      rw [hedit, hevents, Chart.filter_eventsFrom]
      exact ⟨es, rfl, hall⟩
    · have hno : ∀ form, o.handling ≠ .chart form := not_exists.1 hchart
      rw [events_edit_of_not_chart hno]
      exact ⟨[], rfl, fun _ _ => by rw [chartsOf_of_not_chart hno]; rfl⟩

/-! ## What a run keeps -/

/-- The charts on the payload are those of the expressions `xs`, each read for one of the options
so far. The events tell these charts, and then `ys`, which an option left that failed. -/
structure Told (q : Query) (done : List SearchOption) (events : List Event) (s : State)
    (xs ys : List (SearchOption × Expr)) : Prop where
  charted : q.Charted done s (xs.map Prod.snd)
  events : events.filter Event.ofChart = Chart.eventsFrom q.backend.fields 0 (xs ++ ys)
  options : ∀ x ∈ xs, x.1 ∈ done

/-- Further events about charts tell charts with the next numbers. -/
theorem Told.append {q : Query} {done : List SearchOption} {events more : List Event} {s : State}
    {xs ys : List (SearchOption × Expr)} (h : q.Told done events s xs [])
    (hmore : more.filter Event.ofChart =
      Chart.eventsFrom q.backend.fields s.numbering.chart ys) :
    (events ++ more).filter Event.ofChart =
      Chart.eventsFrom q.backend.fields 0 (xs ++ ys) := by
  have hevents := h.events
  rw [List.append_nil] at hevents
  rw [List.filter_append, hevents, hmore, Chart.eventsFrom_append, h.charted.next,
    List.length_map, Nat.zero_add]

theorem told_step {q : Query} (hs : q.backend.emailStyle = .indexedRoles)
    {done : List SearchOption} {events : List Event} {o : SearchOption} {s : State}
    {xs : List (SearchOption × Expr)} {e : Edit} {m : Numbering} (ho : o ∈ q.backend.order)
    (h : q.Told done events s xs []) (he : q.editOf o s.numbering = .ok (e, m)) :
    ∃ zs, q.Told (done ++ [o]) (events ++ (q.step o s).events) ⟨e.apply s.payload, m⟩ zs [] := by
  obtain ⟨es, hevents, hall⟩ := exists_told_of_step ho s
  obtain ⟨fs, hfs⟩ := charted_step hs ho h.charted he
  -- what the options so far are read as is settled
  have hread := h.charted.read_concat (hall _ he)
  obtain rfl := Except.ok.inj (hfs.read.symm.trans hread)
  refine ⟨xs ++ es.map fun e => (o, e), ?_, ?_, ?_⟩
  · rw [List.map_append, List.map_map]
    exact (List.map_id es).symm ▸ hfs
  · rw [List.append_nil]
    exact h.append hevents
  · intro x hx
    rcases List.mem_append.1 hx with hx | hx
    · exact List.mem_append_left _ (h.options x hx)
    · obtain ⟨e, -, rfl⟩ := List.mem_map.1 hx
      exact List.mem_append_right _ (List.mem_singleton_self o)

theorem told_initial (q : Query) (backend : String) (options : Nat) :
    q.Told [] [.compilingQuery backend options] { payload := q.initial .empty } [] [] where
  charted := q.charted_initial
  events := rfl
  options := by simp

theorem told_editAll {q : Query} (hs : q.backend.emailStyle = .indexedRoles)
    {os : List SearchOption} {events : List Event} {s : State} {e : Edit} {m : Numbering}
    (hos : ∀ o ∈ os, o ∈ q.backend.order) (h : q.Told [] events s [] [])
    (he : q.editAll os s.numbering = .ok (e, m)) :
    ∃ xs, q.Told os (events ++ (q.runFrom os s).events) ⟨e.apply s.payload, m⟩ xs [] :=
  q.runFrom_induction (I := fun done events t => ∃ xs, q.Told done events t xs [])
    (fun _ _ _ _ _ _ ho hi ha => hi.elim fun _ h => told_step hs ho h ha) hos ⟨[], h⟩ he

/-- The run gets past the options `before`, which come first, and fails on `o`, which is next. -/
structure FailsOn (q : Query) (before : List SearchOption) (o : SearchOption) (x : QueryError) :
    Prop where
  order : ∃ after, q.backend.order = before ++ o :: after
  failed : ∃ e m, q.editAll before {} = .ok (e, m) ∧ q.editOf o m = .error x

theorem FailsOn.not_mem {q : Query} {before : List SearchOption} {o : SearchOption}
    {x : QueryError} (h : q.FailsOn before o x) : o ∉ before := by
  obtain ⟨after, horder⟩ := h.order
  have hnodup := nodup_order q.backend
  rw [horder] at hnodup
  exact fun hmem => (List.nodup_append.1 hnodup).2.2 o hmem o (by simp) rfl

/-- What a run leaves that fails: events and payload agree but for the option that it fails on. -/
theorem told_of_error {q : Query} (hs : q.backend.emailStyle = .indexedRoles)
    {events : List Event} {p : Payload} {x : QueryError}
    (h : q.Told [] events { payload := p } [] [])
    (hx : (q.runFrom q.backend.order { payload := p }).result = .error x) :
    ∃ before o m xs ys, q.FailsOn before o x ∧ (∀ y ∈ ys, y.1 = o) ∧
      (q.runFrom q.backend.order { payload := p }).lastOption? = some o ∧
      q.Told before (events ++ (q.runFrom q.backend.order { payload := p }).events)
        ⟨(q.runFrom q.backend.order { payload := p }).payload, m⟩ xs ys := by
  obtain ⟨before, o, after, e, m, horder, he, ho, hp, hl⟩ := q.runFrom_of_error hx
  have hbefore : ∀ a ∈ before, a ∈ q.backend.order := fun a ha => by simp [horder, ha]
  obtain ⟨xs, hxs⟩ := told_editAll hs hbefore h he
  obtain ⟨es, hes, -⟩ := exists_told_of_step (q := q) (o := o) (by simp [horder]) ⟨e.apply p, m⟩
  have hfail := q.result_step o ⟨e.apply p, m⟩
  rw [ho] at hfail
  refine ⟨before, o, m, xs, es.map fun e => (o, e), ⟨⟨after, horder⟩, e, m, he, ho⟩, by simp, hl,
    ?_, ?_, hxs.options⟩
  · rw [hp]
    exact hxs.charted
  · rw [horder, q.runFrom_append _ he, runFrom_cons_of_error hfail, ← List.append_assoc]
    exact hxs.append hes

/-! ## What events say -/

/-- The events number charts from 0 in order, and tell a term after the number of its own chart
and before the next. -/
structure InOrder (events : List Event) : Prop where
  numbers : ∃ n, events.filterMap Event.assigned? = List.range n
  terms : ∀ before after i field operator, events = before ++ .chartTerm i field operator :: after →
    (before.filterMap Event.assigned?).getLast? = some i.chart

/-- The charts on a payload are those that the events number and that were kept; their terms are
those that the events tell, each once, with field and operator. -/
structure Tells (kept : Nat → Prop) (events : List Event) (p : Payload) : Prop where
  once : (events.filterMap Event.index?).Nodup
  slots : ∀ k v, Chart.HasStem k → p.get? k = some v → ∃ s : Chart.Slot, s.key = k
  charts : ∀ n, Chart.On p n ↔ kept n ∧ ∃ o, .assignedChart o n ∈ events
  field : ∀ (i : Position) v, p.get? (i.key "field") = some v ↔
    kept i.chart ∧ ∃ field operator, .chartTerm i field operator ∈ events ∧ v = .text field
  type : ∀ (i : Position) v, p.get? (i.key "type") = some v ↔
    kept i.chart ∧ ∃ field operator, .chartTerm i field operator ∈ events ∧ v = .text operator

section

variable {q : Query} {done : List SearchOption} {events : List Event} {s : State}
  {xs ys : List (SearchOption × Expr)} {kept : Nat → Prop}

theorem Told.inOrder (h : q.Told done events s xs ys) : InOrder events where
  numbers := by
    refine ⟨(xs ++ ys).length, ?_⟩
    rw [← Event.assigned_filter_ofChart, h.events, Chart.assigned_eventsFrom, List.range_eq_range']
  terms := by
    rintro before after i field operator rfl
    have hevents := h.events
    rw [List.filter_append, List.filter_cons_of_pos rfl] at hevents
    rw [← Event.assigned_filter_ofChart]
    exact Chart.assigned_before_term hevents.symm

theorem Told.mem_assigned (h : q.Told done events s xs ys) {o : SearchOption} {n : Nat} :
    .assignedChart o n ∈ events ↔ ∃ e, (xs ++ ys)[n]? = some (o, e) := by
  rw [← Event.mem_filter_ofChart rfl, h.events, Chart.mem_eventsFrom_assigned]
  simp

theorem Told.mem_term (h : q.Told done events s xs ys) {i : Position} {field operator : String} :
    .chartTerm i field operator ∈ events ↔
      ∃ x t, (xs ++ ys)[i.chart]? = some x ∧ x.2.term? i.row i.column = some t ∧
        t.field.wireName q.backend.fields = field ∧ t.operator = operator := by
  rw [← Event.mem_filter_ofChart rfl, h.events, Chart.mem_eventsFrom_term]
  simp

/-- On the payload, a slot holds what it holds in the chart of its number. -/
theorem Told.get?_slot (h : q.Told done events s xs ys) (t : Chart.Slot) {v : PayloadValue} :
    s.payload.get? t.key = some v ↔
      ∃ x, xs[t.chart]? = some x ∧ t.held? q.backend.fields x.2 = some v := by
  rw [h.charted.held t.key t.hasStem_key, Chart.get?_key_ofList_entriesFrom, List.getElem?_map,
    Option.bind_map, Option.bind_eq_some_iff]
  rfl

/-- Every chart has a term, so that the numbers on the payload are those of the expressions. -/
theorem Told.on_iff (h : q.Told done events s xs ys) {n : Nat} :
    Chart.On s.payload n ↔ ∃ x, xs[n]? = some x := by
  constructor
  · intro hon
    obtain ⟨t, rfl, ht⟩ := hon
    obtain ⟨v, hv⟩ := Option.isSome_iff_exists.1 ht
    obtain ⟨x, hx, -⟩ := (h.get?_slot t).1 hv
    exact ⟨x, hx⟩
  · intro hex
    obtain ⟨x, hx⟩ := hex
    have hmem : x.2 ∈ xs.map Prod.snd := List.mem_map_of_mem (List.mem_of_getElem? hx)
    obtain ⟨raw, -, hread⟩ := exists_of_mem_mapM h.charted.read hmem
    obtain ⟨row, column, t, ht⟩ := exists_term_of_readEntry hread
    have hfield : s.payload.get? (Chart.Slot.field ⟨n, row, column⟩).key =
        some (.text (t.field.wireName q.backend.fields)) :=
      (h.get?_slot _).2 ⟨x, hx, by simp [Chart.Slot.held?, ht]⟩
    exact ⟨_, rfl, Option.isSome_iff_exists.2 ⟨_, hfield⟩⟩

/-- The charts `xs` are those that were kept. -/
def Keeps (kept : Nat → Prop) (xs ys : List (SearchOption × Expr)) : Prop :=
  ∀ n x, kept n ∧ (xs ++ ys)[n]? = some x ↔ xs[n]? = some x

theorem Told.kept_assigned (h : q.Told done events s xs ys) (hkept : Keeps kept xs ys) {n : Nat} :
    (kept n ∧ ∃ o, .assignedChart o n ∈ events) ↔ ∃ x, xs[n]? = some x := by
  simp only [h.mem_assigned, ← hkept n, Prod.exists, exists_and_left]

theorem Told.kept_term (h : q.Told done events s xs ys) (hkept : Keeps kept xs ys) {i : Position}
    {P : String → String → Prop} :
    (kept i.chart ∧ ∃ field operator, .chartTerm i field operator ∈ events ∧ P field operator) ↔
      ∃ x t, xs[i.chart]? = some x ∧ x.2.term? i.row i.column = some t ∧
        P (t.field.wireName q.backend.fields) t.operator := by
  simp only [h.mem_term, ← hkept i.chart]
  constructor
  · intro hboth
    obtain ⟨hk, _, _, ⟨x, t, hx, ht, rfl, rfl⟩, hP⟩ := hboth
    exact ⟨x, t, ⟨hk, hx⟩, ht, hP⟩
  · intro hex
    obtain ⟨x, t, ⟨hk, hx⟩, ht, hP⟩ := hex
    exact ⟨hk, _, _, ⟨x, t, hx, ht, rfl, rfl⟩, hP⟩

/-- The events tell what is on the payload, as far as it was kept. -/
theorem Told.tells (h : q.Told done events s xs ys) (hkept : Keeps kept xs ys) :
    Tells kept events s.payload where
  once := by
    rw [← Event.indices_filter_ofChart, h.events]
    exact Chart.nodup_indices_eventsFrom _ _ _
  slots k v hk hv := by
    rw [h.charted.held k hk] at hv
    obtain ⟨t, -, -, -, -, ht, -⟩ := Chart.get?_ofList_entriesFrom.1 hv
    exact ⟨t, ht⟩
  charts n := h.on_iff.trans (h.kept_assigned hkept).symm
  field i v := by
    rw [h.kept_term hkept]
    refine (h.get?_slot (.field i)).trans ?_
    simp only [Chart.Slot.chart, Chart.Slot.held?, Option.map_eq_some_iff, ← exists_and_left,
      eq_comm (a := v)]
  type i v := by
    rw [h.kept_term hkept]
    refine (h.get?_slot (.type i)).trans ?_
    simp only [Chart.Slot.chart, Chart.Slot.held?, Option.map_eq_some_iff, ← exists_and_left,
      eq_comm (a := v)]

/-- The charts of an option that is not among those so far come after theirs. -/
theorem Told.option_of_mem (h : q.Told done events s xs ys) {o a : SearchOption} {n : Nat}
    (hys : ∀ y ∈ ys, y.1 = o) (hn : .assignedChart a n ∈ events) :
    (a ∈ done ∧ ∃ e, xs[n]? = some (a, e)) ∨ a = o := by
  obtain ⟨e, he⟩ := h.mem_assigned.1 hn
  rw [List.getElem?_append] at he
  split at he
  · exact .inl ⟨h.options _ (List.mem_of_getElem? he), e, he⟩
  · exact .inr (hys _ (List.mem_of_getElem? he))

/-- Where the option that failed comes later, those charts were kept that were numbered for the
options so far. -/
theorem Told.keeps (h : q.Told done events s xs ys) {o : SearchOption} (ho : o ∉ done)
    (hys : ∀ y ∈ ys, y.1 = o) : Keeps (fun n => ∃ a ∈ done, .assignedChart a n ∈ events) xs ys := by
  intro n x
  constructor
  · intro hboth
    obtain ⟨⟨a, ha, hn⟩, hx⟩ := hboth
    rcases h.option_of_mem hys hn with ⟨-, e, he⟩ | rfl
    · rw [List.getElem?_append_left (List.getElem?_eq_some_iff.1 he).1] at hx
      exact hx
    · exact absurd ha ho
  · intro hx
    have hall : (xs ++ ys)[n]? = some x := by
      rw [List.getElem?_append_left (List.getElem?_eq_some_iff.1 hx).1, hx]
    exact ⟨⟨x.1, h.options x (List.mem_of_getElem? hx), h.mem_assigned.2 ⟨x.2, hall⟩⟩, hall⟩

end

/-! ## Compiling -/

/-- What the events of a compilation say is so, however it ends. Charts are numbered from 0 in
order, and a term is told between the number of its chart and the next. After success, the charts
and terms that are told are those on the payload. After a failure on an option, the charts on the
payload are those numbered for the options before it, and every other number was for that option. -/
theorem compileOnto_trace {q : Query} {r : Outcome} (hb : q.backend = .extendedRolesV4)
    (h : q.compileOnto .empty = r) :
    InOrder r.events ∧
    (r.result = .ok () → Tells (fun _ => True) r.events r.payload) ∧
    ∀ x, r.result = .error x →
      (¬ q.Supported ∧ r.events = [] ∧ r.payload = .empty) ∨
      ∃ before o, q.FailsOn before o x ∧ r.lastOption? = some o ∧
        Tells (fun n => ∃ a ∈ before, .assignedChart a n ∈ r.events) r.events r.payload ∧
        ∀ a n, .assignedChart a n ∈ r.events → a ∈ before ∨ a = o := by
  subst h
  have hstyle : q.backend.emailStyle = .indexedRoles := by rw [hb]; rfl
  cases hu : q.unsupported? with
  | some name =>
    have hno : ¬ q.Supported := fun hs => by simp [unsupported?_eq_none.2 hs] at hu
    rw [compileOnto_of_unsupported hu]
    exact ⟨⟨⟨0, rfl⟩, by simp⟩, nofun, fun _ _ => .inl ⟨hno, rfl, rfl⟩⟩
  | none =>
    have hs := unsupported?_eq_none.1 hu
    have hstart := q.told_initial q.backend.name q.options.size
    have hresult := q.result_runFrom q.backend.order { payload := q.initial .empty }
    rw [compileOnto_eq_of_supported hs]
    cases he : q.editAll q.backend.order {} with
    | ok r =>
      rw [he] at hresult
      obtain ⟨xs, htold⟩ := told_editAll hstyle (fun _ ho => ho) hstart he
      rw [← q.payload_runFrom (s := { payload := q.initial .empty }) he] at htold
      refine ⟨htold.inOrder, fun _ => htold.tells (by simp [Keeps]), fun x hx => ?_⟩
      rw [hresult] at hx
      cases hx
    | error x =>
      rw [he] at hresult
      obtain ⟨before, o, m, xs, ys, hfails, hys, hlast, htold⟩ :=
        told_of_error hstyle hstart hresult
      refine ⟨htold.inOrder, fun hok => ?_, fun y hy => ?_⟩
      · rw [hresult] at hok
        cases hok
      · obtain rfl : x = y := Except.error.inj (hresult.symm.trans hy)
        exact .inr ⟨before, o, hfails, hlast, htold.tells (htold.keeps hfails.not_mem hys),
          fun a n hn => (htold.option_of_mem hys hn).imp_left And.left⟩

/-- Its second flag does not read; the first one is numbered after the chart of another option. -/
def halfNumbered : Query where
  backend := .extendedRolesV4
  options := SortedMap.ofList [("fixed_in", .text "1.0"), ("flag", .list ["a", "b &"])]
  files := .none

theorem compileOnto_trace_halfNumbered :
    InOrder (halfNumbered.compileOnto .empty).events ∧
    .assignedChart .flag 1 ∈ (halfNumbered.compileOnto .empty).events ∧
    Chart.On (halfNumbered.compileOnto .empty).payload 0 ∧
    ¬ Chart.On (halfNumbered.compileOnto .empty).payload 1 ∧
    Tells (fun _ => True) (flagged.compileOnto .empty).events
      (flagged.compileOnto .empty).payload := by
  have hevents : (halfNumbered.compileOnto .empty).events =
      [.compilingQuery "extended-roles-v4" 2, .compilingOption .fixedIn, .assignedChart .fixedIn 0,
        .chartTerm ⟨0, 0, 0⟩ "cf_fixed_in" "substring", .compilingOption .flag,
        .assignedChart .flag 1, .chartTerm ⟨1, 0, 0⟩ "flagtypes.name" "substring"] := by rfl
  have herror : (halfNumbered.compileOnto .empty).result =
      .error (.malformedExpression "b &" .emptyTerm) := by rfl
  have hlast : (halfNumbered.compileOnto .empty).lastOption? = some .flag := by rfl
  obtain ⟨horder, -, hfail⟩ := compileOnto_trace (q := halfNumbered) rfl rfl
  obtain ⟨-, hsuccess, -⟩ := compileOnto_trace (q := flagged) rfl rfl
  rcases hfail _ herror with ⟨-, hnone, -⟩ | ⟨before, o, hfails, ho, htells, -⟩
  · rw [hevents] at hnone
    cases hnone
  · obtain rfl : SearchOption.flag = o := Option.some.inj (hlast.symm.trans ho)
    obtain ⟨after, hsplit⟩ := hfails.order
    have hbefore : SearchOption.fixedIn ∈ before := by
      rw [← takeWhile_order hsplit]
      decide
    refine ⟨horder, by simp [hevents], ?_, ?_, hsuccess rfl⟩
    · have hkept : .assignedChart .fixedIn 0 ∈ (halfNumbered.compileOnto .empty).events := by
        simp [hevents]
      exact (htells.charts 0).2 ⟨⟨.fixedIn, hbefore, hkept⟩, .fixedIn, hkept⟩
    · intro hon
      obtain ⟨⟨a, ha, hmem⟩, -⟩ := (htells.charts 1).1 hon
      obtain rfl : a = .flag := by simpa [hevents] using hmem
      exact hfails.not_mem ha

end Query

end BugQuery
