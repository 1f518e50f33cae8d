import BugQuery.Query.Compile

/-!
# A run is one edit

What a run does to the payload it starts from does not depend on that
payload: the edits of the given options, made in turn, amount to one edit.
`editAll` computes it, and every fact about runs is read off it.

* `apply_andThen`: two edits in a row are one.
* `result_runFrom`, `payload_runFrom`: a run that succeeds makes the edit `editAll`.
* `runFrom_of_error`: a run that fails made the edits before the failing option, and the
  option that its events name last is the failing one.
* `reached_of_compiled`: before an option that the events name, every edit was made.
* `editAll_induction`, `runFrom_induction`: what every single edit keeps, a whole run keeps; the
  second of these also follows the events.
-/
namespace BugQuery

namespace Edit

/-- The edit that makes `e` and then `f`. -/
def andThen (e f : Edit) : Edit where
  entries := f.apply e.entries
  cleared := e.cleared ++ f.cleared

theorem apply_andThen (e f : Edit) (p : Payload) : (e.andThen f).apply p = f.apply (e.apply p) := by
  refine SortedMap.ext_get? fun k => ?_
  simp only [get?_apply, andThen, List.mem_append, Option.or_assoc]
  by_cases hf : k ∈ f.cleared
  · simp [hf]
  · simp [hf]

@[simp] theorem none_andThen (f : Edit) : none.andThen f = f := by
  have h : f.apply SortedMap.empty = f.entries :=
    SortedMap.ext_get? fun k => by simp [get?_apply]
  simp [andThen, none, h]

@[simp] theorem andThen_none (e : Edit) : e.andThen none = e := by
  simp [andThen, none, apply]

theorem andThen_assoc (e f g : Edit) : (e.andThen f).andThen g = e.andThen (f.andThen g) := by
  simp only [andThen, List.append_assoc, Edit.mk.injEq, and_true]
  exact (apply_andThen f g e.entries).symm

theorem apply_empty (e : Edit) : e.apply SortedMap.empty = e.entries :=
  SortedMap.ext_get? fun k => by simp [get?_apply]

end Edit

/-- The option that an event says is being compiled. -/
def Event.compiled? : Event → Option SearchOption
  | compilingOption o => some o
  | _ => none

/-- The option that a run was at when it ended. -/
def Outcome.lastOption? (r : Outcome) : Option SearchOption :=
  (r.events.filterMap Event.compiled?).getLast?

/-- No file can be read. -/
def Files.none : Files := ⟨fun _ => .error .notFound, fun _ => false⟩

namespace Query

/-! ## Edits in turn -/

/-- The edit of an option, which is none where the option is not given. -/
def editOf (q : Query) (o : SearchOption) (n : Numbering) : Except QueryError (Edit × Numbering) :=
  match q.given? o with
  | none => .ok (.none, n)
  | some v => (q.edit o v n).result

/-- The edits of options in turn as one edit, and the numbers that are next after them. -/
def editAll (q : Query) : List SearchOption → Numbering → Except QueryError (Edit × Numbering)
  | [], n => .ok (.none, n)
  | o :: os, n =>
    match q.editOf o n with
    | .ok (e, m) => (q.editAll os m).map fun r => (e.andThen r.1, r.2)
    | .error e => .error e

theorem editOf_of_given {q : Query} {o : SearchOption} {v : OptionValue} (h : q.given? o = some v)
    (n : Numbering) : q.editOf o n = (q.edit o v n).result := by
  rw [editOf, h]

theorem editOf_of_not_given {q : Query} {o : SearchOption} (h : q.given? o = none) (n : Numbering) :
    q.editOf o n = .ok (.none, n) := by
  rw [editOf, h]

theorem editAll_cons_of_ok {q : Query} {o : SearchOption} {n m : Numbering} {e : Edit}
    (h : q.editOf o n = .ok (e, m)) (os : List SearchOption) :
    q.editAll (o :: os) n = (q.editAll os m).map fun r => (e.andThen r.1, r.2) := by
  rw [editAll, h]

theorem editAll_cons_of_error {q : Query} {o : SearchOption} {n : Numbering} {x : QueryError}
    (h : q.editOf o n = .error x) (os : List SearchOption) :
    q.editAll (o :: os) n = .error x := by
  rw [editAll, h]

theorem editAll_singleton (q : Query) (o : SearchOption) (n : Numbering) :
    q.editAll [o] n = q.editOf o n := by
  rw [editAll]
  cases q.editOf o n with
  | error x => rfl
  | ok r => simp [editAll, Except.map]

theorem editAll_cons_eq_ok {q : Query} {o : SearchOption} {os : List SearchOption}
    {n m : Numbering} {e : Edit} : q.editAll (o :: os) n = .ok (e, m) ↔
      ∃ f k g, q.editOf o n = .ok (f, k) ∧ q.editAll os k = .ok (g, m) ∧ e = f.andThen g := by
  cases ho : q.editOf o n with
  | error x => simp [editAll_cons_of_error ho]
  | ok r =>
    rw [editAll_cons_of_ok ho]
    cases hr : q.editAll os r.2 with
    | error x =>
      simp only [Except.map, reduceCtorEq, false_iff]
      intro hex
      obtain ⟨f, k, g, h, hg, -⟩ := hex
      cases h
      rw [hr] at hg
      cases hg
    | ok t =>
      constructor
      · intro h
        cases h
        exact ⟨r.1, r.2, t.1, rfl, hr, rfl⟩
      · intro hex
        obtain ⟨f, k, g, h, hg, rfl⟩ := hex
        cases h
        rw [hr] at hg
        cases hg
        rfl

theorem editAll_append_eq_ok (q : Query) : ∀ {as bs : List SearchOption} {n m : Numbering}
    {e : Edit}, q.editAll (as ++ bs) n = .ok (e, m) ↔
      ∃ f k g, q.editAll as n = .ok (f, k) ∧ q.editAll bs k = .ok (g, m) ∧ e = f.andThen g
  | [], bs, n, m, e => by
    constructor
    · intro h
      exact ⟨.none, n, e, rfl, h, (Edit.none_andThen e).symm⟩
    · intro hex
      obtain ⟨f, k, g, h, hg, rfl⟩ := hex
      cases h
      rwa [Edit.none_andThen]
  | a :: as, bs, n, m, e => by
    simp only [List.cons_append, editAll_cons_eq_ok, editAll_append_eq_ok q]
    constructor
    · intro hex
      obtain ⟨f, k, _, ha, ⟨g, l, h, hg, hh, rfl⟩, rfl⟩ := hex
      exact ⟨_, l, h, ⟨f, k, g, ha, hg, rfl⟩, hh, (Edit.andThen_assoc f g h).symm⟩
    · intro hex
      obtain ⟨_, l, h, ⟨f, k, g, ha, hg, rfl⟩, hh, rfl⟩ := hex
      exact ⟨f, k, _, ha, ⟨g, l, h, hg, hh, rfl⟩, Edit.andThen_assoc f g h⟩

/-! ## Runs -/

theorem result_step (q : Query) (o : SearchOption) (s : State) :
    (q.step o s).result =
      (q.editOf o s.numbering).map fun r => (⟨r.1.apply s.payload, r.2⟩ : State) := by
  unfold step editOf
  cases q.given? o with
  | none => simp [Traced.ok, Except.map]
  | some v =>
    simp only [Traced.bind_eq, Traced.result_bind, Traced.note, Except.bind]
    cases (q.edit o v s.numbering).result <;> rfl

theorem runFrom_cons_of_ok {q : Query} {o : SearchOption} {s s' : State}
    (h : (q.step o s).result = .ok s') (os : List SearchOption) :
    q.runFrom (o :: os) s =
      { q.runFrom os s' with events := (q.step o s).events ++ (q.runFrom os s').events } := by
  rw [runFrom]
  cases hs : q.step o s with
  | mk events result =>
    rw [hs] at h
    cases h
    rfl

theorem runFrom_cons_of_error {q : Query} {o : SearchOption} {s : State} {e : QueryError}
    (h : (q.step o s).result = .error e) (os : List SearchOption) :
    q.runFrom (o :: os) s = ⟨(q.step o s).events, s.payload, .error e⟩ := by
  rw [runFrom]
  cases hs : q.step o s with
  | mk events result =>
    rw [hs] at h
    cases h
    rfl

theorem result_runFrom (q : Query) : ∀ (os : List SearchOption) (s : State),
    (q.runFrom os s).result = (q.editAll os s.numbering).map fun _ => ()
  | [], s => rfl
  | o :: os, s => by
    have hs := q.result_step o s
    cases ho : q.editOf o s.numbering with
    | error x =>
      rw [ho] at hs
      rw [runFrom_cons_of_error hs, editAll_cons_of_error ho]
      rfl
    | ok r =>
      rw [ho] at hs
      rw [runFrom_cons_of_ok hs, editAll_cons_of_ok ho]
      simp only [result_runFrom q os]
      cases q.editAll os r.2 <;> rfl

theorem payload_runFrom (q : Query) : ∀ {os : List SearchOption} {s : State} {e : Edit}
    {m : Numbering}, q.editAll os s.numbering = .ok (e, m) →
    (q.runFrom os s).payload = e.apply s.payload
  | [], s, e, m, h => by
    cases h
    simp [runFrom]
  | o :: os, s, e, m, h => by
    obtain ⟨f, k, g, ho, hr, rfl⟩ := editAll_cons_eq_ok.1 h
    have hs := q.result_step o s
    rw [ho] at hs
    rw [runFrom_cons_of_ok hs, Edit.apply_andThen]
    exact payload_runFrom q (s := ⟨f.apply s.payload, k⟩) hr

/-- After options whose edits can be made, a run goes on with the rest. -/
theorem runFrom_append (q : Query) (bs : List SearchOption) : ∀ {as : List SearchOption}
    {s : State} {e : Edit} {m : Numbering}, q.editAll as s.numbering = .ok (e, m) →
    q.runFrom (as ++ bs) s =
      { q.runFrom bs ⟨e.apply s.payload, m⟩ with
        events := (q.runFrom as s).events ++ (q.runFrom bs ⟨e.apply s.payload, m⟩).events }
  | [], s, e, m, h => by
    cases h
    simp [runFrom]
  | o :: as, s, e, m, h => by
    obtain ⟨f, k, g, ho, hr, rfl⟩ := editAll_cons_eq_ok.1 h
    have hs := q.result_step o s
    rw [ho] at hs
    have ih := runFrom_append q bs (s := ⟨f.apply s.payload, k⟩) hr
    rw [List.cons_append, runFrom_cons_of_ok hs, runFrom_cons_of_ok hs, ih, Edit.apply_andThen]
    simp only [List.append_assoc]

/-- What single steps keep of the events and the payload, a whole run keeps. -/
theorem runFrom_induction (q : Query) {I : List SearchOption → List Event → State → Prop}
    (hstep : ∀ done events o s e m, o ∈ q.backend.order → I done events s →
      q.editOf o s.numbering = .ok (e, m) →
      I (done ++ [o]) (events ++ (q.step o s).events) ⟨e.apply s.payload, m⟩) :
    ∀ {os done : List SearchOption} {events : List Event} {s : State} {e : Edit} {m : Numbering},
      (∀ o ∈ os, o ∈ q.backend.order) → I done events s → q.editAll os s.numbering = .ok (e, m) →
      I (done ++ os) (events ++ (q.runFrom os s).events) ⟨e.apply s.payload, m⟩
  | [], done, events, s, e, m, _, hs, h => by
    cases h
    simpa [runFrom] using hs
  | o :: os, done, events, s, e, m, hos, hs, h => by
    obtain ⟨f, k, g, ho, hr, rfl⟩ := editAll_cons_eq_ok.1 h
    have hresult := q.result_step o s
    rw [ho] at hresult
    have hnext := hstep done events o s f k (hos o (by simp)) hs ho
    have := runFrom_induction q hstep (fun a ha => hos a (by simp [ha])) hnext hr
    rw [Edit.apply_andThen, runFrom_cons_of_ok hresult]
    simpa using this

/-- What single edits keep, a whole run keeps. The property may speak of the options so far. -/
theorem editAll_induction (q : Query) {I : List SearchOption → State → Prop}
    (hstep : ∀ done o s e m, o ∈ q.backend.order → I done s → q.editOf o s.numbering = .ok (e, m) →
      I (done ++ [o]) ⟨e.apply s.payload, m⟩)
    {os done : List SearchOption} {s : State} {e : Edit} {m : Numbering}
    (hos : ∀ o ∈ os, o ∈ q.backend.order) (hs : I done s)
    (h : q.editAll os s.numbering = .ok (e, m)) : I (done ++ os) ⟨e.apply s.payload, m⟩ :=
  @runFrom_induction q (fun done _ s => I done s)
    (fun done _ o s e m ho hi he => hstep done o s e m ho hi he) os done [] s e m hos hs h

/-! ## What the events of a run tell -/

/-- Nothing among the events says that an option is being compiled. -/
def Quiet {α : Type} (x : Traced QueryError α) : Prop := x.events.filterMap Event.compiled? = []

theorem quiet_ofExcept {α : Type} (r : Except QueryError α) : Quiet (Traced.ofExcept r) := rfl

theorem quiet_bind {α β : Type} {x : Traced QueryError α} {f : α → Traced QueryError β}
    (hx : Quiet x) (hf : ∀ a, Quiet (f a)) : Quiet (x.bind f) := by
  unfold Quiet at *
  cases h : x.result with
  | ok a => rw [Traced.bind_of_ok h, List.filterMap_append, hx, hf a]; rfl
  | error e => rw [Traced.bind_of_error h, hx]

theorem quiet_encodeTerms (fields : FieldTable) (backend : String) (chart : Nat) :
    ∀ ts : List (Nat × Nat × Term), Quiet (Chart.encodeTerms fields backend chart ts)
  | [] => rfl
  | (row, column, t) :: ts => by
    unfold Chart.encodeTerms
    cases t.field.wire? fields with
    | none => rfl
    | some field =>
      exact quiet_bind rfl fun _ =>
        quiet_bind (quiet_encodeTerms fields backend chart ts) fun _ => rfl

theorem quiet_charts (q : Query) (o : SearchOption) (form : ChartForm) (operator : String) :
    ∀ (raws : List String) (n : Nat), Quiet (q.charts o form operator raws n)
  | [], _ => rfl
  | raw :: raws, n => by
    refine quiet_bind (quiet_ofExcept _) fun e => quiet_bind rfl fun _ => quiet_bind ?_ fun p =>
      quiet_bind (q.quiet_charts o form operator raws (n + 1)) fun _ => rfl
    exact quiet_bind (quiet_encodeTerms _ _ n _) fun _ => rfl

/-- Only the step of an option notes that it is being compiled, its edit does not. -/
theorem quiet_edit (q : Query) (o : SearchOption) (v : OptionValue) (n : Numbering) :
    Quiet (q.edit o v n) := by
  unfold edit
  split
  case h_4 form _ =>
    exact quiet_bind (quiet_ofExcept _) fun operator => quiet_bind (quiet_ofExcept _) fun raws =>
      quiet_bind (q.quiet_charts o form operator raws n.chart) fun _ => rfl
  all_goals exact quiet_ofExcept _

theorem compiled_step (q : Query) {o : SearchOption} {v : OptionValue} (h : q.given? o = some v)
    (s : State) : (q.step o s).events.filterMap Event.compiled? = [o] := by
  have he : Quiet (q.edit o v s.numbering) := q.quiet_edit o v s.numbering
  unfold step
  simp only [h, Traced.bind_eq]
  rw [Traced.bind_of_ok rfl, List.filterMap_append]
  have := quiet_bind he fun r => (rfl : Quiet (Traced.ok (State.mk (r.1.apply s.payload) r.2)))
  exact congrArg ([o] ++ ·) this

theorem given_of_editOf_error {q : Query} {o : SearchOption} {n : Numbering} {x : QueryError}
    (h : q.editOf o n = .error x) : ∃ v, q.given? o = some v := by
  cases hv : q.given? o with
  | none => rw [editOf_of_not_given hv] at h; cases h
  | some v => exact ⟨v, rfl⟩

/-- A run that fails made the edits before one option, failed on it, and names it last. -/
theorem runFrom_of_error (q : Query) : ∀ {os : List SearchOption} {s : State} {x : QueryError},
    (q.runFrom os s).result = .error x → ∃ before o after e m, os = before ++ o :: after ∧
      q.editAll before s.numbering = .ok (e, m) ∧ q.editOf o m = .error x ∧
      (q.runFrom os s).payload = e.apply s.payload ∧ (q.runFrom os s).lastOption? = some o
  | [], s, x, h => by cases h
  | o :: os, s, x, h => by
    have hs := q.result_step o s
    cases ho : q.editOf o s.numbering with
    | error y =>
      rw [ho] at hs
      rw [runFrom_cons_of_error hs] at h ⊢
      cases h
      obtain ⟨v, hv⟩ := given_of_editOf_error ho
      refine ⟨[], o, os, .none, s.numbering, rfl, rfl, ho, by simp, ?_⟩
      simp [Outcome.lastOption?, q.compiled_step hv]
    | ok r =>
      rw [ho] at hs
      rw [runFrom_cons_of_ok hs] at h ⊢
      obtain ⟨before, a, after, f, k, rfl, hb, ha, hp, hl⟩ := runFrom_of_error q h
      refine ⟨o :: before, a, after, r.1.andThen f, k, rfl,
        editAll_cons_eq_ok.2 ⟨r.1, r.2, f, ho, hb, rfl⟩, ha, ?_, ?_⟩
      · rw [Edit.apply_andThen]
        exact hp
      · rw [Outcome.lastOption?] at hl ⊢
        rw [List.filterMap_append, List.getLast?_append, hl]
        rfl

theorem mem_compiled_step {q : Query} {o a : SearchOption} {s : State}
    (h : o ∈ (q.step a s).events.filterMap Event.compiled?) : o = a := by
  cases hv : q.given? a with
  | none =>
    simp only [step, hv] at h
    cases h
  | some v =>
    rw [q.compiled_step hv] at h
    exact List.mem_singleton.1 h

/-- An option that the events name was reached: the edits of those before it were made. -/
theorem reached_of_compiled (q : Query) : ∀ {os : List SearchOption} {s : State}
    {o : SearchOption}, o ∈ (q.runFrom os s).events.filterMap Event.compiled? →
    ∃ before after e m, os = before ++ o :: after ∧ q.editAll before s.numbering = .ok (e, m)
  | [], s, o, h => by cases h
  | a :: os, s, o, h => by
    have hs := q.result_step a s
    cases ha : q.editOf a s.numbering with
    | error x =>
      rw [ha] at hs
      rw [runFrom_cons_of_error hs] at h
      obtain rfl := mem_compiled_step h
      exact ⟨[], os, .none, s.numbering, rfl, rfl⟩
    | ok r =>
      rw [ha] at hs
      rw [runFrom_cons_of_ok hs, List.filterMap_append, List.mem_append] at h
      rcases h with h | h
      · obtain rfl := mem_compiled_step h
        exact ⟨[], os, .none, s.numbering, rfl, rfl⟩
      · obtain ⟨before, after, e, m, rfl, he⟩ := reached_of_compiled q h
        exact ⟨a :: before, after, r.1.andThen e, m, rfl,
          editAll_cons_eq_ok.2 ⟨r.1, r.2, e, ha, he, rfl⟩⟩

/-! ## Compiling -/

/-- Every name among the options is the name of an option that the backend takes. -/
def Supported (q : Query) : Prop := ∀ name ∈ q.options.keys, ∃ o ∈ q.backend.order, o.name = name

theorem supportsName_iff {b : Backend} {name : String} :
    b.supportsName name = true ↔ ∃ o ∈ b.order, o.name = name := by
  simp only [Backend.supportsName, Option.any_eq_true, Backend.supports, List.contains_iff_mem]
  constructor
  · intro hex
    obtain ⟨o, ho, hm⟩ := hex
    exact ⟨o, hm, SearchOption.name_of_ofName? ho⟩
  · intro hex
    obtain ⟨o, hm, rfl⟩ := hex
    exact ⟨o, SearchOption.ofName?_name o, hm⟩

theorem unsupported?_eq_none {q : Query} : q.unsupported? = none ↔ q.Supported := by
  simp [unsupported?, Supported, List.find?_eq_none, supportsName_iff]

theorem exists_of_unsupported? {q : Query} {name : String} (h : q.unsupported? = some name) :
    name ∈ q.options.keys ∧ ∀ o ∈ q.backend.order, o.name ≠ name := by
  have hname := List.find?_some h
  have hno : ¬ ∃ o ∈ q.backend.order, o.name = name := fun ho => by
    simp [supportsName_iff.2 ho] at hname
  exact ⟨List.mem_of_find?_eq_some h, fun o ho he => hno ⟨o, ho, he⟩⟩

/-- The edit of a whole query, the fields that are returned by default included. -/
def whole (q : Query) : Except QueryError Edit :=
  (q.editAll q.backend.order {}).map fun r =>
    (Edit.set includeFieldsKey (.list q.backend.defaultIncludeFields)).andThen r.1

theorem apply_set (k : String) (v : PayloadValue) (p : Payload) :
    (Edit.set k v).apply p = p.insert k v :=
  SortedMap.ext_get? fun x => by
    rw [Edit.get?_apply]
    by_cases hx : k = x <;> simp [Edit.set, hx]

theorem get?_initial_of_ne (q : Query) {k : String} (hk : includeFieldsKey ≠ k) (p : Payload) :
    (q.initial p).get? k = p.get? k := by
  rw [initial, SortedMap.get?_insert, if_neg hk]

/-- A compilation that begins is a run, after one event more. -/
theorem compileOnto_eq_of_supported {q : Query} (h : q.Supported) (p : Payload) :
    q.compileOnto p = { q.runFrom q.backend.order { payload := q.initial p } with
      events := [.compilingQuery q.backend.name q.options.size] ++
        (q.runFrom q.backend.order { payload := q.initial p }).events } := by
  rw [compileOnto, unsupported?_eq_none.2 h]
  rfl

theorem compileOnto_of_supported {q : Query} (h : q.Supported) (p : Payload) :
    (q.compileOnto p).result = (q.runFrom q.backend.order { payload := q.initial p }).result ∧
    (q.compileOnto p).payload = (q.runFrom q.backend.order { payload := q.initial p }).payload ∧
    (q.compileOnto p).lastOption? =
      (q.runFrom q.backend.order { payload := q.initial p }).lastOption? := by
  rw [compileOnto_eq_of_supported h]
  exact ⟨rfl, rfl, rfl⟩

theorem compileOnto_of_unsupported {q : Query} {name : String} (h : q.unsupported? = some name)
    (p : Payload) :
    q.compileOnto p = ⟨[], p, .error (.unsupportedOption name q.backend.name)⟩ := by
  rw [compileOnto, h]

theorem result_compileOnto {q : Query} (h : q.Supported) (p : Payload) :
    (q.compileOnto p).result = q.whole.map fun _ => () := by
  rw [(compileOnto_of_supported h p).1, result_runFrom, whole]
  cases q.editAll q.backend.order {} <;> rfl

theorem payload_compileOnto {q : Query} (h : q.Supported) {e : Edit} (he : q.whole = .ok e)
    (p : Payload) : (q.compileOnto p).payload = e.apply p := by
  rw [(compileOnto_of_supported h p).2.1]
  cases hr : q.editAll q.backend.order {} with
  | error x => rw [whole, hr] at he; cases he
  | ok r =>
    rw [whole, hr] at he
    cases he
    rw [q.payload_runFrom hr, Edit.apply_andThen, apply_set]
    rfl

theorem result_compile (q : Query) :
    q.compile.result = (q.compileOnto .empty).result.map fun _ => (q.compileOnto .empty).payload :=
  rfl

end Query

end BugQuery
