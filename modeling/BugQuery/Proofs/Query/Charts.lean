import BugQuery.Proofs.Query.Overlay

/-!
# The charts of a query

The entries of all chart options, in the order of the options, become charts
with the numbers 0, 1, 2 and so on: one chart for each entry, and nothing
else in a payload has a key like those of charts. What carries this through
a run is `Charted`, which ties the number of the next chart, and the keys on
the payload, to the entries of the options so far.

* `charted_step`, `charted_editAll`: one option keeps `Charted`, and so does a run.
* `compile_charts`: the charts on the payload of a query, and its mark.
-/
namespace BugQuery

open FirstFailure

namespace Chart

/-- What the keys of charts begin with. -/
def stems : List String := ["field", "type", "value", "negate"]

def HasStem (k : String) : Prop := ∃ stem ∈ stems, stem.toList <+: k.toList

instance : DecidablePred HasStem := fun _ => inferInstanceAs (Decidable (∃ _ ∈ _, _))

theorem Slot.hasStem_key (s : Slot) : HasStem s.key := by
  cases s <;> simp [HasStem, stems, key, Position.key, negateKey]

theorem not_hasStem_email (s : String) : ¬ HasStem ("email" ++ s) := by
  simp [HasStem, stems]

theorem not_hasStem_mark : ¬ HasStem Query.advancedMark.1 := by decide

end Chart

theorem Backend.not_hasStem_fixedKeys {b : Backend} {o : SearchOption} {k : String}
    (ho : o ∈ b.order) (hk : k ∈ b.fixedKeys o) : ¬ Chart.HasStem k := by
  have hall : ∀ o ∈ b.order, ∀ k ∈ b.fixedKeys o, ¬ Chart.HasStem k := by
    cases b <;> decide +kernel
  exact hall o ho k hk

theorem Backend.mark_not_mem_fixedKeys {b : Backend} {o : SearchOption} (ho : o ∈ b.order) :
    Query.advancedMark.1 ∉ b.fixedKeys o := by
  have hall : ∀ o ∈ b.order, Query.advancedMark.1 ∉ b.fixedKeys o := by
    cases b <;> decide +kernel
  exact hall o ho

namespace Query

/-! ## The entries of a query -/

/-- The options that give charts, in the order in which charts are numbered. -/
def chartOptions : List SearchOption :=
  [.fixedIn, .blocked, .dependsOn, .flag, .qaWhiteboard, .develWhiteboard, .bugAlias, .booleanQuery]

/-- The options that give the address of a role. -/
def roleOptions : List SearchOption := [.cc, .assignedTo, .reporter, .qaContact]

/-- The entries given for an option, each with the option; a text is one entry. -/
def entriesGiven (q : Query) (o : SearchOption) : List (SearchOption × String) :=
  (((q.given? o).bind OptionValue.toList?).getD []).map fun raw => (o, raw)

/-- The entries of all chart options. -/
def chartEntries (q : Query) : List (SearchOption × String) := chartOptions.flatMap q.entriesGiven

/-- The operator of charts whose entries are values. -/
def shortcutOperator (q : Query) : String :=
  ((q.given? .booleanType).bind OptionValue.text?).getD defaultMatch

/-- The expression that an entry is read as. -/
def readEntry (q : Query) (x : SearchOption × String) : Except QueryError Expr :=
  if x.1 = .booleanQuery then Expr.parse x.2
  else Expr.parseValues x.1.name q.shortcutOperator x.2

/-- The entries of an option that become charts. -/
def chartsOf (q : Query) (o : SearchOption) : List (SearchOption × String) :=
  match o.handling with
  | .chart _ => q.entriesGiven o
  | _ => []

/-- An address is given for a role. -/
def GivesAddress (q : Query) (o : SearchOption) : Prop :=
  o.handling = .email ∧ (q.given? o).isSome = true

instance (q : Query) : DecidablePred q.GivesAddress := fun _ => inferInstanceAs (Decidable (_ ∧ _))

theorem readEntry_eq_chartExpr {q : Query} {o : SearchOption} {form : ChartForm}
    (h : o.handling = .chart form) (raw : String) :
    q.readEntry (o, raw) = chartExpr o form q.shortcutOperator raw := by
  cases o <;> cases h <;> rfl

theorem shortcutOperator_of_modifierText {q : Query} {s : String}
    (h : q.modifierText .booleanType = .ok s) : q.shortcutOperator = s :=
  getD_text_of_modifierText h

/-! ## What a run keeps -/

/-- The charts on the payload are those of the expressions `es`, which the entries of the options
so far are read as; the next number is the next one, and the mark is there if it has to be. -/
structure Charted (q : Query) (done : List SearchOption) (s : State) (es : List Expr) : Prop where
  read : (done.flatMap q.chartsOf).mapM q.readEntry = .ok es
  next : s.numbering.chart = es.length
  held : ∀ k, Chart.HasStem k → s.payload.get? k =
    (SortedMap.ofList (Chart.entriesFrom q.backend.fields 0 es)).get? k
  mark : s.payload.get? advancedMark.1 =
    if es ≠ [] ∨ ∃ o ∈ done, q.GivesAddress o then some advancedMark.2 else none

/-- What a look-up finds after an option's edit, for keys that no edit clears. -/
theorem get?_apply_editOf {q : Query} {o : SearchOption} {n m : Numbering} {e : Edit} {k : String}
    (ho : o ∈ q.backend.order) (h : q.editOf o n = .ok (e, m)) (hs : k ≠ "bug_status")
    (hi : k ≠ includeFieldsKey) (p : Payload) :
    (e.apply p).get? k = (e.entries.get? k).or (p.get? k) := by
  have hc : k ∉ e.cleared := by
    rw [mem_cleared_editOf ho h]
    intro hcases
    rcases hcases with ⟨-, hk, -⟩ | ⟨-, hk, -⟩
    · exact hs hk
    · exact hi hk
  rw [Edit.get?_apply, if_neg hc]

theorem exists_givesAddress_concat {q : Query} {done : List SearchOption} {o : SearchOption} :
    (∃ a ∈ done ++ [o], q.GivesAddress a) ↔ (∃ a ∈ done, q.GivesAddress a) ∨ q.GivesAddress o := by
  simp only [List.mem_append, List.mem_singleton, or_and_right, exists_or, exists_eq_left]

/-- An option without charts and address that leaves the number and the keys of charts. -/
theorem Charted.keep {q : Query} {done : List SearchOption} {o : SearchOption} {s s' : State}
    {es : List Expr} (h : q.Charted done s es) (hc : q.chartsOf o = []) (ha : ¬ q.GivesAddress o)
    (hn : s'.numbering.chart = s.numbering.chart)
    (hstem : ∀ k, Chart.HasStem k → s'.payload.get? k = s.payload.get? k)
    (hmark : s'.payload.get? advancedMark.1 = s.payload.get? advancedMark.1) :
    q.Charted (done ++ [o]) s' es where
  read := by simpa [List.flatMap_append, hc] using h.read
  next := hn.trans h.next
  held k hk := (hstem k hk).trans (h.held k hk)
  mark := by simp only [hmark, h.mark, exists_givesAddress_concat, ha, or_false]

/-- A role's address leaves the charts and puts the mark. -/
theorem Charted.address {q : Query} {done : List SearchOption} {o : SearchOption} {s : State}
    {es : List Expr} {n : Nat} {m : Numbering} {role address matchType : String}
    (h : q.Charted done s es) (hc : q.chartsOf o = []) (ha : q.GivesAddress o)
    (hn : m.chart = s.numbering.chart) : q.Charted (done ++ [o])
      ⟨(Edit.setAll (indexedRole n role address matchType)).apply s.payload, m⟩ es where
  read := by simpa [List.flatMap_append, hc] using h.read
  next := hn.trans h.next
  held k hk := by
    have hnone : (Edit.setAll (indexedRole n role address matchType)).entries.get? k = none := by
      refine Option.eq_none_iff_forall_ne_some.2 fun x hx => ?_
      have hmem := Edit.mem_of_get?_setAll hx
      simp only [indexedRole, List.mem_cons, Prod.mk.injEq, List.not_mem_nil, or_false] at hmem
      rcases hmem with ⟨rfl, -⟩ | ⟨rfl, -⟩ | ⟨rfl, -⟩ | hmark
      · exact Chart.not_hasStem_email _ hk
      · exact absurd hk (by simp [Chart.HasStem, Chart.stems])
      · exact absurd hk (by simp [Chart.HasStem, Chart.stems])
      · exact Chart.not_hasStem_mark (congrArg Prod.fst hmark ▸ hk)
    rw [Edit.get?_apply, hnone, ← h.held k hk]
    rfl
  mark := by
    have hset : (Edit.setAll (indexedRole n role address matchType)).entries.get? advancedMark.1 =
        some advancedMark.2 := by
      rw [Edit.setAll, SortedMap.get?_ofList]
      rfl
    have hyes : es ≠ [] ∨ ∃ a ∈ done ++ [o], q.GivesAddress a :=
      .inr (exists_givesAddress_concat.2 (.inr ha))
    rw [Edit.get?_apply, hset, if_pos hyes]
    rfl

/-- What the entries of one more option are read as comes after the rest. -/
theorem Charted.read_concat {q : Query} {done : List SearchOption} {o : SearchOption} {s : State}
    {es fs : List Expr} (h : q.Charted done s es)
    (hread : (q.chartsOf o).mapM q.readEntry = .ok fs) :
    ((done ++ [o]).flatMap q.chartsOf).mapM q.readEntry = .ok (es ++ fs) := by
  rw [List.flatMap_append, List.mapM_append, h.read]
  simp only [List.flatMap_cons, List.flatMap_nil, List.append_nil, hread, ok_bind]
  rfl

/-- Charts numbered from the next number on are added to those that are there. -/
theorem Charted.charts {q : Query} {done : List SearchOption} {o : SearchOption} {s : State}
    {es fs : List Expr} {m : Numbering} (h : q.Charted done s es) (ha : ¬ q.GivesAddress o)
    (hread : (q.chartsOf o).mapM q.readEntry = .ok fs)
    (hn : m.chart = s.numbering.chart + fs.length) : q.Charted (done ++ [o])
      ⟨(chartsEdit q.backend.fields s.numbering.chart fs).apply s.payload, m⟩ (es ++ fs) where
  read := h.read_concat hread
  next := by rw [List.length_append, ← h.next, hn]
  held k hk := by
    have hne : k ≠ advancedMark.1 := fun he => Chart.not_hasStem_mark (he ▸ hk)
    rw [Chart.entriesFrom_append, SortedMap.ofList_append, SortedMap.get?_merge, ← h.held k hk,
      Edit.get?_apply, get?_chartsEdit, if_neg fun he => hne he.1, Nat.zero_add, h.next]
    rfl
  mark := by
    rw [Edit.get?_apply, get?_chartsEdit]
    cases fs with
    | nil =>
      simp only [List.append_nil, exists_givesAddress_concat, ha, or_false]
      exact h.mark
    | cons f fs => simp

theorem chartsOf_of_not_given {q : Query} {o : SearchOption} (h : q.given? o = none) :
    q.chartsOf o = [] := by
  unfold chartsOf entriesGiven
  rw [h]
  split <;> rfl

theorem chartsOf_of_modifier? {q : Query} {o : SearchOption} (h : q.backend.modifier? o = none) :
    q.chartsOf o = [] := by
  unfold chartsOf
  split
  · rename_i hh
    simp [Backend.modifier?, hh] at h
  · rfl

/-- The entries of a chart option are read with the operator that its edit finds. -/
theorem mapM_chartsOf {q : Query} {o : SearchOption} {v : OptionValue} {form : ChartForm}
    {operator : String} {raws : List String} (hv : q.given? o = some v)
    (hh : o.handling = .chart form) (hraws : v.toList? = some raws)
    (hm : q.modifierText .booleanType = .ok operator) :
    (q.chartsOf o).mapM q.readEntry = raws.mapM (chartExpr o form operator) := by
  have hentries : q.chartsOf o = raws.map fun raw => (o, raw) := by
    simp [chartsOf, hh, entriesGiven, hv, hraws]
  have hread : (q.readEntry ∘ fun raw => (o, raw)) = chartExpr o form operator := by
    funext raw
    rw [Function.comp, readEntry_eq_chartExpr hh, shortcutOperator_of_modifierText hm]
  rw [hentries, List.mapM_map, hread]

/-- An option that sets fixed keys sets none like those of charts. -/
theorem Charted.fixed {q : Query} (hs : q.backend.emailStyle = .indexedRoles)
    {done : List SearchOption} {o : SearchOption} {s : State} {es : List Expr} {e : Edit}
    (h : q.Charted done s es) (ho : o ∈ q.backend.order)
    (he : q.editOf o s.numbering = .ok (e, s.numbering)) (hm : q.backend.modifier? o = none)
    (hkeys : ∀ k x, e.entries.get? k = some x → k ∈ q.backend.fixedKeys o) :
    q.Charted (done ++ [o]) ⟨e.apply s.payload, s.numbering⟩ es := by
  have hnone : ∀ k, k ∉ q.backend.fixedKeys o → e.entries.get? k = none := by
    intro k hk
    exact Option.eq_none_iff_forall_ne_some.2 fun x hx => hk (hkeys k x hx)
  refine h.keep (chartsOf_of_modifier? hm) ?_ rfl ?_ ?_
  · intro haddress
    simp [Backend.modifier?, haddress.1, hs] at hm
  · intro k hk
    have hfree : k ∉ q.backend.fixedKeys o := fun hmem => Backend.not_hasStem_fixedKeys ho hmem hk
    have hstatus : k ≠ "bug_status" := by rintro rfl; exact absurd hk (by decide)
    have hfields : k ≠ includeFieldsKey := by rintro rfl; exact absurd hk (by decide)
    rw [get?_apply_editOf ho he hstatus hfields, hnone k hfree]
    rfl
  · rw [get?_apply_editOf ho he (by decide) (by decide),
      hnone _ (Backend.mark_not_mem_fixedKeys ho)]
    rfl

theorem charted_step {q : Query} (hs : q.backend.emailStyle = .indexedRoles)
    {done : List SearchOption} {o : SearchOption} {s : State} {es : List Expr} {m : Numbering}
    {e : Edit} (ho : o ∈ q.backend.order) (h : q.Charted done s es)
    (he : q.editOf o s.numbering = .ok (e, m)) :
    ∃ fs, q.Charted (done ++ [o]) ⟨e.apply s.payload, m⟩ fs := by
  cases made_of_editOf ho he with
  | absent hv =>
    refine ⟨es, h.keep (chartsOf_of_not_given hv) ?_ rfl (by simp) (by simp)⟩
    intro haddress
    simp [GivesAddress, hv] at haddress
  | fixed hv hm hkeys hcleared => exact ⟨es, h.fixed hs ho he hm hkeys⟩
  | address hv hh hs hw hm =>
    refine ⟨es, h.address ?_ ⟨hh, by rw [hv]; rfl⟩ rfl⟩
    simp [chartsOf, hh]
  | @charts v form operator raws fs hv hh hraws hm hes =>
    refine ⟨es ++ fs, h.charts ?_ ((mapM_chartsOf hv hh hraws hm).trans hes) rfl⟩
    intro haddress
    rw [GivesAddress, hh] at haddress
    cases haddress.1

theorem charted_editAll {q : Query} (hs : q.backend.emailStyle = .indexedRoles)
    {os : List SearchOption} {s : State} {e : Edit} {m : Numbering}
    (hos : ∀ o ∈ os, o ∈ q.backend.order) (h : q.Charted [] s [])
    (he : q.editAll os s.numbering = .ok (e, m)) :
    ∃ es, q.Charted os ⟨e.apply s.payload, m⟩ es := by
  have hrun := editAll_induction q (I := fun done t => ∃ es, q.Charted done t es)
    (fun _ _ _ _ _ ho hi ha => hi.elim fun _ h => charted_step hs ho h ha) hos ⟨[], h⟩ he
  simpa using hrun

/-- The payload of a query before the first option. -/
theorem charted_initial (q : Query) : q.Charted [] { payload := q.initial .empty } [] where
  read := rfl
  next := rfl
  held k hk := by
    have hne : includeFieldsKey ≠ k := by rintro rfl; exact absurd hk (by decide)
    simp [initial, SortedMap.get?_insert, hne, Chart.entriesFrom, SortedMap.get?_ofList,
      SortedMap.find]
  mark := by simp [initial, SortedMap.get?_insert, includeFieldsKey, advancedMark]

/-! ## Charts of a query -/

/-- On the payload, chart number `n` is the expression `e`, read from an entry of the option `o`. -/
structure HoldsChart (q : Query) (p : Payload) (n : Nat) (o : SearchOption) (e : Expr) :
    Prop where
  field : ∀ row column t, e.term? row column = some t →
    ∃ wire, p.get? (Position.key ⟨n, row, column⟩ "field") = some (.text wire) ∧
      if o = .booleanQuery then t.field = .verbatim wire else q.backend.wireName o.name = .ok wire
  type : ∀ row column t, e.term? row column = some t →
    p.get? (Position.key ⟨n, row, column⟩ "type") = some (.text t.operator) ∧
      (o ≠ .booleanQuery → t.operator = q.shortcutOperator)
  value : ∀ row column t, e.term? row column = some t →
    p.get? (Position.key ⟨n, row, column⟩ "value") = some (.text t.value)
  negate : p.get? (Chart.negateKey n) = if e.negate then some (.int 1) else none

theorem exists_charted {q : Query} {p : Payload} (hb : q.backend = .extendedRolesV4)
    (h : q.compile.result = .ok p) :
    ∃ es m, q.Charted q.backend.order ⟨p, m⟩ es := by
  obtain ⟨-, e, he, rfl⟩ := compile_eq_ok.1 h
  obtain ⟨⟨f, m⟩, hf, rfl⟩ := map_eq_ok.1 he
  have hs : q.backend.emailStyle = .indexedRoles := by rw [hb]; rfl
  obtain ⟨es, hes⟩ := charted_editAll hs (fun _ ho => ho) q.charted_initial hf
  exact ⟨es, m, hes⟩

theorem holdsChart_of_charted {q : Query} {p : Payload} {done : List SearchOption} {m : Numbering}
    {es : List Expr} (h : q.Charted done ⟨p, m⟩ es) {n : Nat} {o : SearchOption} {raw : String}
    {e : Expr} (hn : es[n]? = some e) (hread : q.readEntry (o, raw) = .ok e)
    (ho : o ∈ q.backend.order) (hform : o ≠ .booleanQuery → o.handling = .chart .values) :
    q.HoldsChart p n o e := by
  have hslot : ∀ s : Chart.Slot, s.chart = n → p.get? s.key = s.held? q.backend.fields e := by
    intro s hs
    rw [h.held s.key s.hasStem_key, Chart.get?_key_ofList_entriesFrom, hs, hn]
    rfl
  have hterm : ∀ row column t, e.term? row column = some t → t ∈ e.rows.flatten := by
    intro row column t ht
    exact Expr.mem_flatten_of_mem_positionedTerms (Expr.mem_positionedTerms_iff_term?.2 ht)
  refine ⟨?_, ?_, ?_, hslot (.negate n) rfl⟩
  · intro row column t ht
    refine ⟨t.field.wireName q.backend.fields, ?_, ?_⟩
    · simpa [Chart.Slot.held?, Chart.Slot.key, ht] using hslot (.field ⟨n, row, column⟩) rfl
    · split
      · rename_i hb
        simp only [readEntry, hb, if_true] at hread
        obtain ⟨name, hname⟩ := Expr.field_of_parse hread (hterm row column t ht)
        rw [hname]
        rfl
      · rename_i hb
        simp only [readEntry, hb, if_false] at hread
        have hfield := (Expr.term_of_parseValues hread (hterm row column t ht)).1
        obtain ⟨wire, hw⟩ := Backend.exists_wireName ho (by rw [hform hb]; rfl)
        rw [hfield, hw, TermField.wireName, Backend.translate_of_wireName hw]
  · intro row column t ht
    refine ⟨?_, fun hb => ?_⟩
    · simpa [Chart.Slot.held?, Chart.Slot.key, ht] using hslot (.type ⟨n, row, column⟩) rfl
    · simp only [readEntry, hb, if_false] at hread
      exact (Expr.term_of_parseValues hread (hterm row column t ht)).2
  · intro row column t ht
    simpa [Chart.Slot.held?, Chart.Slot.key, ht] using hslot (.value ⟨n, row, column⟩) rfl

theorem mem_chartOptions_of_mem_chartEntries {q : Query} {o : SearchOption} {raw : String}
    (h : (o, raw) ∈ q.chartEntries) : o ∈ chartOptions := by
  obtain ⟨a, ha, hmem⟩ := List.mem_flatMap.1 h
  obtain ⟨s, -, hs⟩ := List.mem_map.1 hmem
  cases hs
  exact ha

theorem mem_chartOptions {o : SearchOption} :
    o ∈ chartOptions ↔ ∃ form, o.handling = .chart form := by
  cases o <;> simp [chartOptions, SearchOption.handling]

theorem mem_roleOptions {o : SearchOption} : o ∈ roleOptions ↔ o.handling = .email := by
  cases o <;> decide

/-- The payload of a query holds its entries as charts that are numbered in order from 0. It holds
nothing else under a key like those of charts, and the mark just if there is a chart or an
address. -/
theorem compile_charts {q : Query} {p : Payload} (hb : q.backend = .extendedRolesV4)
    (h : q.compile.result = .ok p) :
    ∃ es : List Expr, es.length = q.chartEntries.length ∧
      (∀ (i : Nat) o raw, q.chartEntries[i]? = some (o, raw) →
        ∃ e, es[i]? = some e ∧ q.readEntry (o, raw) = .ok e ∧ q.HoldsChart p i o e) ∧
      (∀ k v, Chart.HasStem k → p.get? k = some v →
        ∃ (s : Chart.Slot) (e : Expr), s.key = k ∧ es[s.chart]? = some e ∧
          s.held? q.backend.fields e = some v) ∧
      p.get? "query_format" =
        if q.chartEntries ≠ [] ∨ ∃ o ∈ roleOptions, (q.given? o).isSome = true
        then some (.text "advanced") else none := by
  obtain ⟨es, m, hes⟩ := exists_charted hb h
  have hread : q.chartEntries.mapM q.readEntry = .ok es := by
    have := hes.read
    rw [hb] at this
    exact this
  have hlen := length_of_mapM hread
  refine ⟨es, hlen, ?_, ?_, ?_⟩
  · intro i o raw hi
    obtain ⟨e, he, hparse⟩ := getElem?_of_mapM hread hi
    have ho := mem_chartOptions_of_mem_chartEntries (List.mem_of_getElem? hi)
    have horder : o ∈ q.backend.order := by
      have hall : ∀ o ∈ chartOptions, o ∈ Backend.extendedRolesV4.order := by decide
      rw [hb]
      exact hall o ho
    have hform : o ≠ .booleanQuery → o.handling = .chart .values := by
      have hall : ∀ o ∈ chartOptions, o ≠ .booleanQuery → o.handling = .chart .values := by decide
      exact hall o ho
    exact ⟨e, he, hparse, holdsChart_of_charted hes he hparse horder hform⟩
  · intro k v hk hv
    rw [hes.held k hk, Chart.get?_ofList_entriesFrom] at hv
    obtain ⟨s, i, e, hs, he, hkey, hheld⟩ := hv
    rw [Nat.zero_add] at hs
    exact ⟨s, e, hkey, hs ▸ he, hheld⟩
  · have hempty : es ≠ [] ↔ q.chartEntries ≠ [] := by
      rw [← List.length_pos_iff, ← List.length_pos_iff, hlen]
    have hrole : (∃ o ∈ q.backend.order, q.GivesAddress o) ↔
        ∃ o ∈ roleOptions, (q.given? o).isSome = true := by
      constructor
      · intro hex
        obtain ⟨o, -, hh, hgiven⟩ := hex
        exact ⟨o, mem_roleOptions.2 hh, hgiven⟩
      · intro hex
        obtain ⟨o, ho, hgiven⟩ := hex
        have hall : ∀ o ∈ roleOptions, o ∈ Backend.extendedRolesV4.order := by decide
        exact ⟨o, hb ▸ hall o ho, mem_roleOptions.1 ho, hgiven⟩
    have hmark := hes.mark
    simp only [hempty, hrole] at hmark
    exact hmark

/-- Two flags, the second one negated, and a query of its own, with an operator for the flags. -/
def flagged : Query where
  backend := .extendedRolesV4
  options := SortedMap.ofList [("boolean_query", .text "a-equals-1"),
    ("booleantype", .text "regexp"), ("flag", .list ["x | y", "!z"])]
  files := .none

theorem compile_charts_flagged :
    flagged.compile.result = .ok (flagged.compileOnto .empty).payload ∧
    (∃ e, flagged.readEntry (.flag, "!z") = .ok e ∧
      flagged.HoldsChart (flagged.compileOnto .empty).payload 1 .flag e) ∧
    (flagged.compileOnto .empty).payload.get? "query_format" = some (.text "advanced") := by
  have h : flagged.compile.result = .ok (flagged.compileOnto .empty).payload := by rfl
  obtain ⟨es, -, hcharts, -, hmark⟩ := compile_charts rfl h
  obtain ⟨e, -, hread, hholds⟩ := hcharts 1 .flag "!z" (by rfl)
  exact ⟨h, ⟨e, hread, hholds⟩, hmark⟩

end Query

end BugQuery
