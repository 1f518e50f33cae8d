import BugQuery.Proofs.Query.Roles
import BugQuery.Proofs.Query.Tuned

/-!
# What modifiers change

A modifier changes nothing on a payload but what it stands for. The operator
is under the type keys of the charts whose entries are values, and the match
type under the type keys of the roles that are given. On all other keys the
payloads of two queries that differ in the modifier agree, and neither
modifier is a key itself.

* `agreeOff_chartsEdit`, `agreeOff_indexedRole`: the edits of tuned options, side by side.
* `get?_tuned_of_not_hasStem`, `get?_tuned_of_not_hasEmailStem`: the runs, side by side.
* `get?_tuned_of_not_operatorKey`, `get?_tuned_of_not_matchTypeKey`: the payloads.
* `compile_tuned`: what modifiers change, and that they are no keys.
-/
namespace BugQuery

open FirstFailure

/-! ## Expressions with another operator -/

theorem Expr.term?_withOperator (operator : String) (e : Expr) (row column : Nat) :
    (e.withOperator operator).term? row column =
      (e.term? row column).map fun t => { t with operator := operator } := by
  simp only [Expr.term?, Expr.withOperator, List.getElem?_map, Option.bind_map, Option.map_bind]
  congr 1
  funext r
  exact List.getElem?_map

/-- Another operator is seen in the types alone. -/
theorem Chart.Slot.held?_withOperator (fields : FieldTable) (operator : String) (e : Expr)
    {s : Chart.Slot} (hs : ∀ p, s ≠ .type p) :
    s.held? fields (e.withOperator operator) = s.held? fields e := by
  cases s with
  | type p => exact absurd rfl (hs p)
  | field p => simp only [held?, Expr.term?_withOperator, Option.map_map]; rfl
  | value p => simp only [held?, Expr.term?_withOperator, Option.map_map]; rfl
  | negate n => rfl

namespace Query

/-! ## Tuned options side by side -/

/-- Charts of as many expressions agree on all keys but those of charts. -/
theorem agreeOff_chartsEdit (fields : FieldTable) (n : Nat) {es fs : List Expr}
    (h : fs.length = es.length) :
    (chartsEdit fields n fs).AgreeOff Chart.HasStem (chartsEdit fields n es) where
  entries k hk := by
    have hnone : ∀ gs : List Expr,
        (SortedMap.ofList (Chart.entriesFrom fields n gs)).get? k = none := fun gs => by
      refine Option.eq_none_iff_forall_ne_some.2 fun x hx => ?_
      obtain ⟨s, -, -, -, -, rfl, -⟩ := Chart.get?_ofList_entriesFrom.1 hx
      exact hk s.hasStem_key
    have hempty : fs ≠ [] ↔ es ≠ [] := by
      rw [← List.length_pos_iff, ← List.length_pos_iff, h]
    simp only [get?_chartsEdit, hnone, hempty]
  cleared k _ := Iff.rfl

/-- Addresses agree on all keys but those of addresses. -/
theorem agreeOff_indexedRole (n : Nat) (role address matchType matchType' : String) :
    (Edit.setAll (indexedRole n role address matchType')).AgreeOff HasEmailStem
      (Edit.setAll (indexedRole n role address matchType)) where
  entries k hk := by
    have hiff : ∀ (m : String) (v : PayloadValue),
        (k, v) ∈ indexedRole n role address m ↔ (k, v) = advancedMark := fun m v => by
      refine mem_indexedRole.trans ⟨fun h => h.resolve_left ?_, .inr⟩
      rintro ⟨part, rfl, -⟩
      exact hk (hasEmailStem_emailKey _ _)
    have hget : ∀ (m : String) (v : PayloadValue),
        (Edit.setAll (indexedRole n role address m)).entries.get? k = some v ↔
          (k, v) = advancedMark := fun m v => by
      rw [Edit.setAll, SortedMap.get?_ofList_eq_some_iff, hiff]
      intro x y hx hy
      rw [hiff] at hx hy
      exact (Prod.ext_iff.1 (hx.trans hy.symm)).2
    exact Option.ext fun v => (hget matchType' v).trans (hget matchType v).symm
  cleared k _ := Iff.rfl

section

variable {q : Query} {t u : Option String}

theorem agreeOff_tuned_chart {o : SearchOption} {form : ChartForm} {v : OptionValue}
    {n l l' : Numbering} {e f : Edit} (ho : o ∈ q.backend.order) (hh : o.handling = .chart form)
    (hv : q.given? o = some v) (hf : (q.tuned .booleanType u).editOf o n = .ok (f, l'))
    (he : (q.tuned .booleanType t).editOf o n = .ok (e, l)) :
    f.AgreeOff Chart.HasStem e ∧ l' = l := by
  rw [editOf_tuned_chart ho hh hv] at hf he
  obtain ⟨raws, hraws, he⟩ := bind_eq_ok.1 he
  rw [hraws, ok_bind] at hf
  obtain ⟨es, hes, he⟩ := bind_eq_ok.1 he
  obtain ⟨fs, hfs, hf⟩ := bind_eq_ok.1 hf
  have hlen : fs.length = es.length := (length_of_mapM hfs).trans (length_of_mapM hes).symm
  cases he
  cases hf
  exact ⟨agreeOff_chartsEdit _ _ hlen, by rw [hlen]⟩

theorem agreeOff_tuned_email {o : SearchOption} {v : OptionValue} {n l l' : Numbering} {e f : Edit}
    (hs : q.backend.emailStyle = .indexedRoles) (hh : o.handling = .email)
    (hv : q.given? o = some v) (hf : (q.tuned .emailType u).editOf o n = .ok (f, l'))
    (he : (q.tuned .emailType t).editOf o n = .ok (e, l)) :
    f.AgreeOff HasEmailStem e ∧ l' = l := by
  rw [editOf_tuned_email hs hh hv] at hf he
  obtain ⟨address, haddress, he⟩ := map_eq_ok.1 he
  rw [haddress] at hf
  obtain ⟨rfl, rfl⟩ := Prod.mk.inj he
  obtain ⟨rfl, rfl⟩ := Prod.mk.inj (Except.ok.inj hf)
  exact ⟨agreeOff_indexedRole _ _ _ _ _, rfl⟩

/-! ## Runs side by side -/

/-- Where tuned options agree off some keys, so do the payloads. -/
theorem get?_tuned_of_agreeOff {m : SearchOption} {kind : Modifier} {K : String → Prop}
    {p p' : Payload} (hm : m.handling = .modifier kind) (ht : ∀ s ∈ t, kind.Accepts s)
    (hu : ∀ s ∈ u, kind.Accepts s)
    (htuned : ∀ o ∈ q.backend.order, q.backend.modifier? o = some m → ∀ v, q.given? o = some v →
      ∀ {n l l' : Numbering} {e f : Edit}, (q.tuned m u).editOf o n = .ok (f, l') →
        (q.tuned m t).editOf o n = .ok (e, l) → f.AgreeOff K e ∧ l' = l)
    (h : (q.tuned m t).compile.result = .ok p) (h' : (q.tuned m u).compile.result = .ok p')
    {k : String} (hk : ¬ K k) : p'.get? k = p.get? k := by
  obtain ⟨-, e, l, he, rfl⟩ := exists_editAll_of_compile h
  obtain ⟨-, f, l', hf, rfl⟩ := exists_editAll_of_compile h'
  rw [backend_tuned] at he hf
  have hagree : f.AgreeOff K e ∧ l' = l := by
    refine editAll_agreeOff (N := Eq) ?_ rfl hf he
    rintro o ho n n' _ l f e rfl hf he
    by_cases hom : o = m
    · subst hom
      refine agreeOff_of_editOf_eq ?_ hf he
      rw [editOf_tuned_self hm hu, editOf_tuned_self hm ht]
    · cases hv : q.given? o with
      | none =>
        refine agreeOff_of_editOf_eq ?_ hf he
        rw [editOf_of_not_given ((q.given?_tuned hom u).trans hv),
          editOf_of_not_given ((q.given?_tuned hom t).trans hv)]
      | some v =>
        by_cases hmod : q.backend.modifier? o = some m
        · exact htuned o ho hmod v hv hf he
        · refine agreeOff_of_editOf_eq ?_ hf he
          rw [editOf_tuned hom hmod, editOf_tuned hom hmod]
  have hinitial : (q.tuned m u).initial .empty = (q.tuned m t).initial .empty := by
    rw [initial, initial, backend_tuned, backend_tuned]
  rw [hinitial]
  exact hagree.1.get?_apply (fun _ _ => rfl) k hk

end

/-! ## Charts -/

/-- The keys of operators in charts whose entries are values. -/
def OperatorKey (q : Query) (k : String) : Prop :=
  ∃ (pos : Position) (o : SearchOption) (raw : String),
    q.chartEntries[pos.chart]? = some (o, raw) ∧ o ≠ .booleanQuery ∧ pos.key "type" = k

/-- What the types of a chart tell, for values and for terms. -/
theorem get?_type {q : Query} {p : Payload} (hb : q.backend = .extendedRolesV4)
    (h : q.compile.result = .ok p) {pos : Position} {o : SearchOption} {raw : String}
    (hentry : q.chartEntries[pos.chart]? = some (o, raw)) :
    (o ≠ .booleanQuery → p.get? (pos.key "type") =
      (p.get? (pos.key "value")).map fun _ => .text q.shortcutOperator) ∧
    (o = .booleanQuery → ∃ e, Expr.parse raw = .ok e ∧
      p.get? (pos.key "type") = (e.term? pos.row pos.column).map fun t => .text t.operator) := by
  obtain ⟨es, hes, hslots, -⟩ := exists_chartExprs hb h
  obtain ⟨e, he, hread⟩ := getElem?_of_mapM hes hentry
  have hheld : ∀ s : Chart.Slot, s.chart = pos.chart →
      p.get? s.key = s.held? q.backend.fields e := by
    intro s hs
    rw [hslots, hs, he]
    rfl
  have htype : p.get? (pos.key "type") =
      (e.term? pos.row pos.column).map fun t => .text t.operator := hheld (.type pos) rfl
  have hvalue : p.get? (pos.key "value") =
      (e.term? pos.row pos.column).map fun t => .text t.value := hheld (.value pos) rfl
  constructor
  · intro ho
    rw [readEntry, if_neg ho] at hread
    rw [htype, hvalue, Option.map_map]
    refine Option.map_congr fun t ht => ?_
    have hmem := Expr.mem_flatten_of_mem_positionedTerms
      (Expr.mem_positionedTerms_iff_term?.2 ht)
    rw [(Expr.term_of_parseValues hread hmem).2]
    rfl
  · intro ho
    rw [readEntry, if_pos ho] at hread
    exact ⟨e, hread, htype⟩

section

variable {q : Query} {t u : Option String}

theorem chartEntries_tuned (q : Query) (t : Option String) :
    (q.tuned .booleanType t).chartEntries = q.chartEntries := by
  have hall : ∀ o ∈ chartOptions, o ≠ .booleanType := by decide
  refine List.flatMap_congr fun o ho => ?_
  rw [entriesGiven, entriesGiven, q.given?_tuned (hall o ho)]

theorem shortcutOperator_tuned (q : Query) (t : Option String) :
    (q.tuned .booleanType t).shortcutOperator = t.getD defaultMatch :=
  shortcutOperator_of_modifierText (q.modifierText_tuned .booleanType t)

/-- The slots of a chart, but the types of values, do not depend on the operator. -/
theorem held?_readEntry_tuned {x : SearchOption × String} {e f : Expr}
    (ht : t.getD defaultMatch ∈ Expr.operators) (hu : u.getD defaultMatch ∈ Expr.operators)
    (he : (q.tuned .booleanType t).readEntry x = .ok e)
    (hf : (q.tuned .booleanType u).readEntry x = .ok f) {s : Chart.Slot}
    (hs : x.1 ≠ .booleanQuery → ∀ p, s ≠ .type p) (fields : FieldTable) :
    s.held? fields f = s.held? fields e := by
  rw [readEntry, shortcutOperator_tuned] at he hf
  by_cases hx : x.1 = .booleanQuery
  · rw [if_pos hx] at he hf
    rw [hf] at he
    cases he
    rfl
  · rw [if_neg hx] at he hf
    rw [Expr.parseValues_withOperator ht hu, he] at hf
    cases hf
    exact Chart.Slot.held?_withOperator fields _ e (hs hx)

theorem getD_mem_operators (ht : ∀ s ∈ t, s ∈ Expr.operators) :
    t.getD defaultMatch ∈ Expr.operators := by
  cases t with
  | none => decide
  | some s => exact ht s rfl

/-- Off the keys of operators, the payloads agree. -/
theorem get?_tuned_of_not_operatorKey {p p' : Payload} (hb : q.backend = .extendedRolesV4)
    (ht : ∀ s ∈ t, s ∈ Expr.operators) (hu : ∀ s ∈ u, s ∈ Expr.operators)
    (h : (q.tuned .booleanType t).compile.result = .ok p)
    (h' : (q.tuned .booleanType u).compile.result = .ok p') {k : String}
    (hk : ¬ q.OperatorKey k) : p'.get? k = p.get? k := by
  by_cases hstem : Chart.HasStem k
  · obtain ⟨es, hes, hslots, hkeys⟩ := exists_chartExprs (by rwa [backend_tuned]) h
    obtain ⟨fs, hfs, hslots', hkeys'⟩ := exists_chartExprs (by rwa [backend_tuned]) h'
    rw [chartEntries_tuned] at hes hfs
    by_cases hslot : ∃ s : Chart.Slot, s.key = k
    · obtain ⟨s, rfl⟩ := hslot
      rw [hslots, hslots', backend_tuned, backend_tuned]
      cases hx : q.chartEntries[s.chart]? with
      | none =>
        -- beyond the last chart
        have hlen := List.getElem?_eq_none_iff.1 hx
        rw [List.getElem?_eq_none (by rwa [length_of_mapM hfs]),
          List.getElem?_eq_none (by rwa [length_of_mapM hes])]
      | some x =>
        obtain ⟨e, he, hread⟩ := getElem?_of_mapM hes hx
        obtain ⟨f, hf, hread'⟩ := getElem?_of_mapM hfs hx
        rw [he, hf, Option.bind_some, Option.bind_some]
        refine held?_readEntry_tuned (getD_mem_operators ht) (getD_mem_operators hu) hread hread'
          (fun ho pos hs => hk ?_) _
        subst hs
        exact ⟨pos, x.1, x.2, hx, ho, rfl⟩
    · -- the key only looks like one of a chart
      rw [Option.eq_none_iff_forall_ne_some.2 fun x hx => hslot (hkeys k x hstem hx),
        Option.eq_none_iff_forall_ne_some.2 fun x hx => hslot (hkeys' k x hstem hx)]
  · refine get?_tuned_of_agreeOff rfl (fun s hs _ => ht s hs) (fun s hs _ => hu s hs) ?_ h h' hstem
    intro o ho hmod v hv n l l' e f hf he
    rcases Backend.modifier?_eq_some.1 hmod with ⟨-, -, hne⟩ | ⟨⟨form, hh⟩, -⟩
    · cases hne
    · exact agreeOff_tuned_chart ho hh hv hf he

/-! ## Addresses -/

/-- The keys of match types. -/
def MatchTypeKey (q : Query) (k : String) : Prop :=
  ∃ i < q.suppliedRoles.length, "emailtype" ++ toString (i + 1) = k

theorem given?_role_tuned (q : Query) {o : SearchOption} (ho : o ∈ roleOptions)
    (t : Option String) : (q.tuned .emailType t).given? o = q.given? o := by
  have hall : ∀ o ∈ roleOptions, o ≠ .emailType := by decide
  exact q.given?_tuned (hall o ho) t

theorem addresses_tuned (q : Query) (t : Option String) :
    (q.tuned .emailType t).addresses = q.addresses :=
  List.filterMap_congr fun o ho => by
    rw [addressGiven?, addressGiven?, q.given?_role_tuned ho]

theorem suppliedRoles_tuned (q : Query) (t : Option String) :
    (q.tuned .emailType t).suppliedRoles = q.suppliedRoles :=
  List.filter_congr fun o ho => by rw [q.given?_role_tuned ho]

theorem matchType_tuned (q : Query) (t : Option String) :
    (q.tuned .emailType t).matchType = t.getD defaultMatch :=
  getD_text_of_modifierText (q.modifierText_tuned .emailType t)

/-- What an address holds under other keys is there with another match type. -/
theorem get?_email_tuned {p p' : Payload} (hb : q.backend = .extendedRolesV4)
    (h : (q.tuned .emailType t).compile.result = .ok p)
    (h' : (q.tuned .emailType u).compile.result = .ok p') {k : String} (hstem : HasEmailStem k)
    (hk : ¬ q.MatchTypeKey k) {v : PayloadValue} (hv : p.get? k = some v) :
    p'.get? k = some v := by
  obtain ⟨i, role, address, part, hi, hkey, rfl⟩ :=
    (get?_email_iff (by rwa [backend_tuned]) h hstem).1 hv
  refine (get?_email_iff (by rwa [backend_tuned]) h' hstem).2
    ⟨i, role, address, part, by rwa [addresses_tuned, ← q.addresses_tuned t], hkey, ?_⟩
  cases part with
  | address => rfl
  | role => rfl
  | matchType =>
    obtain ⟨o, ho, -⟩ := getElem?_suppliedRoles (by rwa [backend_tuned]) h hi
    rw [suppliedRoles_tuned] at ho
    refine absurd ⟨i, (List.getElem?_eq_some_iff.1 ho).1, ?_⟩ hk
    rw [hkey, Nat.add_comm]
    rfl

/-- Off the keys of match types, the payloads agree. -/
theorem get?_tuned_of_not_matchTypeKey {p p' : Payload} (hb : q.backend = .extendedRolesV4)
    (h : (q.tuned .emailType t).compile.result = .ok p)
    (h' : (q.tuned .emailType u).compile.result = .ok p') {k : String}
    (hk : ¬ q.MatchTypeKey k) : p'.get? k = p.get? k := by
  by_cases hstem : HasEmailStem k
  · exact Option.ext fun v =>
      ⟨get?_email_tuned hb h' h hstem hk, get?_email_tuned hb h h' hstem hk⟩
  · have haccepts : ∀ s, Modifier.matchType.Accepts s := fun s hs => by cases hs
    refine get?_tuned_of_agreeOff rfl (fun s _ => haccepts s) (fun s _ => haccepts s) ?_ h h' hstem
    intro o ho hmod v hv n l l' e f hf he
    rcases Backend.modifier?_eq_some.1 hmod with ⟨hh, hs, -⟩ | ⟨-, hne⟩
    · exact agreeOff_tuned_email hs hh hv hf he
    · cases hne

theorem get?_matchTypeKey {p : Payload} (hb : q.backend = .extendedRolesV4)
    (h : (q.tuned .emailType t).compile.result = .ok p) {i : Nat}
    (hi : i < q.suppliedRoles.length) :
    p.get? ("emailtype" ++ toString (i + 1)) = some (.text (t.getD defaultMatch)) := by
  have hrole : (q.tuned .emailType t).suppliedRoles[i]? = some q.suppliedRoles[i] := by
    rw [suppliedRoles_tuned, List.getElem?_eq_getElem hi]
  obtain ⟨address, -, hparts⟩ := get?_part (by rwa [backend_tuned]) h hrole
  have hvalue := hparts .matchType
  rw [matchType_tuned] at hvalue
  exact hvalue

end

/-! ## A whole query -/

/-- No modifier is a key of its own. -/
theorem get?_modifier_eq_none {q : Query} {p : Payload} (h : q.compile.result = .ok p) {k : String}
    (hk : k ∈ ["booleantype", "emailtype"]) : p.get? k = none := by
  refine Option.eq_none_iff_forall_ne_some.2 fun v hv => ?_
  have hkeys : ∀ k ∈ ["booleantype", "emailtype"], k ≠ includeFieldsKey ∧ k ≠ advancedMark.1 ∧
      ¬ Chart.HasStem k ∧ (HasEmailStem k → k = "emailtype") := by decide
  obtain ⟨hreturned, hmark, hstem, hemail⟩ := hkeys k hk
  cases family_of_compile h hv with
  | returned he => exact hreturned he
  | mark _ he => exact hmark he
  | chart _ hs => exact hstem hs
  | @owned o ho _ hfixed =>
    have hall : ∀ o ∈ q.backend.order, ∀ k ∈ ["booleantype", "emailtype"],
        k ∉ q.backend.fixedKeys o := by
      cases q.backend <;> decide +kernel
    exact hall o ho k hk hfixed
  | address hb hs =>
    rw [hemail hs, get?_roleName_eq_none hb h List.mem_cons_self] at hv
    cases hv

/-- Modifiers touch only what they modify. Queries that differ in the operator of value charts,
which is absent or known, compile or fail alike; their payloads agree on all keys but the types of
these charts, which hold that operator, and charts of terms hold the operators that are written.
Queries that differ in the match type compile or fail alike, and their payloads agree on all keys
but one for each role that is given, which holds that match type. No modifier is a key. -/
theorem compile_tuned (q : Query) :
    (q.backend = .extendedRolesV4 → ∀ t u : Option String, (∀ s ∈ t, s ∈ Expr.operators) →
      (∀ s ∈ u, s ∈ Expr.operators) →
      (q.tuned .booleanType u).compile.result.map (fun _ => ()) =
        (q.tuned .booleanType t).compile.result.map (fun _ => ()) ∧
      ∀ p p', (q.tuned .booleanType t).compile.result = .ok p →
        (q.tuned .booleanType u).compile.result = .ok p' →
        (∀ k, ¬ q.OperatorKey k → p'.get? k = p.get? k) ∧
        ∀ (pos : Position) (o : SearchOption) (raw : String),
          q.chartEntries[pos.chart]? = some (o, raw) →
          (o ≠ .booleanQuery → p.get? (pos.key "type") =
            (p.get? (pos.key "value")).map fun _ => .text (t.getD "substring")) ∧
          (o = .booleanQuery → ∃ e, Expr.parse raw = .ok e ∧ p.get? (pos.key "type") =
            (e.term? pos.row pos.column).map fun term => .text term.operator)) ∧
    (q.backend = .extendedRolesV4 → ∀ t u : Option String,
      (q.tuned .emailType u).compile.result.map (fun _ => ()) =
        (q.tuned .emailType t).compile.result.map (fun _ => ()) ∧
      ∀ p p', (q.tuned .emailType t).compile.result = .ok p →
        (q.tuned .emailType u).compile.result = .ok p' →
        (∀ k, ¬ q.MatchTypeKey k → p'.get? k = p.get? k) ∧
        ∀ i < q.suppliedRoles.length,
          p.get? ("emailtype" ++ toString (i + 1)) = some (.text (t.getD "substring"))) ∧
    ∀ p, q.compile.result = .ok p → p.get? "booleantype" = none ∧ p.get? "emailtype" = none := by
  refine ⟨fun hb t u ht hu => ⟨?_, fun p p' h h' => ⟨?_, ?_⟩⟩, fun hb t u => ⟨?_, fun p p' h h' =>
    ⟨?_, ?_⟩⟩, fun p h => ⟨?_, ?_⟩⟩
  · have hx : SearchOption.booleanType ∈ q.backend.order := by rw [hb]; decide
    exact result_compile_tuned hx rfl (fun s hs _ => ht s hs) fun s hs _ => hu s hs
  · exact fun k hk => get?_tuned_of_not_operatorKey hb ht hu h h' hk
  · intro pos o raw hentry
    rw [← q.chartEntries_tuned t] at hentry
    have htype := get?_type (by rwa [backend_tuned]) h hentry
    rwa [shortcutOperator_tuned] at htype
  · have hx : SearchOption.emailType ∈ q.backend.order := by rw [hb]; decide
    exact result_compile_tuned hx rfl (fun s _ hs => by cases hs) fun s _ hs => by cases hs
  · exact fun k hk => get?_tuned_of_not_matchTypeKey hb h h' hk
  · exact fun i hi => get?_matchTypeKey hb h hi
  · exact get?_modifier_eq_none h (by decide)
  · exact get?_modifier_eq_none h (by decide)

/-- Two values of a flag, a term of its own, and an address. -/
def tunable : Query where
  backend := .extendedRolesV4
  options := SortedMap.ofList [("boolean_query", .text "a-equals-1"),
    ("cc", .text "a@example.com"), ("flag", .text "x | y")]
  files := .none

theorem compile_tuned_tunable :
    (tunable.tuned .booleanType (some "regexp")).compile.result =
      .ok ((tunable.tuned .booleanType (some "regexp")).compileOnto .empty).payload ∧
    (tunable.tuned .booleanType none).compile.result =
      .ok ((tunable.tuned .booleanType none).compileOnto .empty).payload ∧
    ((tunable.tuned .booleanType none).compileOnto .empty).payload.get? "value0-0-1" =
      ((tunable.tuned .booleanType (some "regexp")).compileOnto .empty).payload.get? "value0-0-1" ∧
    ((tunable.tuned .booleanType (some "regexp")).compileOnto .empty).payload.get? "value0-0-1" =
      some (.text "y") ∧
    ((tunable.tuned .booleanType (some "regexp")).compileOnto .empty).payload.get? "type0-0-1" =
      some (.text "regexp") ∧
    ((tunable.tuned .emailType (some "exact")).compileOnto .empty).payload.get? "emailtype1" =
      some (.text "exact") ∧
    (tunable.compileOnto .empty).payload.get? "emailtype" = none := by
  have hregexp : (tunable.tuned .booleanType (some "regexp")).compile.result =
      .ok ((tunable.tuned .booleanType (some "regexp")).compileOnto .empty).payload := by rfl
  have hdefault : (tunable.tuned .booleanType none).compile.result =
      .ok ((tunable.tuned .booleanType none).compileOnto .empty).payload := by rfl
  have hexact : (tunable.tuned .emailType (some "exact")).compile.result =
      .ok ((tunable.tuned .emailType (some "exact")).compileOnto .empty).payload := by rfl
  have hplain : (tunable.tuned .emailType none).compile.result =
      .ok ((tunable.tuned .emailType none).compileOnto .empty).payload := by rfl
  have hvalue : ((tunable.tuned .booleanType (some "regexp")).compileOnto .empty).payload.get?
      "value0-0-1" = some (.text "y") := by decide +kernel
  have hself : tunable.compile.result = .ok (tunable.compileOnto .empty).payload := by rfl
  have hroles : 0 < tunable.suppliedRoles.length := by decide +kernel
  obtain ⟨hoperator, hmatch, hkeys⟩ := compile_tuned tunable
  obtain ⟨-, hcharts⟩ := hoperator rfl (some "regexp") none (by decide) (by decide)
  obtain ⟨hsame, htypes⟩ := hcharts _ _ hregexp hdefault
  obtain ⟨-, haddresses⟩ := hmatch rfl (some "exact") none
  obtain ⟨-, hmatches⟩ := haddresses _ _ hexact hplain
  have htype := (htypes ⟨0, 0, 1⟩ .flag "x | y" (by rfl)).1 (by decide)
  refine ⟨hregexp, hdefault, hsame _ ?_, hvalue, ?_, hmatches 0 hroles, (hkeys _ hself).2⟩
  · rintro ⟨pos, -, -, -, -, hkey⟩
    have hslot := @Chart.Slot.key_injective (.type pos) (.value ⟨0, 0, 1⟩) hkey
    cases hslot
  · refine htype.trans ?_
    rw [show (Position.mk 0 0 1).key "value" = "value0-0-1" from rfl, hvalue]
    rfl

end Query

end BugQuery
