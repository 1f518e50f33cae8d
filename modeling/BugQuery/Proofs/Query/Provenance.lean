import BugQuery.Proofs.Query.Addresses
import BugQuery.Proofs.Query.TwoRuns

/-!
# Where the keys of a payload come from

An option that is copied, expanded or chooses the output has keys of its own:
another value for it changes these and no other, whatever else is given. And
every key on a payload is due to something: it is a key of an option that is
given, or it belongs to one of its addresses or charts.

* `family_of_editOf`, `family_of_compile`: the families of keys that an option sets, and a query.
* `get?_of_differsIn`: queries that differ in one option agree outside the keys of that option.
* `compile_owned`: this frame, and what each key on a payload is due to.
-/
namespace BugQuery

open FirstFailure

theorem Backend.emailStyle_eq_indexedRoles {b : Backend} :
    b.emailStyle = .indexedRoles ↔ b = .extendedRolesV4 := by
  cases b <;> simp [Backend.emailStyle]

/-- Only one backend takes charts. -/
theorem Backend.eq_of_chart {b : Backend} {o : SearchOption} {form : ChartForm} (ho : o ∈ b.order)
    (h : o.handling = .chart form) : b = .extendedRolesV4 := by
  have hall : ∀ o ∈ plainOrder, ∀ form, o.handling ≠ .chart form := by
    unfold plainOrder
    simp [SearchOption.handling]
  cases b with
  | extendedRolesV4 => rfl
  | genericV3 => exact absurd h (hall o ho form)
  | genericV4 => exact absurd h (hall o ho form)

/-- Every backend takes the options that own their keys. -/
theorem Backend.mem_order_of_ownsKeys {b : Backend} {o : SearchOption}
    (h : o.handling.ownsKeys = true) : o ∈ b.order := by
  have hall : ∀ o ∈ SearchOption.all, o.handling.ownsKeys = true → o ∈ b.order := by
    cases b <;> decide
  exact hall o o.mem_all h

namespace Query

/-! ## Families of keys -/

/-- What a key on a payload can belong to, numbers aside. -/
inductive Family (q : Query) (k : String) : Prop where
  | returned (h : k = includeFieldsKey)
  | owned {o : SearchOption} (ho : o ∈ q.backend.order) (hgiven : (q.given? o).isSome = true)
      (hk : k ∈ q.backend.fixedKeys o)
  | mark (hb : q.backend = .extendedRolesV4) (h : k = advancedMark.1)
  | address (hb : q.backend = .extendedRolesV4) (h : HasEmailStem k)
  | chart (hb : q.backend = .extendedRolesV4) (h : Chart.HasStem k)

theorem family_of_editOf {q : Query} {o : SearchOption} {n m : Numbering} {e : Edit}
    (ho : o ∈ q.backend.order) (h : q.editOf o n = .ok (e, m)) {k : String} {x : PayloadValue}
    (hx : e.entries.get? k = some x) : q.Family k := by
  cases made_of_editOf ho h with
  | absent hv => cases hx
  | fixed hv hm hkeys _ => exact .owned ho (by rw [hv]; rfl) (hkeys k x hx)
  | address hv hh hs hw hm =>
    have hb := Backend.emailStyle_eq_indexedRoles.1 hs
    rcases mem_keys_indexedRole (Edit.mem_of_get?_setAll hx) with hk | hk
    · exact .address hb (hasEmailStem_of_mem_addressKeys hk)
    · exact .mark hb hk
  | charts hv hh hraws hm hes =>
    have hb := Backend.eq_of_chart ho hh
    rw [get?_chartsEdit] at hx
    split at hx
    · rename_i hmark
      exact .mark hb hmark.1
    · obtain ⟨s, -, -, -, -, rfl, -⟩ := Chart.get?_ofList_entriesFrom.1 hx
      exact .chart hb s.hasStem_key

/-- All keys on the payload belong to a family. -/
def InFamilies (q : Query) (s : State) : Prop :=
  ∀ k x, s.payload.get? k = some x → q.Family k

theorem inFamilies_initial (q : Query) : q.InFamilies { payload := q.initial .empty } := by
  intro k x hx
  by_cases hk : includeFieldsKey = k
  · exact .returned hk.symm
  · simp [initial, hk] at hx

theorem inFamilies_step {q : Query} {o : SearchOption} {s : State} {e : Edit} {m : Numbering}
    (ho : o ∈ q.backend.order) (hs : q.InFamilies s) (he : q.editOf o s.numbering = .ok (e, m)) :
    q.InFamilies ⟨e.apply s.payload, m⟩ := by
  intro k x hx
  rw [Edit.get?_apply] at hx
  cases hset : e.entries.get? k with
  | some y => exact family_of_editOf ho he hset
  | none =>
    rw [hset, Option.none_or] at hx
    split at hx
    · cases hx
    · exact hs k x hx

theorem family_of_compile {q : Query} {p : Payload} (h : q.compile.result = .ok p) {k : String}
    {x : PayloadValue} (hx : p.get? k = some x) : q.Family k := by
  obtain ⟨-, e, m, he, rfl⟩ := exists_editAll_of_compile h
  have hrun := @editAll_induction q (fun _ s => q.InFamilies s)
    (fun _ _ _ _ _ ho hs ho' => inFamilies_step ho hs ho') q.backend.order []
    { payload := q.initial .empty } e m (fun _ ho => ho) q.inFamilies_initial he
  exact hrun k x hx

/-! ## What a key is due to -/

/-- What a key on the payload of a query is due to. -/
inductive Provenance (q : Query) (k : String) : Prop where
  | returned (h : k = "include_fields")
  | mark (h : k = "query_format")
  | owned {o : SearchOption} (hgiven : (q.given? o).isSome = true)
      (hk : k ∈ q.backend.fixedKeys o)
  | address {i : Nat} {o : SearchOption} {address : String}
      (hs : q.backend.emailStyle = .indexedRoles) (hgiven : q.given? o = some (.text address))
      (h : q.addresses[i]? = some (o.name, address)) (hk : k ∈ addressKeys (i + 1) o.name)
  | chart {s : Chart.Slot} {o : SearchOption} {raw : String}
      (h : q.chartEntries[s.chart]? = some (o, raw)) (hk : s.key = k)

theorem filterMap_addressOf?_order {q : Query} (hb : q.backend = .extendedRolesV4) :
    q.backend.order.filterMap q.addressOf? = q.addresses := by
  rw [hb]
  rfl

theorem flatMap_chartsOf_order {q : Query} (hb : q.backend = .extendedRolesV4) :
    q.backend.order.flatMap q.chartsOf = q.chartEntries := by
  rw [hb]
  rfl

/-- An address comes from a role that is given with that text. -/
theorem given_of_mem_addresses {q : Query} {role address : String}
    (h : (role, address) ∈ q.addresses) :
    ∃ o ∈ roleOptions, o.name = role ∧ q.given? o = some (.text address) := by
  obtain ⟨o, ho, hgiven⟩ := List.mem_filterMap.1 h
  obtain ⟨t, ht, hpair⟩ := Option.map_eq_some_iff.1 hgiven
  obtain ⟨v, hv, htext⟩ := Option.bind_eq_some_iff.1 ht
  cases hpair
  cases v <;> cases htext
  exact ⟨o, ho, rfl, hv⟩

theorem provenance_of_address {q : Query} {p : Payload} (hb : q.backend = .extendedRolesV4)
    (h : q.compile.result = .ok p) {k : String} {x : PayloadValue} (hx : p.get? k = some x)
    (hk : HasEmailStem k) : q.Provenance k := by
  obtain ⟨m, ha⟩ := exists_addressed hb h
  rw [ha.held k hk, filterMap_addressOf?_order hb] at hx
  obtain ⟨i, role, address, hi, hmem⟩ := mem_addressEntries.1 (Edit.mem_of_get?_setAll hx)
  obtain ⟨o, -, rfl, hgiven⟩ := given_of_mem_addresses (List.mem_of_getElem? hi)
  rcases mem_keys_indexedRole hmem with hkey | hmark
  · rw [Nat.add_comm] at hkey
    exact .address (Backend.emailStyle_eq_indexedRoles.2 hb) hgiven hi hkey
  · exact .mark hmark

/-- What the payload of a query holds under the keys of charts. -/
theorem exists_chartExprs {q : Query} {p : Payload} (hb : q.backend = .extendedRolesV4)
    (h : q.compile.result = .ok p) : ∃ es, q.chartEntries.mapM q.readEntry = .ok es ∧
      (∀ s : Chart.Slot, p.get? s.key = es[s.chart]?.bind fun e => s.held? q.backend.fields e) ∧
      ∀ k x, Chart.HasStem k → p.get? k = some x → ∃ s : Chart.Slot, s.key = k := by
  obtain ⟨es, m, hes⟩ := exists_charted hb h
  have hread := hes.read
  rw [flatMap_chartsOf_order hb] at hread
  refine ⟨es, hread, fun s => ?_, fun k x hk hx => ?_⟩
  · rw [hes.held s.key s.hasStem_key, Chart.get?_key_ofList_entriesFrom]
  · rw [hes.held k hk] at hx
    obtain ⟨s, -, -, -, -, hkey, -⟩ := Chart.get?_ofList_entriesFrom.1 hx
    exact ⟨s, hkey⟩

theorem provenance_of_chart {q : Query} {p : Payload} (hb : q.backend = .extendedRolesV4)
    (h : q.compile.result = .ok p) {k : String} {x : PayloadValue} (hx : p.get? k = some x)
    (hk : Chart.HasStem k) : q.Provenance k := by
  obtain ⟨es, hread, hslots, hkeys⟩ := exists_chartExprs hb h
  obtain ⟨s, rfl⟩ := hkeys k x hk hx
  rw [hslots] at hx
  obtain ⟨e, he, -⟩ := Option.bind_eq_some_iff.1 hx
  have hlt : s.chart < q.chartEntries.length := by
    rw [← length_of_mapM hread]
    exact (List.getElem?_eq_some_iff.1 he).1
  exact .chart (List.getElem?_eq_getElem hlt) rfl

theorem provenance_of_compile {q : Query} {p : Payload} (h : q.compile.result = .ok p) {k : String}
    {x : PayloadValue} (hx : p.get? k = some x) : q.Provenance k := by
  cases family_of_compile h hx with
  | returned hk => exact .returned hk
  | owned ho hgiven hk => exact .owned hgiven hk
  | mark hb hk => exact .mark hk
  | address hb hk => exact provenance_of_address hb h hx hk
  | chart hb hk => exact provenance_of_chart hb h hx hk

/-! ## Another value for one option -/

/-- The options of `q` and `os` differ in no option but `x`. -/
def DiffersIn (q : Query) (x : SearchOption) (os : OptionSet) : Prop :=
  ∀ name, name ≠ x.name → os.get? name = q.options.get? name

theorem editOf_of_differsIn {q : Query} {x o : SearchOption} {os : OptionSet}
    (hx : x.handling.ownsKeys = true) (hos : q.DiffersIn x os) (ho : o ≠ x) (n : Numbering) :
    (q.withOptions os).editOf o n = q.editOf o n := by
  have hgiven : ∀ a, a ≠ x → (q.withOptions os).given? a = q.given? a := fun a ha =>
    hos a.name fun hname => ha (SearchOption.name_injective hname)
  refine editOf_withOptions (hgiven o ho) (fun m hm => hgiven m ?_) n
  -- the modifier of `o` has no keys of its own
  rintro rfl
  rcases Backend.modifier?_eq_some.1 hm with ⟨-, -, rfl⟩ | ⟨-, rfl⟩ <;> cases hx

theorem get?_of_differsIn {q : Query} {x : SearchOption} {os : OptionSet} {p p' : Payload}
    (hx : x.handling.ownsKeys = true) (hos : q.DiffersIn x os) (h : q.compile.result = .ok p)
    (h' : (q.withOptions os).compile.result = .ok p') {k : String}
    (hk : k ∉ q.backend.fixedKeys x) : p'.get? k = p.get? k := by
  obtain ⟨-, e, m, he, rfl⟩ := exists_editAll_of_compile h
  obtain ⟨-, f, m', hf, rfl⟩ := exists_editAll_of_compile h'
  have hagree : f.AgreeOff (· ∈ q.backend.fixedKeys x) e ∧ m' = m := by
    refine editAll_agreeOff (N := Eq) ?_ rfl hf he
    rintro o ho n n' _ l f e rfl hf he
    by_cases hox : o = x
    · subst hox
      obtain ⟨hthere, rfl⟩ := touches_of_ownsKeys ho hx hf
      obtain ⟨hhere, rfl⟩ := touches_of_ownsKeys (q := q) ho hx he
      exact ⟨hthere.agreeOff hhere, rfl⟩
    · exact agreeOff_of_editOf_eq (editOf_of_differsIn hx hos hox n) hf he
  exact hagree.1.get?_apply (fun _ _ => rfl) k hk

/-- An option that is copied, expanded or chooses the output owns its keys: with another value for
it, or none, a query compiles to the same under all other keys. Charts, numbered addresses and the
mark are among these. And each key on the payload of a query is due to something: the returned
fields, the mark, an option that is given, one of its addresses, or one of its charts. -/
theorem compile_owned {q : Query} {p : Payload} (h : q.compile.result = .ok p) :
    (∀ (x : SearchOption) (os : OptionSet) (p' : Payload), x.handling.ownsKeys = true →
      q.DiffersIn x os → (q.withOptions os).compile.result = .ok p' →
      (∀ k, k ∉ q.backend.fixedKeys x → p'.get? k = p.get? k) ∧
      (∀ s : Chart.Slot, p'.get? s.key = p.get? s.key) ∧
      (∀ n role, ∀ k ∈ addressKeys n role, p'.get? k = p.get? k) ∧
      p'.get? "query_format" = p.get? "query_format") ∧
    ∀ k v, p.get? k = some v → q.Provenance k := by
  refine ⟨?_, fun k v hv => provenance_of_compile h hv⟩
  intro x os p' hx hos h'
  have hsame : ∀ k, k ∉ q.backend.fixedKeys x → p'.get? k = p.get? k := fun k hk =>
    get?_of_differsIn hx hos h h' hk
  have ho : x ∈ q.backend.order := Backend.mem_order_of_ownsKeys hx
  refine ⟨hsame, ?_, ?_, ?_⟩
  · intro s
    exact hsame _ fun hk => Backend.not_hasStem_fixedKeys ho hk s.hasStem_key
  · intro n role k hk
    exact hsame k fun hmem =>
      Backend.not_hasEmailStem_fixedKeys ho hmem (hasEmailStem_of_mem_addressKeys hk)
  · exact hsame _ (Backend.mark_not_mem_fixedKeys ho)

/-- An address, a chart, and a text that may be in the comments. -/
def described : Query where
  backend := .extendedRolesV4
  options := SortedMap.ofList [("cc", .text "a@example.com"), ("flag", .text "x"),
    ("long_desc", .text "crash")]
  files := .none

/-- The same without the text. -/
def undescribed : Query := described.withOptions (described.options.erase "long_desc")

theorem compile_owned_described :
    described.compile.result = .ok (described.compileOnto .empty).payload ∧
    undescribed.compile.result = .ok (undescribed.compileOnto .empty).payload ∧
    (∀ k, k ∉ ["longdesc", "longdesc_type"] →
      (undescribed.compileOnto .empty).payload.get? k =
        (described.compileOnto .empty).payload.get? k) ∧
    (described.compileOnto .empty).payload.get? "longdesc" = some (.text "crash") ∧
    described.Provenance "longdesc" := by
  have h : described.compile.result = .ok (described.compileOnto .empty).payload := by rfl
  have h' : undescribed.compile.result = .ok (undescribed.compileOnto .empty).payload := by rfl
  have hvalue : (described.compileOnto .empty).payload.get? "longdesc" = some (.text "crash") := by
    rfl
  obtain ⟨howned, hdue⟩ := compile_owned h
  have hos : described.DiffersIn .longDesc (described.options.erase "long_desc") := by
    intro name hname
    exact (SortedMap.get?_erase _ _ name).trans (if_neg (Ne.symm hname))
  exact ⟨h, h', (howned .longDesc _ _ rfl hos h').1, hvalue, hdue _ _ hvalue⟩

end Query

end BugQuery
