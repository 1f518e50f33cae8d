import BugQuery.Proofs.Query.Provenance
import Mathlib.Data.List.Sort

/-!
# Queries that make the same edits

Two queries whose options have the same edits are compiled alike: they end in
the same way, and they leave the same payload, also where they fail. Options
have to agree only as far as they are reached, so a modifier may be taken to
be sound where the option that it tunes is judged.

* `editOf_of_list`, `editOf_of_commaList`, `editOf_of_file`: the edits of the options that list texts.
* `unsupported?_congr`: options with the same unknown names fail on the same name.
* `runFrom_congr`: runs that make the same edits leave the same payload and end alike.
* `runFrom_append_congr`: after the same edits, runs that go on alike leave the same payload and
  end alike.
* `SameEdits.alike`: queries that make the same edits are compiled alike.
* `sameEdits_of_differsIn`: where one option differs, only it and those that it tunes have to be
  looked at; `sameEdits_giving` and `sameEdits_without` are the two ways in which one differs.
-/
namespace BugQuery

open FirstFailure

namespace SortedMap

variable {α : Type}

/-- The least key that passes a test is the same for two maps with the same keys that pass. -/
theorem find?_keys_congr {m n : SortedMap α} {p : String → Bool}
    (h : ∀ k, p k = true → (k ∈ m.keys ↔ k ∈ n.keys)) : m.keys.find? p = n.keys.find? p := by
  have : Std.Irrefl fun a b : String => a < b := ⟨String.lt_irrefl⟩
  have : Std.Antisymm fun a b : String => a < b :=
    ⟨fun _ _ hab hba => absurd hba (String.lt_asymm hab)⟩
  have hfilter : m.keys.filter p = n.keys.filter p := by
    refine (m.sorted.filter p).eq_of_mem_iff (n.sorted.filter p) fun k => ?_
    rw [List.mem_filter, List.mem_filter]
    exact and_congr_left fun hk => h k hk
  rw [← List.head?_filter, ← List.head?_filter, hfilter]

end SortedMap

/-- Nothing but a modifier is read by the edit of another option. -/
theorem Backend.modifier?_ne {b : Backend} {x : SearchOption}
    (hx : ∀ kind, x.handling ≠ .modifier kind) (o : SearchOption) : b.modifier? o ≠ some x := by
  intro h
  rcases modifier?_eq_some.1 h with ⟨-, -, rfl⟩ | ⟨-, rfl⟩
  · exact hx .matchType rfl
  · exact hx .operator rfl

namespace Query

/-! ## Other values for one option -/

/-- The query with the value `v` for the option `o`, in place of any other. -/
def giving (q : Query) (o : SearchOption) (v : OptionValue) : Query :=
  q.withOptions (q.options.insert o.name v)

/-- The query without the option `o`. -/
def without (q : Query) (o : SearchOption) : Query := q.withOptions (q.options.erase o.name)

@[simp] theorem backend_giving (q : Query) (o : SearchOption) (v : OptionValue) :
    (q.giving o v).backend = q.backend := rfl

@[simp] theorem backend_without (q : Query) (o : SearchOption) :
    (q.without o).backend = q.backend := rfl

theorem given?_of_differsIn {q : Query} {x o : SearchOption} {os : OptionSet}
    (h : q.DiffersIn x os) (ho : o ≠ x) : (q.withOptions os).given? o = q.given? o :=
  h o.name fun hname => ho (SearchOption.name_injective hname)

theorem differsIn_insert (q : Query) (x : SearchOption) (v : OptionValue) :
    q.DiffersIn x (q.options.insert x.name v) := fun name hname => by
  rw [SortedMap.get?_insert, if_neg (Ne.symm hname)]

theorem differsIn_erase (q : Query) (x : SearchOption) :
    q.DiffersIn x (q.options.erase x.name) := fun name hname => by
  rw [SortedMap.get?_erase, if_neg (Ne.symm hname)]

theorem given?_giving_self (q : Query) (o : SearchOption) (v : OptionValue) :
    (q.giving o v).given? o = some v := by
  rw [given?, giving, withOptions, SortedMap.get?_insert, if_pos rfl]

theorem given?_giving_of_ne (q : Query) {o a : SearchOption} (h : a ≠ o) (v : OptionValue) :
    (q.giving o v).given? a = q.given? a :=
  given?_of_differsIn (q.differsIn_insert o v) h

theorem given?_without_self (q : Query) (o : SearchOption) : (q.without o).given? o = none := by
  rw [given?, without, withOptions, SortedMap.get?_erase, if_pos rfl]

theorem given?_without_of_ne (q : Query) {o a : SearchOption} (h : a ≠ o) :
    (q.without o).given? a = q.given? a :=
  given?_of_differsIn (q.differsIn_erase o) h

theorem editOf_giving_self (q : Query) (o : SearchOption) (v : OptionValue) (n : Numbering) :
    (q.giving o v).editOf o n = ((q.giving o v).edit o v n).result :=
  editOf_of_given (q.given?_giving_self o v) n

/-- Which value is given for an option does not matter where its edit is asked for another. -/
theorem edit_giving (q : Query) {o : SearchOption} (ho : ∀ kind, o.handling ≠ .modifier kind)
    (v w u : OptionValue) (n : Numbering) : (q.giving o w).edit o u n = (q.giving o v).edit o u n := by
  refine @edit_withOptions (q.giving o v) (q.options.insert o.name w) o (fun m hm => ?_) u n
  have hne : m ≠ o := by
    rintro rfl
    exact Backend.modifier?_ne ho m hm
  exact (q.given?_giving_of_ne hne w).trans (q.given?_giving_of_ne hne v).symm

theorem editOf_of_direct {q : Query} {o : SearchOption} {shape : Shape} {v : OptionValue}
    (hh : o.handling = .direct shape) (hv : q.given? o = some v) (n : Numbering) :
    q.editOf o n = (q.copyEdit o shape v).map (·, n) := by
  rw [editOf_of_given hv]
  simp only [edit, hh, Traced.result_ofExcept]

section

variable {q : Query} {o : SearchOption} {v : OptionValue} {items : List String} {wire : String}

theorem editOf_of_list (hh : o.handling = .direct .list) (hw : q.backend.wireName o.name = .ok wire)
    (hv : q.given? o = some v) (hitems : v.toList? = some items) (n : Numbering) :
    q.editOf o n = .ok (.setList wire items, n) := by
  rw [editOf_of_direct hh hv, copyEdit, hw, ok_bind]
  simp only [textsOf_eq_ok.2 hitems, ok_bind]
  rfl

theorem editOf_of_commaList (hh : o.handling = .direct .commaList)
    (hw : q.backend.wireName o.name = .ok wire) (hv : q.given? o = some v)
    (hitems : v.toList? = some items) (n : Numbering) :
    q.editOf o n = .ok (.setList wire (items.flatMap (entriesOf ',')), n) := by
  rw [editOf_of_direct hh hv, copyEdit, hw, ok_bind]
  simp only [textsOf_eq_ok.2 hitems, ok_bind]
  rfl

theorem editOf_of_file {path content : String} (hh : o.handling = .direct .file)
    (hw : q.backend.wireName o.name = .ok wire) (hv : q.given? o = some (.text path))
    (hread : q.files.read path = .ok content) (n : Numbering) :
    q.editOf o n = .ok (.setList wire (entriesOf '\n' content), n) := by
  rw [editOf_of_direct hh hv, copyEdit, hw, ok_bind]
  simp only [textOf_eq_ok.2 rfl, ok_bind, hread]
  rfl

end

theorem editOf_of_chart {q : Query} {o : SearchOption} {form : ChartForm} {v : OptionValue}
    (ho : o ∈ q.backend.order) (hh : o.handling = .chart form) (hv : q.given? o = some v)
    (n : Numbering) : q.editOf o n = do
      let operator ← q.modifierText .booleanType
      let raws ← textsOf o v
      let es ← raws.mapM (chartExpr o form operator)
      return (chartsEdit q.backend.fields n.chart es, { n with chart := n.chart + es.length }) := by
  rw [editOf_of_given hv]
  simp only [edit, hh]
  exact result_chartEdit (Backend.isSome_of_chart ho hh) v n

/-! ## Names -/

/-- Options with the same unknown names fail on the same name. -/
theorem unsupported?_congr {q r : Query} (hb : r.backend = q.backend)
    (h : ∀ name, q.backend.supportsName name = false →
      (name ∈ r.options.keys ↔ name ∈ q.options.keys)) : r.unsupported? = q.unsupported? := by
  rw [unsupported?, unsupported?, hb]
  exact SortedMap.find?_keys_congr fun name hname => h name (by simpa using hname)

/-- The name of an option that the backend takes, or that is given on both sides, does not
count. -/
theorem mem_keys_of_differsIn {q : Query} {x : SearchOption} {os : OptionSet}
    (h : q.DiffersIn x os)
    (hx : x ∈ q.backend.order ∨ x.name ∈ os.keys ∧ x.name ∈ q.options.keys) (name : String)
    (hname : q.backend.supportsName name = false) : name ∈ os.keys ↔ name ∈ q.options.keys := by
  by_cases hn : name = x.name
  · subst hn
    rcases hx with hx | ⟨hos, hq⟩
    · rw [supportsName_iff.2 ⟨x, hx, rfl⟩] at hname
      cases hname
    · exact ⟨fun _ => hq, fun _ => hos⟩
  · rw [SortedMap.mem_keys, SortedMap.mem_keys, h name hn]

/-! ## Runs -/

/-- Runs that make the same edits, as far as they come, leave the same payload and end alike. -/
theorem runFrom_congr {q r : Query} : ∀ {os : List SearchOption} {s : State},
    (∀ before o after n, os = before ++ o :: after → (∀ a ∈ before, q.verdict a = .ok ()) →
      r.editOf o n = q.editOf o n) → (∀ o ∈ os, o ∈ q.backend.order) →
    (r.runFrom os s).result = (q.runFrom os s).result ∧
      (r.runFrom os s).payload = (q.runFrom os s).payload
  | [], s, _, _ => ⟨rfl, rfl⟩
  | o :: os, s, h, hos => by
    have hq := q.result_step o s
    have hr := r.result_step o s
    rw [h [] o os s.numbering rfl (by simp)] at hr
    cases ho : q.editOf o s.numbering with
    | error x =>
      rw [ho] at hq hr
      rw [runFrom_cons_of_error hq, runFrom_cons_of_error hr]
      exact ⟨rfl, rfl⟩
    | ok e =>
      have hpass : q.verdict o = .ok () := by
        rw [← map_editOf (hos o (by simp)) s.numbering, ho]
        rfl
      rw [ho] at hq hr
      rw [runFrom_cons_of_ok hq, runFrom_cons_of_ok hr]
      refine runFrom_congr (fun before a after n hsplit hbefore => ?_) fun a ha => hos a (by simp [ha])
      refine h (o :: before) a after n (by rw [hsplit]; rfl) ?_
      exact List.forall_mem_cons.2 ⟨hpass, hbefore⟩

/-- After options with the same edits, runs go on alike if they do so from every state. -/
theorem runFrom_append_congr {q r : Query} {bs : List SearchOption}
    (h : ∀ s, (r.runFrom bs s).result = (q.runFrom bs s).result ∧
      (r.runFrom bs s).payload = (q.runFrom bs s).payload) :
    ∀ {as : List SearchOption} {s : State}, (∀ o ∈ as, ∀ n, r.editOf o n = q.editOf o n) →
      (r.runFrom (as ++ bs) s).result = (q.runFrom (as ++ bs) s).result ∧
        (r.runFrom (as ++ bs) s).payload = (q.runFrom (as ++ bs) s).payload
  | [], s, _ => h s
  | o :: as, s, has => by
    have hq := q.result_step o s
    have hr := r.result_step o s
    rw [has o (by simp)] at hr
    rw [List.cons_append]
    cases ho : q.editOf o s.numbering with
    | error x =>
      rw [ho] at hq hr
      rw [runFrom_cons_of_error hq, runFrom_cons_of_error hr]
      exact ⟨rfl, rfl⟩
    | ok e =>
      rw [ho] at hq hr
      rw [runFrom_cons_of_ok hq, runFrom_cons_of_ok hr]
      exact runFrom_append_congr h fun a ha => has a (by simp [ha])

/-! ## Compilations -/

/-- Compiled onto `p`, the two queries end in the same way and leave the same payload. -/
structure Alike (p : Payload) (q r : Query) : Prop where
  result : (r.compileOnto p).result = (q.compileOnto p).result
  payload : (r.compileOnto p).payload = (q.compileOnto p).payload

/-- Queries with the same unknown names are compiled alike if their runs are alike. -/
theorem alike_of_runFrom {q r : Query} (hb : r.backend = q.backend)
    (hnames : ∀ name, q.backend.supportsName name = false →
      (name ∈ r.options.keys ↔ name ∈ q.options.keys))
    (hrun : ∀ s, (r.runFrom q.backend.order s).result = (q.runFrom q.backend.order s).result ∧
      (r.runFrom q.backend.order s).payload = (q.runFrom q.backend.order s).payload)
    (p : Payload) : Alike p q r := by
  have hsame := unsupported?_congr hb hnames
  cases hu : q.unsupported? with
  | some name =>
    rw [hu] at hsame
    constructor
    · rw [compileOnto_of_unsupported hu, compileOnto_of_unsupported hsame, hb]
    · rw [compileOnto_of_unsupported hu, compileOnto_of_unsupported hsame]
  | none =>
    rw [hu] at hsame
    obtain ⟨hresult, hpayload, -⟩ := compileOnto_of_supported (unsupported?_eq_none.1 hu) p
    obtain ⟨hresult', hpayload', -⟩ := compileOnto_of_supported (unsupported?_eq_none.1 hsame) p
    have hinitial : r.initial p = q.initial p := by rw [initial, initial, hb]
    rw [hb, hinitial] at hresult' hpayload'
    exact ⟨by rw [hresult, hresult', (hrun _).1], by rw [hpayload, hpayload', (hrun _).2]⟩

/-- For the same backend, the same names are unknown, and an option has the same edit, past its
modifier. -/
structure SameEdits (q r : Query) : Prop where
  backend : r.backend = q.backend
  names : ∀ name, q.backend.supportsName name = false →
    (name ∈ r.options.keys ↔ name ∈ q.options.keys)
  edits : ∀ o ∈ q.backend.order, (∀ m, q.backend.modifier? o = some m → q.verdict m = .ok ()) →
    ∀ n, r.editOf o n = q.editOf o n

theorem SameEdits.alike {q r : Query} (h : q.SameEdits r) (p : Payload) : Alike p q r := by
  refine alike_of_runFrom h.backend h.names (fun s => ?_) p
  refine runFrom_congr (fun before o after n hsplit hbefore => ?_) fun _ ho => ho
  have ho : o ∈ q.backend.order := by rw [hsplit]; simp
  refine h.edits o ho (fun m hm => hbefore m ?_) n
  have := mem_takeWhile_of_modifier? ho hm
  rwa [takeWhile_order hsplit] at this

theorem Alike.result_compile {q r : Query} (h : Alike .empty q r) :
    r.compile.result = q.compile.result := by
  rw [Query.result_compile, Query.result_compile, h.result, h.payload]

section

variable {q : Query} {x : SearchOption}

/-- Where one option differs, it has to have the same edit, and so do the options that it tunes. -/
theorem sameEdits_of_differsIn {os : OptionSet} (h : q.DiffersIn x os)
    (hx : x ∈ q.backend.order ∨ x.name ∈ os.keys ∧ x.name ∈ q.options.keys)
    (hself : (∀ m, q.backend.modifier? x = some m → q.verdict m = .ok ()) →
      ∀ n, (q.withOptions os).editOf x n = q.editOf x n)
    (htuned : ∀ o ∈ q.backend.order, q.backend.modifier? o = some x → q.verdict x = .ok () →
      ∀ n, (q.withOptions os).editOf o n = q.editOf o n) : q.SameEdits (q.withOptions os) where
  backend := rfl
  names := mem_keys_of_differsIn h hx
  edits o ho hm n := by
    by_cases hox : o = x
    · subst hox
      exact hself hm n
    · by_cases htune : q.backend.modifier? o = some x
      · exact htuned o ho htune (hm x htune) n
      · refine editOf_withOptions (given?_of_differsIn h hox) (fun m hmod => ?_) n
        refine given?_of_differsIn h ?_
        rintro rfl
        exact htune hmod

/-- Two values for an option that is no modifier. -/
theorem sameEdits_giving (hx : ∀ kind, x.handling ≠ .modifier kind) {v w : OptionValue}
    (hself : ∀ n, (q.giving x w).editOf x n = (q.giving x v).editOf x n) :
    (q.giving x v).SameEdits (q.giving x w) := by
  have hgiven : ∀ u, x.name ∈ (q.options.insert x.name u).keys := fun u => by
    rw [SortedMap.mem_keys, SortedMap.get?_insert, if_pos rfl]
    rfl
  refine @sameEdits_of_differsIn (q.giving x v) x (q.options.insert x.name w) ?_
    (.inr ⟨hgiven w, hgiven v⟩) (fun _ => hself) fun o _ hm =>
      absurd hm (Backend.modifier?_ne hx o)
  intro name hname
  rw [q.differsIn_insert x w name hname]
  exact (q.differsIn_insert x v name hname).symm

/-- An option that is left out. -/
theorem sameEdits_without (hx : x ∈ q.backend.order)
    (hself : (∀ m, q.backend.modifier? x = some m → q.verdict m = .ok ()) →
      ∀ n, q.editOf x n = .ok (.none, n))
    (htuned : ∀ o ∈ q.backend.order, q.backend.modifier? o = some x → q.verdict x = .ok () →
      ∀ n, (q.without x).editOf o n = q.editOf o n) : q.SameEdits (q.without x) := by
  refine sameEdits_of_differsIn (q.differsIn_erase x) (.inl hx) (fun hm n => ?_) htuned
  rw [hself hm n]
  exact editOf_of_not_given (q.given?_without_self x) n

end

end Query

end BugQuery
