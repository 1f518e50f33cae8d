import BugQuery.Proofs.Query.Run

/-!
# Queries with fewer options

Taking options away from a query leaves the edits of the others as they are,
so long as the modifiers that these read stay. In the order of a backend a
modifier comes before every option that reads it, so the options before a
given one can stand for themselves.

* `edit_withOptions`: an edit depends on no option but its own and its modifier.
* `mem_takeWhile_of_modifier?`: modifiers come before the options that they tune.
* `editAll_withOptions`: a run over options that keep their values and modifiers is the same.
* `editAll_order_of_sole`: where one option is given, its edit is all that a run makes.
* `editAll_before`: cut down to the options before one of them, a query runs as far as it did.
-/
namespace BugQuery

namespace SortedMap

variable {α : Type}

/-- The entries whose keys pass a test. -/
def filterKeys (keep : String → Bool) (m : SortedMap α) : SortedMap α :=
  ⟨m.entries.filter fun e => keep e.1,
    m.sorted.sublist ((List.filter_sublist (l := m.entries)).map Prod.fst)⟩

theorem find_filterKeys {keep : String → Bool} {k : String} : ∀ {es : List (String × α)},
    find k (es.filter fun e => keep e.1) = if keep k = true then find k es else none
  | [] => by simp [find]
  | e :: es => by
    have ih := @find_filterKeys keep k es
    by_cases he : e.1 = k
    · by_cases hk : keep k = true
      · rw [List.filter_cons_of_pos (by rw [he, hk]), find, if_pos he, if_pos hk, find, if_pos he]
      · rw [List.filter_cons_of_neg (by rw [he]; exact hk), ih, if_neg hk, if_neg hk]
    · rw [find.eq_2 k e es, if_neg he, ← ih]
      by_cases hk : keep e.1 = true
      · rw [List.filter_cons_of_pos (p := fun x : String × α => keep x.1) hk, find, if_neg he]
      · rw [List.filter_cons_of_neg (p := fun x : String × α => keep x.1) hk]

@[simp] theorem get?_filterKeys (keep : String → Bool) (m : SortedMap α) (k : String) :
    (m.filterKeys keep).get? k = if keep k = true then m.get? k else none := find_filterKeys

end SortedMap

/-- The modifier that an option's edit reads. -/
def Backend.modifier? (b : Backend) (o : SearchOption) : Option SearchOption :=
  match o.handling, b.emailStyle with
  | .email, .indexedRoles => some .emailType
  | .chart _, _ => some .booleanType
  | _, _ => none

theorem mem_takeWhile_of_modifier? {b : Backend} {o m : SearchOption} (ho : o ∈ b.order)
    (h : b.modifier? o = some m) : m ∈ b.order.takeWhile (· ≠ o) := by
  have hall : ∀ o ∈ b.order, ∀ m ∈ b.modifier? o, m ∈ b.order.takeWhile (· ≠ o) := by
    cases b <;> decide +kernel
  exact hall o ho m h

theorem nodup_order (b : Backend) : b.order.Nodup := by cases b <;> decide +kernel

theorem takeWhile_order {b : Backend} {before after : List SearchOption} {o : SearchOption}
    (h : b.order = before ++ o :: after) : b.order.takeWhile (· ≠ o) = before := by
  have hnodup := nodup_order b
  rw [h] at hnodup ⊢
  have hmem : ∀ a ∈ before, decide (a ≠ o) = true := fun a ha =>
    decide_eq_true ((List.nodup_append.1 hnodup).2.2 a ha o (by simp))
  rw [List.takeWhile_append_of_pos hmem]
  simp

namespace Query

/-- The query with other options. -/
def withOptions (q : Query) (os : OptionSet) : Query := { q with options := os }

@[simp] theorem backend_withOptions (q : Query) (os : OptionSet) :
    (q.withOptions os).backend = q.backend := rfl

/-- The query with the options before `o` in the order of its backend. -/
def before (q : Query) (o : SearchOption) : Query :=
  q.withOptions <| q.options.filterKeys fun name =>
    (q.backend.order.takeWhile (· ≠ o)).any fun a => a.name = name

/-- The query of one option, given with the value `v`. -/
def alone (q : Query) (o : SearchOption) (v : OptionValue) : Query :=
  q.withOptions (SortedMap.empty.insert o.name v)

@[simp] theorem backend_alone (q : Query) (o : SearchOption) (v : OptionValue) :
    (q.alone o v).backend = q.backend := rfl

/-! ## Edits -/

theorem modifierText_congr {q r : Query} {m : SearchOption} (h : q.given? m = r.given? m) :
    q.modifierText m = r.modifierText m := by
  rw [modifierText, modifierText, h]

theorem charts_withOptions (q : Query) (os : OptionSet) (o : SearchOption) (form : ChartForm)
    (operator : String) : ∀ (raws : List String) (n : Nat),
    (q.withOptions os).charts o form operator raws n = q.charts o form operator raws n
  | [], _ => rfl
  | raw :: raws, n => by
    rw [charts, charts]
    simp only [charts_withOptions q os o form operator raws (n + 1)]
    rfl

theorem edit_withOptions {q : Query} {os : OptionSet} {o : SearchOption}
    (hm : ∀ m, q.backend.modifier? o = some m → (q.withOptions os).given? m = q.given? m)
    (v : OptionValue) (n : Numbering) : (q.withOptions os).edit o v n = q.edit o v n := by
  cases hh : o.handling with
  | direct shape => simp only [edit, hh]; rfl
  | status => simp only [edit, hh]; rfl
  | email =>
    simp only [edit, hh, emailEdit]
    cases hs : q.backend.emailStyle with
    | plain => simp [hs]
    | indexedRoles =>
      have := modifierText_congr (hm .emailType (by simp [Backend.modifier?, hh, hs]))
      simp [hs, this]
  | chart form =>
    have := modifierText_congr (hm .booleanType (by simp [Backend.modifier?, hh]))
    simp only [edit, hh, chartEdit, this, charts_withOptions]
  | modifier kind => simp only [edit, hh]
  | output choice => simp only [edit, hh]; rfl

theorem editOf_withOptions {q : Query} {os : OptionSet} {o : SearchOption}
    (ho : (q.withOptions os).given? o = q.given? o)
    (hm : ∀ m, q.backend.modifier? o = some m → (q.withOptions os).given? m = q.given? m)
    (n : Numbering) : (q.withOptions os).editOf o n = q.editOf o n := by
  rw [editOf, editOf, ho]
  cases q.given? o with
  | none => rfl
  | some v => exact congrArg Traced.result (edit_withOptions hm v n)

/-! ## Runs -/

theorem editAll_withOptions {q : Query} {os : OptionSet} : ∀ {as : List SearchOption}
    {n : Numbering}, (∀ o ∈ as, (q.withOptions os).given? o = q.given? o) →
    (∀ o ∈ as, ∀ m, q.backend.modifier? o = some m →
      (q.withOptions os).given? m = q.given? m) →
    (q.withOptions os).editAll as n = q.editAll as n
  | [], _, _, _ => rfl
  | o :: as, n, ho, hm => by
    have hhead := editOf_withOptions (ho o (by simp)) (hm o (by simp)) n
    have ih : ∀ k, (q.withOptions os).editAll as k = q.editAll as k := fun k =>
      editAll_withOptions (fun a ha => ho a (by simp [ha])) fun a ha => hm a (by simp [ha])
    rw [editAll, editAll, hhead]
    simp only [ih]

theorem editAll_of_not_given {q : Query} : ∀ {os : List SearchOption} {n : Numbering},
    (∀ o ∈ os, q.given? o = none) → q.editAll os n = .ok (.none, n)
  | [], _, _ => rfl
  | o :: os, n, h => by
    rw [editAll_cons_of_ok (editOf_of_not_given (h o (by simp)) n),
      editAll_of_not_given fun a ha => h a (by simp [ha])]
    simp [Except.map]

/-- Options that are not given can be left out. -/
theorem editAll_filter {q : Query} {p : SearchOption → Bool} : ∀ {os : List SearchOption}
    {n : Numbering}, (∀ o ∈ os, p o = false → q.given? o = none) →
    q.editAll (os.filter p) n = q.editAll os n
  | [], _, _ => rfl
  | o :: os, n, h => by
    have ih : ∀ m, q.editAll (os.filter p) m = q.editAll os m := fun m =>
      editAll_filter fun a ha => h a (by simp [ha])
    cases hp : p o with
    | false =>
      rw [List.filter_cons_of_neg (by simp [hp]),
        editAll_cons_of_ok (editOf_of_not_given (h o (by simp) hp) n), ih]
      cases q.editAll os n <;> simp [Except.map]
    | true =>
      rw [List.filter_cons_of_pos hp, editAll, editAll]
      simp only [ih]

/-- Where no other option is given, all edits amount to one. -/
theorem editAll_order_of_sole {q : Query} {o : SearchOption} (ho : o ∈ q.backend.order)
    (hnone : ∀ a ∈ q.backend.order, a ≠ o → q.given? a = none) (n : Numbering) :
    q.editAll q.backend.order n = q.editOf o n := by
  have hsole : q.backend.order.filter (fun a => decide (a = o)) = [o] := by
    rw [List.filter_eq, (nodup_order q.backend).count, if_pos ho]
    rfl
  have hfilter := @editAll_filter q (fun a => decide (a = o)) q.backend.order n fun a hmem ha =>
    hnone a hmem (of_decide_eq_false ha)
  rw [← hfilter, hsole, editAll_singleton]

theorem given?_before (q : Query) (o a : SearchOption) : (q.before o).given? a =
    if a ∈ q.backend.order.takeWhile (· ≠ o) then q.given? a else none := by
  have hname : ((q.backend.order.takeWhile (· ≠ o)).any fun b => decide (b.name = a.name)) = true ↔
      a ∈ q.backend.order.takeWhile (· ≠ o) := by
    rw [List.any_eq_true]
    constructor
    · intro hex
      obtain ⟨b, hb, hn⟩ := hex
      rwa [← SearchOption.name_injective (of_decide_eq_true hn)]
    · intro ha
      exact ⟨a, ha, by simp⟩
  rw [given?, before, withOptions, SortedMap.get?_filterKeys]
  simp only [hname]
  rfl

theorem given?_alone (q : Query) (o : SearchOption) (v : OptionValue) (a : SearchOption) :
    (q.alone o v).given? a = if a = o then some v else none := by
  rw [given?, alone, withOptions, SortedMap.get?_insert]
  by_cases h : a = o
  · simp [h]
  · have : ¬ o.name = a.name := fun hn => h (SearchOption.name_injective hn).symm
    simp [h, this]

@[simp] theorem given?_alone_self (q : Query) (o : SearchOption) (v : OptionValue) :
    (q.alone o v).given? o = some v := by
  rw [given?_alone, if_pos rfl]

theorem supported_before {q : Query} (h : q.Supported) (o : SearchOption) :
    (q.before o).Supported := by
  intro name hn
  rw [before, withOptions, SortedMap.mem_keys, SortedMap.get?_filterKeys] at hn
  refine h name (SortedMap.mem_keys.2 ?_)
  split at hn
  · exact hn
  · cases hn

theorem supported_alone {q : Query} {o : SearchOption} (h : o ∈ q.backend.order) (v : OptionValue) :
    (q.alone o v).Supported := by
  intro name hn
  rw [alone, withOptions, SortedMap.mem_keys, SortedMap.get?_insert] at hn
  by_cases he : o.name = name
  · exact ⟨o, h, he⟩
  · simp [he] at hn

/-- Cut down to the options before one of them, a query runs as far as the whole one did. -/
theorem editAll_before {q : Query} {before after : List SearchOption} {o : SearchOption}
    (h : q.backend.order = before ++ o :: after) {n m : Numbering} {e : Edit}
    (he : q.editAll before n = .ok (e, m)) :
    (q.before o).editAll q.backend.order n = .ok (e, m) := by
  have htake := takeWhile_order h
  have hgiven : ∀ a ∈ before, (q.before o).given? a = q.given? a := fun a ha => by
    rw [given?_before, htake, if_pos ha]
  have hsame : (q.before o).editAll before n = q.editAll before n := by
    refine editAll_withOptions hgiven fun a ha m hm => hgiven m ?_
    -- the modifier stands before `a`, and so before `o`
    obtain ⟨bs, cs, rfl⟩ := List.append_of_mem ha
    have ha : q.backend.order = bs ++ a :: (cs ++ o :: after) := by rw [h]; simp
    have hbs := mem_takeWhile_of_modifier? (by rw [ha]; simp) hm
    rw [takeWhile_order ha] at hbs
    simp [hbs]
  have hnone : (q.before o).editAll (o :: after) m = .ok (.none, m) := by
    have hnodup := nodup_order q.backend
    rw [h] at hnodup
    refine editAll_of_not_given fun a ha => ?_
    rw [given?_before, htake, if_neg fun hb => (List.nodup_append.1 hnodup).2.2 a hb a ha rfl]
  rw [h]
  exact (editAll_append_eq_ok _).2 ⟨e, m, .none, hsame ▸ he, hnone, (Edit.andThen_none e).symm⟩

end Query

end BugQuery
