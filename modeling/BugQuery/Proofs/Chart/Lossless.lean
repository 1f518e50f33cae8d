import BugQuery.Proofs.Chart.Encoding

/-!
# Charts are read back from their payload

Charts with different numbers share no key, so their payloads may be merged
in any order. In the merged payload the key of a slot still finds what the
slot holds in the expression of its number, and rows without a gap are known
from their members. So the payload of a family of charts tells the numbers
and, up to the names of the shortcuts, the expressions.

* `SortedMap.mergeAll_perm`, `SortedMap.get?_mergeAll`: maps that share no keys merge in any
  order, and nothing is lost.
* `get?_key_merged`: a slot's key finds what the slot holds in the chart of its number.
* `resolve_eq_of_held?`: what its slots hold determines an expression.
* `encode_lossless`: families of charts have one payload just if they are the same.
-/
namespace BugQuery

/-! ## Maps that share no key -/

namespace SortedMap

variable {α : Type}

/-- The maps have no key in common. -/
def Apart (m n : SortedMap α) : Prop := ∀ k ∈ m.keys, k ∉ n.keys

theorem Apart.symm {m n : SortedMap α} (h : m.Apart n) : n.Apart m := fun k hn hm => h k hm hn

theorem Apart.get?_eq_none {m n : SortedMap α} (h : m.Apart n) {k : String} {v : α}
    (hm : m.get? k = some v) : n.get? k = none := by
  have hk : k ∈ m.keys := mem_keys.2 (Option.isSome_of_eq_some hm)
  exact Option.not_isSome_iff_eq_none.1 fun hn => h k hk (mem_keys.2 hn)

theorem Apart.merge_comm {m n : SortedMap α} (h : m.Apart n) : m.merge n = n.merge m := by
  refine ext_get? fun k => ?_
  rw [get?_merge, get?_merge]
  cases hm : m.get? k with
  | none => rw [Option.or_none, Option.none_or]
  | some v => rw [h.get?_eq_none hm, Option.none_or, Option.or_none]

/-- The maps merged one after the other, a later one over the earlier ones. -/
def mergeAll (ms : List (SortedMap α)) : SortedMap α := ms.foldl merge empty

instance : Std.Associative (@merge α) := ⟨merge_assoc⟩

theorem mergeAll_cons (m : SortedMap α) (ms : List (SortedMap α)) :
    mergeAll (m :: ms) = m.merge (mergeAll ms) := by
  have hout : ms.foldl merge (m.merge empty) = m.merge (ms.foldl merge empty) := List.foldl_assoc
  rw [mergeAll, List.foldl_cons, empty_merge, mergeAll, ← hout, merge_empty]

theorem mergeAll_perm {ms ns : List (SortedMap α)} (hp : ms.Perm ns) (h : ms.Pairwise Apart) :
    mergeAll ms = mergeAll ns := by
  induction hp with
  | nil => rfl
  | cons m _ ih => rw [mergeAll_cons, mergeAll_cons, ih (List.pairwise_cons.1 h).2]
  | swap m n ms =>
    have hnm : n.Apart m := (List.pairwise_cons.1 h).1 m (by simp)
    simp only [mergeAll_cons]
    rw [← merge_assoc, ← merge_assoc, hnm.merge_comm]
  | trans hp _ ih₁ ih₂ => rw [ih₁ h, ih₂ (h.perm hp fun hmn => hmn.symm)]

/-- Maps that share no key keep all their entries. -/
theorem get?_mergeAll {ms : List (SortedMap α)} (h : ms.Pairwise Apart) {k : String} {v : α} :
    (mergeAll ms).get? k = some v ↔ ∃ m ∈ ms, m.get? k = some v := by
  induction ms generalizing v with
  | nil => simp [mergeAll]
  | cons m ms ih =>
    rw [List.pairwise_cons] at h
    rw [mergeAll_cons, get?_merge, Option.or_eq_some_iff, ih h.2]
    simp only [List.mem_cons, exists_eq_or_imp]
    constructor
    · intro hcases
      rcases hcases with hms | ⟨-, hm⟩
      · exact .inr hms
      · exact .inl hm
    · intro hcases
      rcases hcases with hm | hms
      · have hnone : (mergeAll ms).get? k = none := by
          refine Option.eq_none_iff_forall_ne_some.2 fun w hw => ?_
          obtain ⟨n, hn, hw⟩ := (ih h.2).1 hw
          rw [(h.1 n hn).get?_eq_none hm] at hw
          cases hw
        exact .inr ⟨hnone, hm⟩
      · exact .inl hms

end SortedMap

/-! ## Expressions without shortcuts -/

/-- The term with the wire name of its field written out. -/
def Term.resolve (fields : FieldTable) (t : Term) : Term :=
  { t with field := .verbatim (t.field.wireName fields) }

namespace Expr

/-- The expression with the wire names of all fields written out. -/
def resolve (fields : FieldTable) (e : Expr) : Expr :=
  { e with rows := e.rows.map (List.map (Term.resolve fields)) }

theorem term?_resolve (fields : FieldTable) (e : Expr) (r k : Nat) :
    (e.resolve fields).term? r k = (e.term? r k).map (Term.resolve fields) := by
  simp only [term?, resolve, List.getElem?_map]
  cases e.rows[r]? with
  | none => rfl
  | some row => simp

/-- There is a row, and no row is empty. -/
structure Gapless (e : Expr) : Prop where
  rows_ne_nil : e.rows ≠ []
  nil_not_mem : [] ∉ e.rows

instance (e : Expr) : Decidable e.Gapless :=
  decidable_of_iff (e.rows ≠ [] ∧ [] ∉ e.rows) ⟨fun h => ⟨h.1, h.2⟩, fun h => ⟨h.1, h.2⟩⟩

theorem Gapless.exists_term? {e : Expr} (h : e.Gapless) {r : Nat} {row : List Term}
    (hr : e.rows[r]? = some row) : ∃ t, e.term? r 0 = some t := by
  cases row with
  | nil => exact absurd (List.mem_of_getElem? hr) h.nil_not_mem
  | cons t row => exact ⟨t, by simp [term?, hr]⟩

theorem Gapless.exists_first {e : Expr} (h : e.Gapless) : ∃ t, e.term? 0 0 = some t := by
  obtain ⟨row, rows, hrows⟩ := List.exists_cons_of_ne_nil h.rows_ne_nil
  have hrow : e.rows[0]? = some row := by simp [hrows]
  exact h.exists_term? hrow

theorem Gapless.resolve {e : Expr} (h : e.Gapless) (fields : FieldTable) :
    (e.resolve fields).Gapless where
  rows_ne_nil := by simpa [Expr.resolve] using h.rows_ne_nil
  nil_not_mem := by simpa [Expr.resolve] using h.nil_not_mem

/-- Rows without a gap have as many members as there are terms to find. -/
theorem Gapless.eq_of_term? {e f : Expr} (he : e.Gapless) (hf : f.Gapless)
    (hn : e.negate = f.negate) (h : ∀ r k, e.term? r k = f.term? r k) : e = f := by
  have hrows : e.rows = f.rows := by
    refine List.ext_getElem? fun r => ?_
    cases hr : e.rows[r]? with
    | none =>
      cases hr' : f.rows[r]? with
      | none => rfl
      | some row =>
        obtain ⟨t, ht⟩ := hf.exists_term? hr'
        rw [← h, term?, hr] at ht
        cases ht
    | some row =>
      cases hr' : f.rows[r]? with
      | none =>
        obtain ⟨t, ht⟩ := he.exists_term? hr
        rw [h, term?, hr'] at ht
        cases ht
      | some row' =>
        have hrow : row = row' := List.ext_getElem? fun k => by simpa [term?, hr, hr'] using h r k
        rw [hrow]
  cases e
  cases f
  cases hn
  cases hrows
  rfl

end Expr

namespace Chart

/-! ## What one chart holds -/

/-- The payload of one chart: the expression with the chart's number. -/
def fragment (fields : FieldTable) (x : Nat × Expr) : Payload :=
  SortedMap.ofList (entries fields x.1 x.2)

theorem get?_fragment {fields : FieldTable} {x : Nat × Expr} {k : String} {v : PayloadValue} :
    (fragment fields x).get? k = some v ↔
      ∃ s : Slot, s.chart = x.1 ∧ s.key = k ∧ s.held? fields x.2 = some v := by
  rw [fragment, SortedMap.get?_ofList_eq_some_iff, mem_entries]
  intro v w hv hw
  obtain ⟨s, -, hs, hv⟩ := mem_entries.1 hv
  obtain ⟨t, -, ht, hw⟩ := mem_entries.1 hw
  obtain rfl := Slot.key_injective (hs.trans ht.symm)
  exact Option.some.inj (hv.symm.trans hw)

/-- Charts with different numbers share no key. -/
theorem apart_fragment {fields : FieldTable} {x y : Nat × Expr} (h : x.1 ≠ y.1) :
    (fragment fields x).Apart (fragment fields y) := by
  intro k hx hy
  obtain ⟨v, hv⟩ := Option.isSome_iff_exists.1 (SortedMap.mem_keys.1 hx)
  obtain ⟨w, hw⟩ := Option.isSome_iff_exists.1 (SortedMap.mem_keys.1 hy)
  obtain ⟨s, hs, hsk, -⟩ := get?_fragment.1 hv
  obtain ⟨t, ht, htk, -⟩ := get?_fragment.1 hw
  obtain rfl := Slot.key_injective (hsk.trans htk.symm)
  exact h (hs.symm.trans ht)

theorem held?_resolve (fields : FieldTable) (e : Expr) (s : Slot) :
    s.held? fields (e.resolve fields) = s.held? fields e := by
  cases s with
  | negate n => rfl
  | field p | type p | value p =>
    simp only [Slot.held?, Expr.term?_resolve, Option.map_map]
    rfl

/-- An expression is what the slots of its chart hold. -/
theorem resolve_eq_of_held? {fields : FieldTable} {e f : Expr} {n : Nat} (he : e.Gapless)
    (hf : f.Gapless) (h : ∀ s : Slot, s.chart = n → s.held? fields e = s.held? fields f) :
    e.resolve fields = f.resolve fields := by
  refine (he.resolve fields).eq_of_term? (hf.resolve fields) ?_ fun r k => ?_
  · have hneg := h (.negate n) rfl
    show e.negate = f.negate
    cases he : e.negate <;> cases hf : f.negate <;> simp [Slot.held?, he, hf] at hneg ⊢
  · have hfield := h (.field ⟨n, r, k⟩) rfl
    have htype := h (.type ⟨n, r, k⟩) rfl
    have hvalue := h (.value ⟨n, r, k⟩) rfl
    rw [Expr.term?_resolve, Expr.term?_resolve]
    simp only [Slot.held?] at hfield htype hvalue
    cases ht : e.term? r k with
    | none =>
      cases hu : f.term? r k with
      | none => rfl
      | some u => simp [ht, hu] at hvalue
    | some t =>
      cases hu : f.term? r k with
      | none => simp [ht, hu] at hvalue
      | some u =>
        simp only [ht, hu, Option.map_some, Option.some.injEq, PayloadValue.text.injEq]
          at hfield htype hvalue
        simp [Term.resolve, hfield, htype, hvalue]

/-! ## Families of charts -/

/-- Numbered expressions that can be sent together: no number comes twice, no expression has a
gap, and the table knows every shortcut. -/
structure Encodable (fields : FieldTable) (xs : List (Nat × Expr)) : Prop where
  distinct : (xs.map Prod.fst).Nodup
  gapless : ∀ x ∈ xs, x.2.Gapless
  known : ∀ x ∈ xs, ∀ t ∈ x.2.rows.flatten, (t.field.wire? fields).isSome = true

instance (fields : FieldTable) (xs : List (Nat × Expr)) : Decidable (Encodable fields xs) :=
  decidable_of_iff ((xs.map Prod.fst).Nodup ∧ (∀ x ∈ xs, x.2.Gapless) ∧
      ∀ x ∈ xs, ∀ t ∈ x.2.rows.flatten, (t.field.wire? fields).isSome = true)
    ⟨fun h => ⟨h.1, h.2.1, h.2.2⟩, fun h => ⟨h.1, h.2, h.3⟩⟩

/-- Encodes the charts of a family one after the other. -/
def encodeAll (fields : FieldTable) (backend : String) (xs : List (Nat × Expr)) :
    Except QueryError (List Payload) :=
  xs.mapM fun x => (encode fields backend x.1 x.2).result

/-- The payload of a whole family. -/
def merged (fields : FieldTable) (xs : List (Nat × Expr)) : Payload :=
  SortedMap.mergeAll (xs.map (fragment fields))

variable {fields : FieldTable} {xs ys : List (Nat × Expr)}

theorem encodeAll_of_known (backend : String)
    (h : ∀ x ∈ xs, ∀ t ∈ x.2.rows.flatten, (t.field.wire? fields).isSome = true) :
    encodeAll fields backend xs = .ok (xs.map (fragment fields)) :=
  FirstFailure.mapM_eq_map fun x hx => result_encode_of_known (h x hx) backend x.1

theorem pairwise_apart (h : (xs.map Prod.fst).Nodup) :
    (xs.map (fragment fields)).Pairwise SortedMap.Apart :=
  List.pairwise_map.2 ((List.pairwise_map.1 h).imp apart_fragment)

theorem get?_merged (hd : (xs.map Prod.fst).Nodup) {s : Slot} {v : PayloadValue} :
    (merged fields xs).get? s.key = some v ↔
      ∃ e, (s.chart, e) ∈ xs ∧ s.held? fields e = some v := by
  rw [merged, SortedMap.get?_mergeAll (pairwise_apart hd)]
  constructor
  · intro hex
    obtain ⟨m, hm, hv⟩ := hex
    obtain ⟨x, hx, rfl⟩ := List.mem_map.1 hm
    obtain ⟨t, ht, hk, hheld⟩ := get?_fragment.1 hv
    obtain rfl := Slot.key_injective hk
    exact ⟨x.2, ht ▸ hx, hheld⟩
  · intro hex
    obtain ⟨e, hx, hv⟩ := hex
    exact ⟨_, List.mem_map.2 ⟨_, hx, rfl⟩, get?_fragment.2 ⟨s, rfl, rfl, hv⟩⟩

/-- A slot's key finds what the slot holds in the chart of its number. -/
theorem get?_key_merged (hd : (xs.map Prod.fst).Nodup) {s : Slot} {n : Nat} {e : Expr}
    (hs : s.chart = n) (hx : (n, e) ∈ xs) : (merged fields xs).get? s.key = s.held? fields e := by
  subst hs
  refine Option.ext fun v => ?_
  rw [get?_merged hd]
  constructor
  · intro hex
    obtain ⟨f, hf, hv⟩ := hex
    rwa [SortedMap.eq_of_mem_of_nodup hd hx hf]
  · intro hv
    exact ⟨e, hx, hv⟩

/-- The number of a chart with its expression, all names of fields written out. -/
def resolved (fields : FieldTable) (x : Nat × Expr) : Nat × Expr := (x.1, x.2.resolve fields)

theorem fragment_resolved (x : Nat × Expr) :
    fragment fields (resolved fields x) = fragment fields x := by
  refine SortedMap.ext_get? fun k => Option.ext fun v => ?_
  rw [get?_fragment, get?_fragment]
  simp only [resolved, held?_resolve]

theorem merged_eq_of_resolved_perm (hd : (xs.map Prod.fst).Nodup)
    (h : (xs.map (resolved fields)).Perm (ys.map (resolved fields))) :
    merged fields xs = merged fields ys := by
  have hfragments : ∀ zs : List (Nat × Expr),
      zs.map (fragment fields) = (zs.map (resolved fields)).map (fragment fields) := fun zs => by
    rw [List.map_map]
    exact List.map_congr_left fun z _ => (fragment_resolved z).symm
  have hp : (xs.map (fragment fields)).Perm (ys.map (fragment fields)) := by
    rw [hfragments xs, hfragments ys]
    exact h.map (fragment fields)
  exact SortedMap.mergeAll_perm hp (pairwise_apart hd)

/-- Every chart of a family is in each other family with the same payload. -/
theorem exists_of_merged_eq (hx : Encodable fields xs) (hy : Encodable fields ys)
    (h : merged fields xs = merged fields ys) {x : Nat × Expr} (hmem : x ∈ xs) :
    ∃ y ∈ ys, resolved fields y = resolved fields x := by
  obtain ⟨n, e⟩ := x
  -- the first term of the chart is in the payload, so the other family has a chart of this number
  obtain ⟨t, ht⟩ := (hx.gapless _ hmem).exists_first
  have hfirst : (merged fields ys).get? (Slot.value ⟨n, 0, 0⟩).key = some (.text t.value) := by
    rw [← h, get?_key_merged (n := n) hx.distinct rfl hmem, Slot.held?, ht]
    rfl
  obtain ⟨f, hf, -⟩ := (get?_merged hy.distinct).1 hfirst
  refine ⟨(n, f), hf, ?_⟩
  have hslots : ∀ s : Slot, s.chart = n → s.held? fields f = s.held? fields e := by
    intro s hs
    rw [← get?_key_merged hy.distinct hs hf, ← h, get?_key_merged hx.distinct hs hmem]
  rw [resolved, resolved, resolve_eq_of_held? (hy.gapless _ hf) (hx.gapless _ hmem) hslots]

theorem nodup_resolved (hd : (xs.map Prod.fst).Nodup) : (xs.map (resolved fields)).Nodup := by
  refine List.pairwise_map.2 ((List.pairwise_map.1 hd).imp ?_)
  intro x y hne heq
  exact hne (congrArg (fun z => z.1) heq)

theorem resolved_perm_of_merged_eq (hx : Encodable fields xs) (hy : Encodable fields ys)
    (h : merged fields xs = merged fields ys) :
    (xs.map (resolved fields)).Perm (ys.map (resolved fields)) := by
  refine (List.perm_ext_iff_of_nodup (nodup_resolved hx.distinct)
    (nodup_resolved hy.distinct)).2 fun z => ?_
  simp only [List.mem_map]
  constructor
  · intro hex
    obtain ⟨x, hmem, rfl⟩ := hex
    exact exists_of_merged_eq hx hy h hmem
  · intro hex
    obtain ⟨y, hmem, rfl⟩ := hex
    exact exists_of_merged_eq hy hx h.symm hmem

/-- A family of charts can be encoded, its payloads share no key and merge in any order to one
payload, and two families have the same payload just if they have the same numbers with the same
expressions, up to the names of shortcuts. -/
theorem encode_lossless (hx : Encodable fields xs) (hy : Encodable fields ys) (backend : String) :
    ∃ ps qs : List Payload,
      encodeAll fields backend xs = .ok ps ∧ encodeAll fields backend ys = .ok qs ∧
      ps.Pairwise SortedMap.Apart ∧
      (∀ ps', ps'.Perm ps → SortedMap.mergeAll ps' = SortedMap.mergeAll ps) ∧
      (SortedMap.mergeAll ps = SortedMap.mergeAll qs ↔
        (xs.map (resolved fields)).Perm (ys.map (resolved fields))) := by
  refine ⟨_, _, encodeAll_of_known backend hx.known, encodeAll_of_known backend hy.known,
    pairwise_apart hx.distinct, fun ps' hp => ?_, ?_, ?_⟩
  · exact (SortedMap.mergeAll_perm hp.symm (pairwise_apart hx.distinct)).symm
  · exact resolved_perm_of_merged_eq hx hy
  · exact merged_eq_of_resolved_perm hx.distinct

/-- A table with one shortcut. -/
def flagTable : FieldTable := ⟨[[("flag", "flagtypes.name")]]⟩

/-- Two charts, the first of them negated and with a row of two terms that name a shortcut. -/
def flagCharts : List (Nat × Expr) :=
  [(10, ⟨true, [[⟨.shortcut "flag", "equals", "a"⟩, ⟨.shortcut "flag", "equals", "b"⟩]]⟩),
   (2, ⟨false, [[⟨.verbatim "product", "regexp", "x"⟩], [⟨.verbatim "cc", "equals", "y"⟩]]⟩)]

/-- The same terms with wire names, the two of the first chart in a row each. -/
def splitCharts : List (Nat × Expr) :=
  [(2, ⟨false, [[⟨.verbatim "product", "regexp", "x"⟩], [⟨.verbatim "cc", "equals", "y"⟩]]⟩),
   (10, ⟨true, [[⟨.verbatim "flagtypes.name", "equals", "a"⟩],
     [⟨.verbatim "flagtypes.name", "equals", "b"⟩]]⟩)]

theorem encode_lossless_flagCharts :
    Encodable flagTable flagCharts ∧ Encodable flagTable splitCharts ∧
    ∃ ps qs : List Payload,
      encodeAll flagTable "extended" flagCharts = .ok ps ∧
      encodeAll flagTable "extended" splitCharts = .ok qs ∧
      ps.Pairwise SortedMap.Apart ∧ SortedMap.mergeAll ps ≠ SortedMap.mergeAll qs := by
  have hx : Encodable flagTable flagCharts := by decide
  have hy : Encodable flagTable splitCharts := by decide
  obtain ⟨ps, qs, hps, hqs, hapart, -, hiff⟩ := encode_lossless hx hy "extended"
  have hdiffer : ¬ (flagCharts.map (resolved flagTable)).Perm
      (splitCharts.map (resolved flagTable)) := by decide
  exact ⟨hx, hy, ps, qs, hps, hqs, hapart, fun heq => hdiffer (hiff.1 heq)⟩

end Chart

end BugQuery
