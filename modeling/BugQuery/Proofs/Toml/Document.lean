import BugQuery.Proofs.FirstFailure
import BugQuery.Proofs.Toml.Tokens
import BugQuery.Toml.Document
import Mathlib.Data.Set.List

/-!
# What TOML documents hold

A document that is read holds no key twice, in none of its tables: each
statement either adds a key that is not there or goes into the table under
it. So the entries of a document that gives options are the settings of those
options, each once.

* `distinct_of_document?`: what is read holds no key twice.
* `Entries.toOptionSet?_eq_some`: the options that the entries of a table give.
* `optionSet?_eq_some`, `optionSet?_eq_none`: which texts give options, and which.
-/
namespace BugQuery.Toml

/-! ## Keys are given once -/

/-- No key comes twice in a table, nor in a table inside it. -/
inductive Node.Distinct : Node → Prop where
  | setting (v : OptionValue) : Distinct (.setting v)
  | table (origin : Origin) {es : Entries} (keys : (es.map Prod.fst).Nodup)
      (values : ∀ e ∈ es, Distinct e.2) : Distinct (.table origin es)

namespace Entries

structure Distinct (es : Entries) : Prop where
  keys : (es.map Prod.fst).Nodup
  values : ∀ e ∈ es, e.2.Distinct

variable {es sub : Entries} {k : String} {n : Node} {origin : Origin}

theorem lookup_eq_none : es.lookup k = none ↔ k ∉ es.map Prod.fst := by
  rw [List.lookup_eq_none_iff, List.mem_map]
  constructor
  · intro h hex
    obtain ⟨e, he, rfl⟩ := hex
    exact absurd (h e he) (by simp)
  · intro h e he
    exact bne_iff_ne.2 fun hk => h ⟨e, he, hk.symm⟩

theorem distinct_nil : Distinct [] := ⟨List.nodup_nil, by simp⟩

theorem Distinct.tail (h : Distinct ((k, n) :: es)) : es.Distinct :=
  ⟨(List.nodup_cons.1 h.keys).2, (List.forall_mem_cons.1 h.values).2⟩

/-- The first key comes no second time. -/
theorem Distinct.not_mem_tail (h : Distinct ((k, n) :: es)) (m : Node) : (k, m) ∉ es := fun hm =>
  (List.nodup_cons.1 h.keys).1 (List.mem_map.2 ⟨(k, m), hm, rfl⟩)

theorem Distinct.table (h : es.Distinct) (origin : Origin) : (Node.table origin es).Distinct :=
  .table origin h.keys h.values

theorem Distinct.of_lookup (h : es.Distinct) (hk : es.lookup k = some (.table origin sub)) :
    sub.Distinct := by
  obtain ⟨before, after, rfl, -⟩ := List.lookup_eq_some_iff.1 hk
  cases h.values (k, .table origin sub) (by simp) with
  | table _ hkeys hvalues => exact ⟨hkeys, hvalues⟩

theorem Distinct.concat (h : es.Distinct) (hk : es.lookup k = none) (hn : n.Distinct) :
    Distinct (es ++ [(k, n)]) := by
  constructor
  · rw [List.map_append, List.map_singleton, List.nodup_append]
    refine ⟨h.keys, by simp, ?_⟩
    intro a ha b hb hab
    obtain rfl : a = k := hab.trans (List.mem_singleton.1 hb)
    exact lookup_eq_none.1 hk ha
  · intro e he
    rcases List.mem_append.1 he with he | he
    · exact h.values e he
    · rw [List.mem_singleton.1 he]
      exact hn

theorem Distinct.replace (h : es.Distinct) (hn : n.Distinct) : (es.replace k n).Distinct := by
  have hkey : ∀ e : String × Node, (if e.1 = k then (k, n) else e).1 = e.1 := fun e => by
    by_cases he : e.1 = k <;> simp [he]
  constructor
  · have hkeys : (es.replace k n).map Prod.fst = es.map Prod.fst := by
      rw [Entries.replace, List.map_map]
      exact List.map_congr_left fun e _ => hkey e
    rw [hkeys]
    exact h.keys
  · intro e he
    obtain ⟨f, hf, rfl⟩ := List.mem_map.1 he
    split
    · exact hn
    · exact h.values f hf

theorem Distinct.assign {ks : List String} {fs : Entries} (h : es.Distinct) (hn : n.Distinct)
    (ha : Entries.assign n ks es = some fs) : fs.Distinct := by
  fun_induction Entries.assign n ks es generalizing fs with
  | case1 => cases ha
  | case2 => cases ha
  | case3 k es hk =>
    cases ha
    exact h.concat (Option.not_isSome_iff_eq_none.1 hk) hn
  | case4 es k ks _ hk ih =>
    obtain ⟨sub, hsub, rfl⟩ := Option.map_eq_some_iff.1 ha
    exact h.concat hk ((ih distinct_nil hsub).table .dotted)
  | case5 es k ks _ sub hk ih =>
    obtain ⟨sub', hsub, rfl⟩ := Option.map_eq_some_iff.1 ha
    exact h.replace ((ih (h.of_lookup hk) hsub).table .dotted)
  | case6 => cases ha

theorem Distinct.openTable {ks : List String} {fs : Entries} (h : es.Distinct)
    (ha : Entries.openTable ks es = some fs) : fs.Distinct := by
  fun_induction Entries.openTable ks es generalizing fs with
  | case1 => cases ha
  | case2 k es hk =>
    cases ha
    exact h.concat hk (distinct_nil.table .header)
  | case3 k es sub hk =>
    cases ha
    exact h.replace ((h.of_lookup hk).table .header)
  | case4 => cases ha
  | case5 es k ks _ hk ih =>
    obtain ⟨sub, hsub, rfl⟩ := Option.map_eq_some_iff.1 ha
    exact h.concat hk ((ih distinct_nil hsub).table .implied)
  | case6 => cases ha
  | case7 => cases ha
  | case8 es k ks _ origin sub _ hk ih =>
    obtain ⟨sub', hsub, rfl⟩ := Option.map_eq_some_iff.1 ha
    exact h.replace ((ih (h.of_lookup hk) hsub).table origin)

theorem Distinct.within {change : Entries → Option Entries} {ks : List String} {fs : Entries}
    (h : es.Distinct)
    (hchange : ∀ {es fs : Entries}, es.Distinct → change es = some fs → fs.Distinct)
    (ha : Entries.within change ks es = some fs) : fs.Distinct := by
  fun_induction Entries.within change ks es generalizing fs with
  | case1 => exact hchange h ha
  | case2 es k ks origin sub hk ih =>
    obtain ⟨sub', hsub, rfl⟩ := Option.map_eq_some_iff.1 ha
    exact h.replace ((ih (h.of_lookup hk) hsub).table origin)
  | case3 => cases ha

end Entries

/-- A value that is read holds no key twice, if inline tables do not. -/
theorem distinct_of_readValue {fuel : Nat} {s r : List Token} {n : Node}
    (hpairs : ∀ {m : Nat} {es : Entries} {s r : List Token}, fuel = m + 1 →
      readPairs m [] s = some (es, r) → es.Distinct)
    (h : readValue fuel s = some (n, r)) : n.Distinct := by
  unfold readValue at h
  split at h
  case h_5 =>
    obtain ⟨_, -, heq⟩ := Option.map_eq_some_iff.1 h
    cases heq
    exact .setting _
  case h_6 =>
    obtain ⟨⟨es, t⟩, hes, heq⟩ := Option.map_eq_some_iff.1 h
    cases heq
    exact (hpairs rfl hes).table .inline
  case h_7 => cases h
  all_goals
    cases h
    exact .setting _

/-- Nor does an inline table hold a key twice, with what it held before. -/
theorem distinct_of_readPairs : ∀ {fuel : Nat} {es fs : Entries} {s r : List Token},
    es.Distinct → readPairs fuel es s = some (fs, r) → fs.Distinct
  | 0, _, _, _, _, _, h => by cases h
  | fuel + 1, es, fs, s, r, hes, h => by
    have hvalue : ∀ {s r : List Token} {n : Node}, readValue fuel s = some (n, r) → n.Distinct :=
      distinct_of_readValue fun hm hpairs => by
        subst hm
        exact distinct_of_readPairs Entries.distinct_nil hpairs
    rw [readPairs] at h
    split at h
    · cases h
      exact hes
    · simp only [Option.bind_eq_bind, Option.bind_eq_some_iff] at h
      obtain ⟨⟨ks, r₁⟩, -, h⟩ := h
      split at h
      · simp only [Option.bind_eq_some_iff] at h
        obtain ⟨⟨v, r₂⟩, hv, es', hassign, h⟩ := h
        have hes' : es'.Distinct := hes.assign (hvalue hv) hassign
        split at h
        · exact distinct_of_readPairs hes' h
        · cases h
          exact hes'
        · cases h
      · cases h

theorem distinct_of_readStatements {fuel : Nat} {root tree : Entries} {path : List String}
    {s : List Token} (h : root.Distinct) (ht : readStatements fuel root path s = some tree) :
    tree.Distinct := by
  induction fuel generalizing root path s with
  | zero => cases ht
  | succ fuel ih =>
    rw [readStatements] at ht
    split at ht
    · cases ht
      exact h
    · simp only [Option.bind_eq_bind, Option.bind_eq_some_iff] at ht
      obtain ⟨⟨ks, r⟩, -, ht⟩ := ht
      split at ht
      · simp only [Option.bind_eq_some_iff] at ht
        obtain ⟨root', hopen, s', -, ht⟩ := ht
        exact ih (h.openTable hopen) ht
      · cases ht
    · simp only [Option.bind_eq_bind, Option.bind_eq_some_iff] at ht
      obtain ⟨⟨ks, r⟩, -, ht⟩ := ht
      split at ht
      · simp only [Option.bind_eq_some_iff] at ht
        obtain ⟨⟨v, r'⟩, hv, root', hwithin, s', -, ht⟩ := ht
        have hvalue : v.Distinct :=
          distinct_of_readValue (fun _ => distinct_of_readPairs Entries.distinct_nil) hv
        exact ih (h.within (fun hes => hes.assign hvalue) hwithin) ht
      · cases ht

/-- A document holds no key twice, in no table. -/
theorem distinct_of_document? {s : String} {es : Entries} (h : document? s = some es) :
    es.Distinct := by
  obtain ⟨ts, -, hts⟩ := Option.bind_eq_some_iff.1 h
  exact distinct_of_readStatements Entries.distinct_nil hts

/-! ## What the entries of a document are -/

/-- The entries of a table that gives options, as written. -/
def Entries.ofSettings (es : List (String × OptionValue)) : Entries :=
  es.map fun e => (e.1, .setting e.2)

theorem Entries.keys_ofSettings (es : List (String × OptionValue)) :
    (ofSettings es).map Prod.fst = es.map Prod.fst := List.map_map

/-- The entries are the settings of `o`, and nothing else. -/
def Entries.Hold (es : Entries) (o : OptionSet) : Prop :=
  ∀ k n, (k, n) ∈ es ↔ ∃ v, o.get? k = some v ∧ n = .setting v

theorem Entries.setting?_eq_some {e : String × Node} {f : String × OptionValue} :
    setting? e = some f ↔ e = (f.1, .setting f.2) := by
  obtain ⟨k, n⟩ := e
  cases n with
  | setting v => simp [setting?, Prod.ext_iff]
  | table origin es => simp [setting?]

theorem mem_ofSettings {es : List (String × OptionValue)} {k : String} {n : Node} :
    (k, n) ∈ Entries.ofSettings es ↔ ∃ v, (k, v) ∈ es ∧ n = .setting v := by
  simp only [Entries.ofSettings, List.mem_map, Prod.mk.injEq, Prod.exists]
  constructor
  · intro h
    obtain ⟨a, v, hm, rfl, rfl⟩ := h
    exact ⟨v, hm, rfl⟩
  · intro h
    obtain ⟨v, hm, rfl⟩ := h
    exact ⟨k, v, hm, rfl, rfl⟩

/-- Where no key comes twice, entries hold the options that they make. -/
theorem hold_ofSettings {es : List (String × OptionValue)} (h : (es.map Prod.fst).Nodup)
    {o : OptionSet} : (Entries.ofSettings es).Hold o ↔ SortedMap.ofList es = o := by
  have hget : ∀ {k v}, (SortedMap.ofList es).get? k = some v ↔ (k, v) ∈ es :=
    SortedMap.get?_ofList_eq_some_iff fun _ _ => SortedMap.eq_of_mem_of_nodup h
  constructor
  · intro hold
    refine SortedMap.ext_get? fun k => Option.ext fun v => ?_
    have hk := hold k (.setting v)
    rw [mem_ofSettings] at hk
    simpa [hget] using hk
  · intro ho k n
    simp only [mem_ofSettings, ← ho, hget]

/-- Entries that hold options are settings, one after the other. -/
theorem Entries.Hold.exists_eq {es : Entries} {o : OptionSet} (h : es.Hold o) :
    ∃ ss, es = ofSettings ss := by
  have hrange :
      es ∈ Set.range (List.map fun e : String × OptionValue => (e.1, Node.setting e.2)) := by
    rw [Set.range_list_map]
    intro e he
    obtain ⟨v, -, hv⟩ := (h e.1 e.2).1 he
    exact ⟨(e.1, v), Prod.ext rfl hv.symm⟩
  obtain ⟨ss, hss⟩ := hrange
  exact ⟨ss, hss.symm⟩

theorem Entries.toOptionSet?_eq_some {es : Entries} (h : es.Distinct) {o : OptionSet} :
    es.toOptionSet? = some o ↔ es.Hold o := by
  have hkeys : ∀ {ss}, es = ofSettings ss → (ss.map Prod.fst).Nodup := by
    intro ss hss
    have hnodup := h.keys
    rwa [hss, keys_ofSettings] at hnodup
  have hmapM : ∀ {ss}, es.mapM setting? = some ss ↔ es = ofSettings ss :=
    FirstFailure.mapM_eq_some_iff setting?_eq_some
  rw [toOptionSet?, Option.map_eq_some_iff]
  constructor
  · intro hex
    obtain ⟨ss, hss, ho⟩ := hex
    rw [hmapM] at hss
    rw [hss]
    exact (hold_ofSettings (hkeys hss)).2 ho
  · intro hold
    obtain ⟨ss, hss⟩ := hold.exists_eq
    refine ⟨ss, hmapM.2 hss, (hold_ofSettings (hkeys hss)).1 ?_⟩
    rwa [← hss]

/-- The document `s` holds the settings of `o` and nothing else. -/
def Gives (s : String) (o : OptionSet) : Prop := ∃ es, document? s = some es ∧ es.Hold o

theorem optionSet?_eq_some {s : String} {o : OptionSet} : optionSet? s = some o ↔ Gives s o := by
  rw [optionSet?, Option.bind_eq_some_iff]
  constructor
  · intro hex
    obtain ⟨es, hes, ho⟩ := hex
    exact ⟨es, hes, (Entries.toOptionSet?_eq_some (distinct_of_document? hes)).1 ho⟩
  · intro hex
    obtain ⟨es, hes, ho⟩ := hex
    exact ⟨es, hes, (Entries.toOptionSet?_eq_some (distinct_of_document? hes)).2 ho⟩

theorem optionSet?_eq_none {s : String} : optionSet? s = none ↔ ∀ o, ¬ Gives s o := by
  simp only [Option.eq_none_iff_forall_ne_some, ne_eq, optionSet?_eq_some]

end BugQuery.Toml
