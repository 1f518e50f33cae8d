/-!
# Maps with text keys, kept in key order

A `SortedMap` is a list of entries whose keys ascend strictly (code points
compared from the left), so two maps with the same answers are equal and
any walk over a map is in key order. `get?` is the view: every operation is
described by what it does to `get?`.

* `get?_insert`, `get?_erase`, `get?_merge`: what a look-up finds after each
  operation; in a merge the right side wins.
* `ext_get?`: maps that answer every look-up alike are equal.
* `ofList_entries`: a map is what its entries make.
* `merge_assoc`: merging is associative.
-/
namespace BugQuery

/-- Entries in strictly ascending key order. -/
structure SortedMap (α : Type) where
  entries : List (String × α)
  sorted : (entries.map Prod.fst).Pairwise (· < ·)
  deriving DecidableEq

namespace SortedMap

variable {α : Type}

/-! ## Lists of entries -/

/-- The first value filed under `k`. -/
def find (k : String) : List (String × α) → Option α
  | [] => none
  | e :: es => if e.1 = k then some e.2 else find k es

/-- Puts `v` under `k` at its place in the order, over a value already there. -/
def insertEntry (k : String) (v : α) : List (String × α) → List (String × α)
  | [] => [(k, v)]
  | e :: es =>
    if k < e.1 then (k, v) :: e :: es
    else if e.1 = k then (k, v) :: es
    else e :: insertEntry k v es

/-- Merges `x :: xs` with a list; `rest` merges `xs` with one. -/
def mergeFrom (x : String × α) (xs : List (String × α))
    (rest : List (String × α) → List (String × α)) : List (String × α) → List (String × α)
  | [] => x :: xs
  | y :: ys =>
    if x.1 < y.1 then x :: rest (y :: ys)
    else if x.1 = y.1 then y :: rest ys
    else y :: mergeFrom x xs rest ys

/-- Both lists in one, in order; of two entries of a key, the one of the second list. -/
def mergeEntries : List (String × α) → List (String × α) → List (String × α)
  | [] => fun ys => ys
  | x :: xs => mergeFrom x xs (mergeEntries xs)

theorem mem_keys_insertEntry {k x : String} {v : α} : ∀ {es : List (String × α)},
    x ∈ (insertEntry k v es).map Prod.fst ↔ x = k ∨ x ∈ es.map Prod.fst
  | [] => by simp [insertEntry]
  | e :: es => by
    unfold insertEntry
    split
    · simp
    · split
      · rename_i h
        simp [h]
      · simp only [List.map_cons, List.mem_cons, @mem_keys_insertEntry k x v es]
        exact or_left_comm

theorem sorted_insertEntry {k : String} {v : α} : ∀ {es : List (String × α)},
    (es.map Prod.fst).Pairwise (· < ·) → ((insertEntry k v es).map Prod.fst).Pairwise (· < ·)
  | [], _ => by simp [insertEntry]
  | e :: es, h => by
    rw [List.map_cons, List.pairwise_cons] at h
    unfold insertEntry
    split
    · rename_i hlt
      rw [List.map_cons, List.pairwise_cons, List.map_cons, List.pairwise_cons]
      refine ⟨fun x hx => ?_, h⟩
      rcases List.mem_cons.1 hx with rfl | hx
      · exact hlt
      · exact String.lt_trans hlt (h.1 x hx)
    · rename_i hlt
      split
      · rename_i heq
        rw [List.map_cons, List.pairwise_cons]
        exact ⟨heq ▸ h.1, h.2⟩
      · rename_i hne
        rw [List.map_cons, List.pairwise_cons]
        refine ⟨fun x hx => ?_, sorted_insertEntry h.2⟩
        rcases mem_keys_insertEntry.1 hx with rfl | hx
        · exact Std.lt_of_le_of_ne (String.not_lt.1 hlt) hne
        · exact h.1 x hx

theorem find_eq_none_of_lt {k : String} : ∀ {es : List (String × α)},
    (∀ x ∈ es.map Prod.fst, k < x) → find k es = none
  | [], _ => rfl
  | e :: es, h => by
    have he : k < e.1 := h e.1 (by simp)
    have hne : e.1 ≠ k := fun hk => String.lt_irrefl k (hk ▸ he)
    rw [find, if_neg hne]
    exact find_eq_none_of_lt fun x hx => h x (by simp [hx])

theorem find_insertEntry {k k' : String} {v : α} : ∀ {es : List (String × α)},
    find k' (insertEntry k v es) = if k = k' then some v else find k' es
  | [] => by simp [insertEntry, find]
  | e :: es => by
    unfold insertEntry
    split
    · simp [find]
    · split
      · rename_i h
        by_cases hk : k = k' <;> simp [find, hk, h]
      · rename_i h
        by_cases he : e.1 = k'
        · have : ¬ k = k' := fun hk => h (he.trans hk.symm)
          simp [find, he, this]
        · simp [find, he, @find_insertEntry k k' v es]

theorem mem_keys_mergeEntries {k : String} : ∀ {xs ys : List (String × α)},
    k ∈ (mergeEntries xs ys).map Prod.fst ↔ k ∈ xs.map Prod.fst ∨ k ∈ ys.map Prod.fst
  | [], ys => by simp [mergeEntries]
  | x :: xs, [] => by simp [mergeEntries, mergeFrom]
  | x :: xs, y :: ys => by
    have ih : ∀ zs, k ∈ (mergeEntries xs zs).map Prod.fst ↔
        k ∈ xs.map Prod.fst ∨ k ∈ zs.map Prod.fst := fun zs => @mem_keys_mergeEntries k xs zs
    have step := @mem_keys_mergeEntries k (x :: xs) ys
    rw [mergeEntries] at step ⊢
    unfold mergeFrom
    split
    · rw [List.map_cons, List.mem_cons, ih]
      simp [or_assoc]
    · split
      · rename_i h
        rw [List.map_cons, List.mem_cons, ih]
        simp only [List.map_cons, List.mem_cons, h]
        grind
      · rw [List.map_cons, List.mem_cons, step]
        simp only [List.map_cons, List.mem_cons]
        grind

theorem sorted_mergeEntries : ∀ {xs ys : List (String × α)},
    (xs.map Prod.fst).Pairwise (· < ·) → (ys.map Prod.fst).Pairwise (· < ·) →
    ((mergeEntries xs ys).map Prod.fst).Pairwise (· < ·)
  | [], ys, _, hy => by simpa [mergeEntries] using hy
  | x :: xs, [], hx, _ => by simpa [mergeEntries, mergeFrom] using hx
  | x :: xs, y :: ys, hx, hy => by
    have hx' := hx
    have hy' := hy
    rw [List.map_cons, List.pairwise_cons] at hx' hy'
    have ih : ∀ zs, (zs.map Prod.fst).Pairwise (· < ·) →
        ((mergeEntries xs zs).map Prod.fst).Pairwise (· < ·) :=
      fun zs hz => @sorted_mergeEntries xs zs hx'.2 hz
    have step := @sorted_mergeEntries (x :: xs) ys hx hy'.2
    have mem := fun k zs => @mem_keys_mergeEntries _ k xs zs
    have memStep := fun k => @mem_keys_mergeEntries _ k (x :: xs) ys
    rw [mergeEntries] at step memStep ⊢
    unfold mergeFrom
    split
    · rename_i hlt
      rw [List.map_cons, List.pairwise_cons]
      refine ⟨fun k hk => ?_, ih _ hy⟩
      rcases (mem k _).1 hk with hk | hk
      · exact hx'.1 k hk
      · rcases List.mem_cons.1 hk with rfl | hk
        · exact hlt
        · exact String.lt_trans hlt (hy'.1 k hk)
    · rename_i hlt
      split
      · rename_i heq
        rw [List.map_cons, List.pairwise_cons]
        refine ⟨fun k hk => ?_, ih _ hy'.2⟩
        rcases (mem k _).1 hk with hk | hk
        · exact heq ▸ hx'.1 k hk
        · exact hy'.1 k hk
      · rename_i hne
        have hyx := Std.lt_of_le_of_ne (String.not_lt.1 hlt) (Ne.symm hne)
        rw [List.map_cons, List.pairwise_cons]
        refine ⟨fun k hk => ?_, step⟩
        rcases (memStep k).1 hk with hk | hk
        · rcases List.mem_cons.1 hk with rfl | hk
          · exact hyx
          · exact String.lt_trans hyx (hx'.1 k hk)
        · exact hy'.1 k hk

theorem find_mergeEntries {k : String} : ∀ {xs ys : List (String × α)},
    (xs.map Prod.fst).Pairwise (· < ·) → (ys.map Prod.fst).Pairwise (· < ·) →
    find k (mergeEntries xs ys) = (find k ys).or (find k xs)
  | [], ys, _, _ => by simp [mergeEntries, find]
  | x :: xs, [], _, _ => by simp [mergeEntries, mergeFrom, find]
  | x :: xs, y :: ys, hx, hy => by
    have hx' := hx
    have hy' := hy
    rw [List.map_cons, List.pairwise_cons] at hx' hy'
    have ih : ∀ zs, (zs.map Prod.fst).Pairwise (· < ·) →
        find k (mergeEntries xs zs) = (find k zs).or (find k xs) :=
      fun zs hz => @find_mergeEntries k xs zs hx'.2 hz
    have step := @find_mergeEntries k (x :: xs) ys hx hy'.2
    rw [mergeEntries] at step ⊢
    unfold mergeFrom
    split
    · rename_i hlt
      rw [find, ih _ hy]
      by_cases hk : x.1 = k
      · have : find k (y :: ys) = none := find_eq_none_of_lt fun z hz => by
          rcases List.mem_cons.1 hz with rfl | hz
          · exact hk ▸ hlt
          · exact hk ▸ String.lt_trans hlt (hy'.1 z hz)
        rw [this, find, if_pos hk, if_pos hk]
        rfl
      · rw [if_neg hk, find.eq_2 k x xs, if_neg hk]
    · split
      · rename_i heq
        rw [find, ih _ hy'.2, find, find]
        by_cases hk : y.1 = k
        · rw [if_pos hk, if_pos hk]
          rfl
        · rw [if_neg hk, if_neg hk, if_neg fun h => hk (heq ▸ h)]
      · rw [find, step, find.eq_2 k y ys]
        by_cases hk : y.1 = k
        · rw [if_pos hk, if_pos hk]
          rfl
        · rw [if_neg hk, if_neg hk]

/-! ## Maps -/

def empty : SortedMap α := ⟨[], List.Pairwise.nil⟩

instance : EmptyCollection (SortedMap α) := ⟨empty⟩

instance : Inhabited (SortedMap α) := ⟨empty⟩

def get? (m : SortedMap α) (k : String) : Option α := find k m.entries

def contains (m : SortedMap α) (k : String) : Bool := (m.get? k).isSome

/-- The keys, in ascending order. -/
def keys (m : SortedMap α) : List String := m.entries.map Prod.fst

def size (m : SortedMap α) : Nat := m.entries.length

def isEmpty (m : SortedMap α) : Bool := m.entries.isEmpty

def insert (m : SortedMap α) (k : String) (v : α) : SortedMap α :=
  ⟨insertEntry k v m.entries, sorted_insertEntry m.sorted⟩

def erase (m : SortedMap α) (k : String) : SortedMap α :=
  ⟨m.entries.filter fun e => e.1 ≠ k,
    m.sorted.sublist ((List.filter_sublist (l := m.entries)).map Prod.fst)⟩

/-- Files the pairs in turn: a later one replaces an earlier one of its key. -/
def insertAll (m : SortedMap α) (es : List (String × α)) : SortedMap α :=
  es.foldl (fun m e => m.insert e.1 e.2) m

def ofList (es : List (String × α)) : SortedMap α := empty.insertAll es

/-- All entries of both maps; where both have a key, the value of `n`. -/
def merge (m n : SortedMap α) : SortedMap α :=
  ⟨mergeEntries m.entries n.entries, sorted_mergeEntries m.sorted n.sorted⟩

/-! ## What a look-up finds -/

@[simp] theorem get?_empty (k : String) : (empty : SortedMap α).get? k = none := rfl

@[simp] theorem get?_insert (m : SortedMap α) (k : String) (v : α) (k' : String) :
    (m.insert k v).get? k' = if k = k' then some v else m.get? k' := find_insertEntry

theorem find_filter_ne {k k' : String} : ∀ {es : List (String × α)},
    find k' (es.filter fun e => e.1 ≠ k) = if k = k' then none else find k' es
  | [] => by simp [find]
  | e :: es => by
    have ih := @find_filter_ne k k' es
    by_cases he : e.1 = k
    · rw [List.filter_cons_of_neg (by simp [he]), ih]
      by_cases hk : k = k'
      · simp [hk]
      · rw [if_neg hk, if_neg hk, find, if_neg (fun h => hk (he.symm.trans h))]
    · rw [List.filter_cons_of_pos (by simp [he]), find, ih, find]
      by_cases hk : k = k'
      · have : ¬ e.1 = k' := fun h => he (h.trans hk.symm)
        simp [hk, this]
      · simp [hk]

@[simp] theorem get?_erase (m : SortedMap α) (k k' : String) :
    (m.erase k).get? k' = if k = k' then none else m.get? k' := find_filter_ne

theorem get?_insertAll_append (m : SortedMap α) (es fs : List (String × α)) :
    m.insertAll (es ++ fs) = (m.insertAll es).insertAll fs := List.foldl_append

theorem find_concat {k : String} {e : String × α} : ∀ {es : List (String × α)},
    find k (es ++ [e]) = (find k es).or (if e.1 = k then some e.2 else none)
  | [] => by simp [find]
  | x :: es => by by_cases hx : x.1 = k <;> simp [find, hx, @find_concat k e es]

/-- The last pair of a key decides; without one the map is as before. -/
theorem get?_insertAll (k : String) : ∀ (es : List (String × α)) (m : SortedMap α),
    (m.insertAll es).get? k = (find k es.reverse).or (m.get? k)
  | [], m => rfl
  | e :: es, m => by
    have ih := get?_insertAll k es (m.insert e.1 e.2)
    show ((m.insert e.1 e.2).insertAll es).get? k = _
    rw [ih, get?_insert, List.reverse_cons, find_concat, Option.or_assoc]
    by_cases he : e.1 = k <;> simp [he]

@[simp] theorem get?_merge (m n : SortedMap α) (k : String) :
    (m.merge n).get? k = (n.get? k).or (m.get? k) := find_mergeEntries m.sorted n.sorted

theorem get?_ofList (es : List (String × α)) (k : String) :
    (ofList es).get? k = find k es.reverse := by
  simp [ofList, get?_insertAll]

/-! ## Look-ups determine the map -/

theorem mem_of_find {k : String} {v : α} : ∀ {es : List (String × α)},
    find k es = some v → (k, v) ∈ es
  | [], h => by cases h
  | e :: es, h => by
    rw [find] at h
    split at h
    · rename_i hk
      cases h
      simp [← hk]
    · exact List.mem_cons_of_mem e (mem_of_find h)

theorem mem_keys_iff {k : String} : ∀ {es : List (String × α)},
    k ∈ es.map Prod.fst ↔ (find k es).isSome
  | [] => by simp [find]
  | e :: es => by
    by_cases he : e.1 = k
    · simp [find, he]
    · simp only [List.map_cons, List.mem_cons, find, he, if_false, @mem_keys_iff k es,
        Ne.symm he, false_or]

theorem eq_of_find_eq : ∀ {es fs : List (String × α)},
    (es.map Prod.fst).Pairwise (· < ·) → (fs.map Prod.fst).Pairwise (· < ·) →
    (∀ k, find k es = find k fs) → es = fs
  | [], [], _, _, _ => rfl
  | [], f :: fs, _, _, h => by simpa [find] using h f.1
  | e :: es, [], _, _, h => by simpa [find] using h e.1
  | e :: es, f :: fs, he, hf, h => by
    rw [List.map_cons, List.pairwise_cons] at he hf
    have hkey : e.1 = f.1 := by
      refine Decidable.not_not.1 fun hne => ?_
      have h1 := h e.1
      have h2 := h f.1
      rw [find, if_pos rfl, find, if_neg (Ne.symm hne)] at h1
      rw [find, if_neg hne, find, if_pos rfl] at h2
      have m1 : f.1 < e.1 := hf.1 e.1 (mem_keys_iff.2 (by rw [← h1]; rfl))
      have m2 : e.1 < f.1 := he.1 f.1 (mem_keys_iff.2 (by rw [h2]; rfl))
      exact String.lt_asymm m1 m2
    have hval : e.2 = f.2 := by
      have h1 := h e.1
      rw [find, if_pos rfl, find, if_pos hkey.symm] at h1
      exact Option.some.inj h1
    have htail : es = fs := by
      refine eq_of_find_eq he.2 hf.2 fun k => ?_
      have h1 := h k
      by_cases hk : e.1 = k
      · rw [find_eq_none_of_lt (fun x hx => hk ▸ he.1 x hx),
          find_eq_none_of_lt (fun x hx => hk ▸ hkey ▸ hf.1 x hx)]
      · rw [find, if_neg hk, find, if_neg (hkey ▸ hk)] at h1
        exact h1
    rw [htail, Prod.ext hkey hval]

theorem ext_get? {m n : SortedMap α} (h : ∀ k, m.get? k = n.get? k) : m = n := by
  obtain ⟨es, hes⟩ := m
  obtain ⟨fs, hfs⟩ := n
  have : es = fs := eq_of_find_eq hes hfs h
  subst this
  rfl

/-- Where the keys of pairs decide their values, a map holds just the pairs it is made from. -/
theorem get?_ofList_eq_some_iff {es : List (String × α)} {k : String} {v : α}
    (h : ∀ v w, (k, v) ∈ es → (k, w) ∈ es → v = w) : (ofList es).get? k = some v ↔ (k, v) ∈ es := by
  rw [get?_ofList]
  constructor
  · intro hf
    exact List.mem_reverse.1 (mem_of_find hf)
  · intro hm
    have hkey : k ∈ es.reverse.map Prod.fst := List.mem_map.2 ⟨_, List.mem_reverse.2 hm, rfl⟩
    obtain ⟨w, hw⟩ := Option.isSome_iff_exists.1 (mem_keys_iff.1 hkey)
    rw [hw, h v w hm (List.mem_reverse.1 (mem_of_find hw))]

/-- Where no key comes twice there is one value for a key. -/
theorem eq_of_mem_of_nodup {κ : Type} {k : κ} {v w : α} : ∀ {es : List (κ × α)},
    (es.map Prod.fst).Nodup → (k, v) ∈ es → (k, w) ∈ es → v = w
  | [], _, hv, _ => by cases hv
  | e :: es, h, hv, hw => by
    rw [List.map_cons, List.nodup_cons] at h
    have hfree : ∀ x, (e.1, x) ∉ es := fun x hx => h.1 (List.mem_map.2 ⟨_, hx, rfl⟩)
    rcases List.mem_cons.1 hv with rfl | hv'
    · rcases List.mem_cons.1 hw with hw' | hw'
      · exact (congrArg Prod.snd hw').symm
      · exact absurd hw' (hfree w)
    · rcases List.mem_cons.1 hw with rfl | hw'
      · exact absurd hv' (hfree v)
      · exact eq_of_mem_of_nodup h.2 hv' hw'

theorem nodup_keys (m : SortedMap α) : m.keys.Nodup := by
  refine m.sorted.imp ?_
  intro a b hlt heq
  subst b
  exact String.lt_irrefl a hlt

theorem mem_keys {m : SortedMap α} {k : String} : k ∈ m.keys ↔ (m.get? k).isSome = true :=
  mem_keys_iff

theorem get?_eq_some_iff {m : SortedMap α} {k : String} {v : α} :
    m.get? k = some v ↔ (k, v) ∈ m.entries := by
  constructor
  · exact mem_of_find
  · intro hm
    have hkey : k ∈ m.keys := List.mem_map.2 ⟨_, hm, rfl⟩
    obtain ⟨w, hw⟩ := Option.isSome_iff_exists.1 (mem_keys.1 hkey)
    rw [hw, eq_of_mem_of_nodup m.nodup_keys (mem_of_find hw) hm]

/-- A map is what its entries make. -/
@[simp] theorem ofList_entries (m : SortedMap α) : ofList m.entries = m := by
  refine ext_get? fun k => Option.ext fun v => ?_
  rw [get?_ofList_eq_some_iff fun _ _ => eq_of_mem_of_nodup m.nodup_keys, get?_eq_some_iff]

/-- Filing pairs in two goes is merging two maps. -/
theorem ofList_append (es fs : List (String × α)) :
    ofList (es ++ fs) = (ofList es).merge (ofList fs) :=
  ext_get? fun k => by
    rw [get?_merge, get?_ofList fs, ofList, get?_insertAll_append, get?_insertAll]
    rfl

theorem merge_assoc (l m n : SortedMap α) : (l.merge m).merge n = l.merge (m.merge n) :=
  ext_get? fun k => by simp [Option.or_assoc]

@[simp] theorem merge_empty (m : SortedMap α) : m.merge empty = m :=
  ext_get? fun k => by simp

@[simp] theorem empty_merge (m : SortedMap α) : (empty : SortedMap α).merge m = m :=
  ext_get? fun k => by simp

end SortedMap

end BugQuery
