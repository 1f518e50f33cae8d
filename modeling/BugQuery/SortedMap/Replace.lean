import BugQuery.SortedMap

/-!
# Changes that hand out the old value

`replace` and `remove` change a map as `insert` and `erase` do, and hand out
the value that the key had. Both walk the entries once. `replace` stops at
the first greater key and `remove` at the key itself, which is far enough
because keys ascend.

* `replace_fst`, `remove_fst`: what is handed out is what a look-up finds before.
* `replace_snd`, `remove_snd`: the map after is that of `insert` and of `erase`.
-/
namespace BugQuery.SortedMap

variable {α : Type}

/-- Puts `v` under `k` at its place in the order, and hands out a value already there. -/
def replaceEntry (k : String) (v : α) : List (String × α) → Option α × List (String × α)
  | [] => (none, [(k, v)])
  | e :: es =>
    if k < e.1 then (none, (k, v) :: e :: es)
    else if e.1 = k then (some e.2, (k, v) :: es)
    else (replaceEntry k v es).map id (e :: ·)

/-- Takes out the entry of `k`, and hands out its value. -/
def removeEntry (k : String) : List (String × α) → Option α × List (String × α)
  | [] => (none, [])
  | e :: es => if e.1 = k then (some e.2, es) else (removeEntry k es).map id (e :: ·)

theorem replaceEntry_snd (k : String) (v : α) : ∀ es : List (String × α),
    (replaceEntry k v es).2 = insertEntry k v es
  | [] => rfl
  | e :: es => by
    unfold replaceEntry insertEntry
    split
    · rfl
    · split
      · rfl
      · rw [Prod.map_snd, replaceEntry_snd k v es]

theorem replaceEntry_fst (k : String) (v : α) : ∀ {es : List (String × α)},
    (es.map Prod.fst).Pairwise (· < ·) → (replaceEntry k v es).1 = find k es
  | [], _ => rfl
  | e :: es, h => by
    rw [List.map_cons, List.pairwise_cons] at h
    unfold replaceEntry
    split
    · rename_i hlt
      symm
      refine find_eq_none_of_lt fun x hx => ?_
      rcases List.mem_cons.1 hx with rfl | hx
      · exact hlt
      · exact String.lt_trans hlt (h.1 x hx)
    · split
      · rename_i heq
        rw [find, if_pos heq]
      · rename_i hne
        rw [find, if_neg hne, Prod.map_fst, replaceEntry_fst k v h.2]
        rfl

theorem removeEntry_snd (k : String) : ∀ {es : List (String × α)},
    (es.map Prod.fst).Pairwise (· < ·) → (removeEntry k es).2 = es.filter fun e => e.1 ≠ k
  | [], _ => rfl
  | e :: es, h => by
    rw [List.map_cons, List.pairwise_cons] at h
    unfold removeEntry
    split
    · rename_i heq
      have hrest : ∀ f ∈ es, decide (f.1 ≠ k) = true := by
        intro f hf
        have hlt := h.1 f.1 (List.mem_map.2 ⟨f, hf, rfl⟩)
        rw [heq] at hlt
        exact decide_eq_true fun hk => String.lt_irrefl k (hk ▸ hlt)
      rw [List.filter_cons_of_neg (by simp [heq]), List.filter_eq_self.2 hrest]
    · rename_i hne
      rw [List.filter_cons_of_pos (by simp [hne]), Prod.map_snd, removeEntry_snd k h.2]

theorem removeEntry_fst (k : String) : ∀ es : List (String × α), (removeEntry k es).1 = find k es
  | [] => rfl
  | e :: es => by
    unfold removeEntry find
    split
    · rfl
    · rw [Prod.map_fst, removeEntry_fst k es]
      rfl

/-- Files `v` under `k`, and hands out the value that was there. -/
def replace (m : SortedMap α) (k : String) (v : α) : Option α × SortedMap α :=
  let r := replaceEntry k v m.entries
  (r.1, ⟨r.2, (replaceEntry_snd k v m.entries).symm ▸ sorted_insertEntry m.sorted⟩)

/-- Takes out what is filed under `k`, and hands it out. -/
def remove (m : SortedMap α) (k : String) : Option α × SortedMap α :=
  let r := removeEntry k m.entries
  (r.1, ⟨r.2, (removeEntry_snd k m.sorted).symm ▸ (m.erase k).sorted⟩)

@[simp] theorem replace_fst (m : SortedMap α) (k : String) (v : α) :
    (m.replace k v).1 = m.get? k := replaceEntry_fst k v m.sorted

@[simp] theorem replace_snd (m : SortedMap α) (k : String) (v : α) :
    (m.replace k v).2 = m.insert k v := by
  simp only [replace, insert, replaceEntry_snd]

@[simp] theorem remove_fst (m : SortedMap α) (k : String) : (m.remove k).1 = m.get? k :=
  removeEntry_fst k m.entries

@[simp] theorem remove_snd (m : SortedMap α) (k : String) : (m.remove k).2 = m.erase k := by
  simp only [remove, erase, removeEntry_snd k m.sorted]

end BugQuery.SortedMap
