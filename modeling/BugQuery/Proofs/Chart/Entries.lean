import BugQuery.Proofs.Chart.Lossless
import Mathlib.Data.List.Nodup
import Mathlib.Data.List.Perm.Basic

/-!
# The entries of one chart

The keys of a chart are those of its slots: three for every term, and one if
the expression is negated. No slot comes twice, so the payload has an entry
for each.

* `SortedMap.size_ofList`: pairs without a common key make a map with as many entries.
* `slots`, `map_key_slots`, `nodup_slots`: the slots of a chart; their keys are its entries' keys.
* `size_fragment`: the number of entries of a chart.
* `get?_key_fragment`: what the entry of a slot holds.
-/
namespace BugQuery

namespace SortedMap

variable {α : Type}

theorem mem_keys_ofList {es : List (String × α)} {k : String} :
    k ∈ (ofList es).keys ↔ k ∈ es.map Prod.fst := by
  rw [mem_keys, get?_ofList, ← mem_keys_iff, List.map_reverse, List.mem_reverse]

theorem size_ofList {es : List (String × α)} (h : (es.map Prod.fst).Nodup) :
    (ofList es).size = es.length := by
  have hperm : (ofList es).keys.Perm (es.map Prod.fst) :=
    (List.perm_ext_iff_of_nodup (nodup_keys _) h).2 fun _ => mem_keys_ofList
  simpa [keys, size] using hperm.length_eq

end SortedMap

namespace Chart

/-- The slots of the term at a position. -/
def slotsAt (p : Position) : List Slot := [.field p, .type p, .value p]

/-- The slots of an expression as chart number `n`. -/
def slots (n : Nat) (e : Expr) : List Slot :=
  e.positionedTerms.flatMap (fun x => slotsAt ⟨n, x.1, x.2.1⟩) ++
    if e.negate then [.negate n] else []

theorem map_key_slots (fields : FieldTable) (n : Nat) (e : Expr) :
    (slots n e).map Slot.key = (entries fields n e).map Prod.fst := by
  rw [slots, entries, List.map_append, List.map_append, List.map_flatMap, List.map_flatMap]
  congr 1
  cases e.negate <;> rfl

theorem mem_slotsAt {p : Position} {s : Slot} :
    s ∈ slotsAt p ↔ s = .field p ∨ s = .type p ∨ s = .value p := by
  simp [slotsAt]

theorem eq_of_mem_slotsAt {p q : Position} {s : Slot} (hp : s ∈ slotsAt p) (hq : s ∈ slotsAt q) :
    p = q := by
  rcases mem_slotsAt.1 hp with rfl | rfl | rfl <;>
    rcases mem_slotsAt.1 hq with h | h | h <;> cases h <;> rfl

theorem nodup_slots (n : Nat) (e : Expr) : (slots n e).Nodup := by
  have hterms : (e.positionedTerms.flatMap fun x => slotsAt ⟨n, x.1, x.2.1⟩).Nodup := by
    refine List.nodup_flatMap.2 ⟨fun x _ => by simp [slotsAt], ?_⟩
    refine (List.pairwise_map.1 e.nodup_positionedTerms).imp fun hne s hx hy => hne ?_
    have hposition := eq_of_mem_slotsAt hx hy
    exact Prod.ext (congrArg Position.row hposition) (congrArg Position.column hposition)
  refine List.nodup_append.2 ⟨hterms, by cases e.negate <;> simp, ?_⟩
  rintro s hs _ hn rfl
  obtain ⟨x, -, hx⟩ := List.mem_flatMap.1 hs
  split at hn
  · obtain rfl := List.mem_singleton.1 hn
    simp [slotsAt] at hx
  · cases hn

theorem length_slots (n : Nat) (e : Expr) :
    (slots n e).length = 3 * e.termCount + if e.negate then 1 else 0 := by
  have hthree : (e.positionedTerms.map fun x => (slotsAt ⟨n, x.1, x.2.1⟩).length) =
      List.replicate e.positionedTerms.length 3 :=
    List.map_eq_replicate_iff.2 fun _ _ => rfl
  rw [slots, List.length_append, List.length_flatMap, hthree, List.sum_replicate_nat,
    Expr.length_positionedTerms, Nat.mul_comm]
  cases e.negate <;> rfl

/-- A chart has three entries for every term, and one more if it is negated. -/
theorem size_fragment (fields : FieldTable) (x : Nat × Expr) :
    (fragment fields x).size = 3 * x.2.termCount + if x.2.negate then 1 else 0 := by
  have hkeys := map_key_slots fields x.1 x.2
  have hnodup : ((entries fields x.1 x.2).map Prod.fst).Nodup := by
    rw [← hkeys]
    exact (nodup_slots x.1 x.2).map fun _ _ => Slot.key_injective
  have hlength := congrArg List.length hkeys
  rw [List.length_map, List.length_map, length_slots] at hlength
  rw [fragment, SortedMap.size_ofList hnodup, hlength]

/-- A slot's key finds what the slot holds, if the slot is one of the chart. -/
theorem get?_key_fragment (fields : FieldTable) (x : Nat × Expr) {s : Slot} (hs : s.chart = x.1) :
    (fragment fields x).get? s.key = s.held? fields x.2 := by
  ext v
  rw [get?_fragment]
  constructor
  · intro hex
    obtain ⟨t, -, ht, hv⟩ := hex
    rwa [← Slot.key_injective ht]
  · exact fun hv => ⟨s, hs, rfl, hv⟩

end Chart

end BugQuery
