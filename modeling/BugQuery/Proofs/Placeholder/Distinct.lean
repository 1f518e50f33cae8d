import BugQuery.Placeholder
import Mathlib.Data.List.Induction
import Mathlib.Data.List.Sort

/-!
# Members at their first places

`distinct` goes through a list and appends each member that it has not met.
What comes out are the members of the list, each once, in the order of their
first places, and no other list is that.

* `firstsOf_distinct`: `distinct` yields the members in the order of their first places.
* `eq_distinct_iff`: that order, and having the same members, determine the result.
-/
namespace BugQuery.Placeholder

/-- The members of `xs`, in the order of their first places. -/
structure FirstsOf (xs ys : List String) : Prop where
  mem : ∀ x, x ∈ ys ↔ x ∈ xs
  order : ys.Pairwise fun a b => xs.idxOf a < xs.idxOf b

theorem FirstsOf.nodup {xs ys : List String} (h : FirstsOf xs ys) : ys.Nodup := by
  refine h.order.imp ?_
  rintro a _ hlt rfl
  exact Nat.lt_irrefl _ hlt

theorem FirstsOf.unique {xs ys zs : List String} (hy : FirstsOf xs ys) (hz : FirstsOf xs zs) :
    ys = zs := by
  have : Std.Irrefl fun a b => xs.idxOf a < xs.idxOf b := ⟨fun a => Nat.lt_irrefl (xs.idxOf a)⟩
  have : Std.Antisymm fun a b => xs.idxOf a < xs.idxOf b :=
    ⟨fun a b hab hba => absurd hba (Nat.lt_asymm hab)⟩
  exact hy.order.eq_of_mem_iff hz.order fun a => (hy.mem a).trans (hz.mem a).symm

theorem distinct_concat (xs : List String) (x : String) :
    distinct (xs ++ [x]) = addNew (distinct xs) x := by
  rw [distinct, List.foldl_append]
  rfl

/-- A member that is there already does not move the first places. -/
theorem FirstsOf.concat_of_mem {xs ys : List String} {x : String} (h : FirstsOf xs ys)
    (hx : x ∈ ys) : FirstsOf (xs ++ [x]) ys where
  mem a := by
    rw [h.mem, List.mem_append, List.mem_singleton]
    refine ⟨.inl, fun hcases => ?_⟩
    rcases hcases with ha | rfl
    · exact ha
    · exact (h.mem a).1 hx
  order := by
    refine h.order.imp_of_mem fun {a b} ha hb hlt => ?_
    rwa [List.idxOf_append_of_mem ((h.mem a).1 ha), List.idxOf_append_of_mem ((h.mem b).1 hb)]

/-- A new member has the last place. -/
theorem FirstsOf.concat_of_not_mem {xs ys : List String} {x : String} (h : FirstsOf xs ys)
    (hx : x ∉ ys) : FirstsOf (xs ++ [x]) (ys ++ [x]) where
  mem a := by rw [List.mem_append, List.mem_append, h.mem]
  order := by
    have hfree : x ∉ xs := fun hm => hx ((h.mem x).2 hm)
    have hkeep : ∀ a ∈ ys, (xs ++ [x]).idxOf a = xs.idxOf a := fun a ha =>
      List.idxOf_append_of_mem ((h.mem a).1 ha)
    have hlast : (xs ++ [x]).idxOf x = xs.length := by
      rw [List.idxOf_append_of_notMem hfree]
      simp
    refine List.pairwise_append.2 ⟨?_, List.pairwise_singleton _ x, fun a ha b hb => ?_⟩
    · refine h.order.imp_of_mem fun {a b} ha hb hlt => ?_
      rwa [hkeep a ha, hkeep b hb]
    · rw [List.mem_singleton.1 hb, hkeep a ha, hlast]
      exact List.idxOf_lt_length_of_mem ((h.mem a).1 ha)

theorem firstsOf_distinct (xs : List String) : FirstsOf xs (distinct xs) := by
  induction xs using List.reverseRecOn with
  | nil => exact ⟨fun _ => Iff.rfl, List.Pairwise.nil⟩
  | append_singleton xs x ih =>
    rw [distinct_concat, addNew]
    split
    · rename_i hx
      exact ih.concat_of_mem hx
    · rename_i hx
      exact ih.concat_of_not_mem hx

theorem eq_distinct_iff {xs ys : List String} : ys = distinct xs ↔ FirstsOf xs ys := by
  refine ⟨?_, fun h => h.unique (firstsOf_distinct xs)⟩
  rintro rfl
  exact firstsOf_distinct xs

end BugQuery.Placeholder
